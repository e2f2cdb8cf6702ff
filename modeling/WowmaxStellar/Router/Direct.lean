import WowmaxStellar.Router.Edges

/-!
# The single-purpose entry points

`swap_soroswap`, `swap_aqua`, `swap_phoenix` and the cross-protocol
`swap_aqua_then_soroswap`. They pull the input, call the venues themselves and
forward the balance they gained. None of them looks into the routing data: `path`
and `poolTokens` reach the venue unchecked.
-/

namespace WowmaxStellar

variable {V : Type} (env : Env V)

/-- The common tail: measure the output gained since `outBefore`, check the minimum
and forward everything to the user. -/
def forwardOutput (user tokenOut : Address) (outBefore amountOutMin : Int) : Exec V Int := do
  let outAfter ← balance tokenOut env.contract
  let out ← checkedSub outAfter outBefore
  panicIf (out ≤ 0) .noOutput
  panicIf (out < amountOutMin) .amountOutMinNotMet
  transfer env tokenOut env.contract user out
  pure out

def swapSoroswap (user soroswapRouter pool tokenIn tokenOut : Address)
    (amountIn amountOutMin : I128) (path : Vec Address) (deadline : UInt64) : Exec V Int := do
  entryChecks env user tokenIn tokenOut amountIn amountOutMin deadline
  let outBefore ← balance tokenOut env.contract
  transfer env tokenIn user env.contract amountIn
  let srcBefore ← balance tokenIn env.contract
  callSoroswap env soroswapRouter pool tokenIn amountIn amountOutMin path deadline
  requireConsumed env tokenIn srcBefore amountIn
  forwardOutput env user tokenOut outBefore amountOutMin

/-- `pool` is kept for call-site compatibility; the authorisation targets the router. -/
def swapAqua (user aquaRouter _pool : Address) (poolTokens : Vec Address)
    (poolIndex : BytesN32) (tokenIn tokenOut : Address) (amountIn amountOutMin : I128)
    (deadline : UInt64) : Exec V Int := do
  entryChecks env user tokenIn tokenOut amountIn amountOutMin deadline
  let outBefore ← balance tokenOut env.contract
  transfer env tokenIn user env.contract amountIn
  let srcBefore ← balance tokenIn env.contract
  callAqua env aquaRouter poolTokens poolIndex tokenIn tokenOut amountIn amountOutMin
  requireConsumed env tokenIn srcBefore amountIn
  forwardOutput env user tokenOut outBefore amountOutMin

def swapPhoenix (user pool tokenIn tokenOut : Address) (amountIn amountOutMin : I128)
    (deadline : UInt64) : Exec V Int := do
  entryChecks env user tokenIn tokenOut amountIn amountOutMin deadline
  let outBefore ← balance tokenOut env.contract
  transfer env tokenIn user env.contract amountIn
  let srcBefore ← balance tokenIn env.contract
  callPhoenix env pool tokenIn amountIn (some amountOutMin) deadline
  requireConsumed env tokenIn srcBefore amountIn
  forwardOutput env user tokenOut outBefore amountOutMin

/-- Leg 1 Aquarius, leg 2 Soroswap. Leg 2 is fed the balance leg 1 produced. -/
def swapAquaThenSoroswap (user aquaRouter : Address) (aquaPoolTokens : Vec Address)
    (aquaPoolIndex : BytesN32) (tokenIn midToken soroswapRouter soroswapPool : Address)
    (soroswapPath : Vec Address) (tokenOut : Address) (amountIn amountOutMin : I128)
    (deadline : UInt64) : Exec V Int := do
  entryChecks env user tokenIn tokenOut amountIn amountOutMin deadline
  panicIf (midToken = tokenIn ∨ midToken = tokenOut) .midTokenNotDistinct
  let outBefore ← balance tokenOut env.contract
  let midBefore ← balance midToken env.contract
  transfer env tokenIn user env.contract amountIn
  let srcBefore ← balance tokenIn env.contract
  callAqua env aquaRouter aquaPoolTokens aquaPoolIndex tokenIn midToken amountIn 0
  requireConsumed env tokenIn srcBefore amountIn
  let midAfter ← balance midToken env.contract
  let midAmt ← checkedSub midAfter midBefore
  panicIf (midAmt ≤ 0) .legOneNoOutput
  callSoroswap env soroswapRouter soroswapPool midToken midAmt 0 soroswapPath deadline
  -- the reading after leg 1 is the one leg 2 starts from
  requireConsumed env midToken midAfter midAmt
  forwardOutput env user tokenOut outBefore amountOutMin

end WowmaxStellar
