import WowmaxStellar.Adapters.Encode

/-!
# The four protocols

`protocol_swap_exact_tokens_for_tokens` and `protocol_swap_tokens_for_exact_tokens` of each
adapter: look the venue's address up, encode the path, call the venue, and report the
amounts. Aquarius and Phoenix measure what an exact-input swap paid out on the recipient's
balance; every other figure is an argument or the venue's word.
-/

namespace WowmaxStellar.Adapters

variable {V : Type}

namespace Soroswap

def protocolSwapExactTokensForTokens (env : Env V) (amountIn amountOutMin : Int)
    (path : Vec Address) (recipient : Address) (deadline : UInt64) : Exec V (List Int) := do
  let soroswapRouter ← getProtocolAddress
  callVenue env soroswapRouter
    (.swapExactTokensForTokens amountIn amountOutMin path recipient deadline) Reply.amounts?

def protocolSwapTokensForExactTokens (env : Env V) (amountOut amountInMax : Int)
    (path : Vec Address) (recipient : Address) (deadline : UInt64) : Exec V (List Int) := do
  let soroswapRouter ← getProtocolAddress
  callVenue env soroswapRouter
    (.swapTokensForExactTokens amountOut amountInMax path recipient deadline) Reply.amounts?

end Soroswap

namespace Aqua

def protocolSwapExactTokensForTokens (env : Env V) (amountIn amountOutMin : Int)
    (path : Vec Address) (recipient : Address) (bytes : Option (Vec BytesN32)) :
    Exec V (List Int) := do
  let aquaRouter ← getProtocolAddress
  let swapsChain ← liftResult (convertToSwapsChain path bytes)
  let tokenIn ← liftResult (expect .noTokenIn path.val[0]?)
  let last ← liftResult (lenMinusOne .unwrapNone path)
  let tokenOut ← liftResult (expect .noTokenOut path.val[last]?)
  let initialBalance ← balance tokenOut recipient
  let _ ← callVenue env aquaRouter
    (.swapChained recipient swapsChain tokenIn (asU128 amountIn) (asU128 amountOutMin)) Reply.u128?
  let finalBalance ← balance tokenOut recipient
  let finalAmountOut ← checkedSub finalBalance initialBalance
  panicIf (finalAmountOut < amountOutMin) .amountOutBelowMin
  pure [amountIn, finalAmountOut]

def protocolSwapTokensForExactTokens (env : Env V) (amountOut amountInMax : Int)
    (path : Vec Address) (recipient : Address) (bytes : Option (Vec BytesN32)) :
    Exec V (List Int) := do
  let aquaRouter ← getProtocolAddress
  let swapsChain ← liftResult (convertToSwapsChain path bytes)
  let tokenIn ← liftResult (expect .noTokenIn path.val[0]?)
  let finalAmountIn ← callVenue env aquaRouter
    (.swapChainedStrictReceive recipient swapsChain tokenIn (asU128 amountOut)
      (asU128 amountInMax)) Reply.u128?
  pure [asI128 finalAmountIn, amountOut]

end Aqua

namespace Phoenix

def protocolSwapExactTokensForTokens (env : Env V) (amountIn amountOutMin : Int)
    (path : Vec Address) (recipient : Address) : Exec V (List Int) := do
  let phoenixMultihop ← getProtocolAddress
  let operations ← liftResult (convertToSwaps path)
  let last ← liftResult (lenMinusOne .subOverflow path)
  let tokenOut ← liftResult (expect .noTokenOut path.val[last]?)
  let initialBalance ← balance tokenOut recipient
  callVenue env phoenixMultihop
    (.swap recipient operations none amountIn .xyk none none) Reply.unit?
  let finalBalance ← balance tokenOut recipient
  let finalAmountOut ← checkedSub finalBalance initialBalance
  panicIf (finalAmountOut < amountOutMin) .amountOutBelowMin
  pure [amountIn, finalAmountOut]

def protocolSwapTokensForExactTokens (env : Env V) (amountOut amountInMax : Int)
    (path : Vec Address) (recipient : Address) : Exec V (List Int) := do
  let phoenixMultihop ← getProtocolAddress
  let operations ← liftResult (convertToSwaps path)
  let offerAmount ← callVenue env phoenixMultihop
    (.simulateReverseSwap operations.reverse amountOut .xyk) Reply.offer?
  panicIf (offerAmount > amountInMax) .amountInAboveMax
  callVenue env phoenixMultihop
    (.swap recipient operations none offerAmount .xyk none none) Reply.unit?
  pure [offerAmount, amountOut]

end Phoenix

namespace Comet

def protocolSwapExactTokensForTokens (env : Env V) (amountIn amountOutMin : Int)
    (path : Vec Address) (recipient : Address) : Exec V (List Int) := do
  let cometPool ← getProtocolAddress
  let tokenIn ← liftResult (expect .unwrapNone path.val[0]?)
  let tokenOut ← liftResult (expect .unwrapNone path.val[1]?)
  let (amountOut, _) ← callVenue env cometPool
    (.swapExactAmountIn tokenIn amountIn tokenOut amountOutMin i128Max recipient)
    Reply.amountAndPrice?
  pure [amountIn, amountOut]

def protocolSwapTokensForExactTokens (env : Env V) (amountOut amountInMax : Int)
    (path : Vec Address) (recipient : Address) : Exec V (List Int) := do
  let cometPool ← getProtocolAddress
  let tokenIn ← liftResult (expect .unwrapNone path.val[0]?)
  let tokenOut ← liftResult (expect .unwrapNone path.val[1]?)
  let (amountIn, _) ← callVenue env cometPool
    (.swapExactAmountOut tokenIn amountInMax tokenOut amountOut i128Max recipient)
    Reply.amountAndPrice?
  pure [amountIn, amountOut]

end Comet

end WowmaxStellar.Adapters
