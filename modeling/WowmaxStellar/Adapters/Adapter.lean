import WowmaxStellar.Adapters.Protocols

/-!
# The adapter interface

`AdapterTrait` and its four implementations. They differ in the checks made before the
swap, in their order, and in the topic of their events; `bytes` is read by Aquarius alone,
which in turn ignores the deadline.
-/

namespace WowmaxStellar.Adapters

variable {V : Type}

/-- The read-only function `get_protocol_id`. -/
def readProtocolId : Exec V String := do
  checkInitialized
  getProtocolId

/-- The read-only function `get_protocol_address`. -/
def readProtocolAddress : Exec V Address := do
  checkInitialized
  getProtocolAddress

namespace Soroswap

def topic : String := "WowmaxStellarRouterAdapter"

def swapExactTokensForTokens (env : Env V) (amountIn amountOutMin : Int) (path : Vec Address)
    (recipient : Address) (deadline : UInt64) : Exec V (List Int) := do
  checkInitialized
  requireAuth env recipient
  let swapResult ←
    protocolSwapExactTokensForTokens env amountIn amountOutMin path recipient deadline
  publish (.swap topic amountIn path recipient)
  pure swapResult

def swapTokensForExactTokens (env : Env V) (amountOut amountInMax : Int) (path : Vec Address)
    (recipient : Address) (deadline : UInt64) : Exec V (List Int) := do
  checkInitialized
  requireAuth env recipient
  let swapResult ←
    protocolSwapTokensForExactTokens env amountOut amountInMax path recipient deadline
  publish (.swap topic amountInMax path recipient)
  pure swapResult

end Soroswap

namespace Aqua

def topic : String := "WowmaxStellarRouterAquaAdapter"

def swapExactTokensForTokens (env : Env V) (amountIn amountOutMin : Int) (path : Vec Address)
    (recipient : Address) (bytes : Option (Vec BytesN32)) : Exec V (List Int) := do
  checkInitialized
  requireAuth env recipient
  checkNonnegativeAmount amountIn
  checkNonnegativeAmount amountOutMin
  let swapResult ←
    protocolSwapExactTokensForTokens env amountIn amountOutMin path recipient bytes
  publish (.swap topic amountIn path recipient)
  pure swapResult

def swapTokensForExactTokens (env : Env V) (amountOut amountInMax : Int) (path : Vec Address)
    (recipient : Address) (bytes : Option (Vec BytesN32)) : Exec V (List Int) := do
  checkInitialized
  requireAuth env recipient
  checkNonnegativeAmount amountOut
  checkNonnegativeAmount amountInMax
  let swapResult ←
    protocolSwapTokensForExactTokens env amountOut amountInMax path recipient bytes
  publish (.swap topic amountInMax path recipient)
  pure swapResult

end Aqua

namespace Phoenix

def topic : String := "WowmaxStellarRouterPhoenixAdapter"

def swapExactTokensForTokens (env : Env V) (amountIn amountOutMin : Int) (path : Vec Address)
    (recipient : Address) (deadline : UInt64) : Exec V (List Int) := do
  checkInitialized
  requireAuth env recipient
  checkNonnegativeAmount amountIn
  checkNonnegativeAmount amountOutMin
  checkDeadline env deadline
  let swapResult ← protocolSwapExactTokensForTokens env amountIn amountOutMin path recipient
  publish (.swap topic amountIn path recipient)
  pure swapResult

def swapTokensForExactTokens (env : Env V) (amountOut amountInMax : Int) (path : Vec Address)
    (recipient : Address) (deadline : UInt64) : Exec V (List Int) := do
  checkInitialized
  requireAuth env recipient
  checkNonnegativeAmount amountOut
  checkNonnegativeAmount amountInMax
  checkDeadline env deadline
  let swapResult ← protocolSwapTokensForExactTokens env amountOut amountInMax path recipient
  publish (.swap topic amountInMax path recipient)
  pure swapResult

end Phoenix

namespace Comet

def topic : String := "WowmaxStellarRouterAdapter"

/-- The deadline comes first here, and the amounts go to the pool as they are. -/
def swapExactTokensForTokens (env : Env V) (amountIn amountOutMin : Int) (path : Vec Address)
    (recipient : Address) (deadline : UInt64) : Exec V (List Int) := do
  checkInitialized
  checkDeadline env deadline
  requireAuth env recipient
  let swapResult ← protocolSwapExactTokensForTokens env amountIn amountOutMin path recipient
  publish (.swap topic amountIn path recipient)
  pure swapResult

def swapTokensForExactTokens (env : Env V) (amountOut amountInMax : Int) (path : Vec Address)
    (recipient : Address) (deadline : UInt64) : Exec V (List Int) := do
  checkInitialized
  checkDeadline env deadline
  requireAuth env recipient
  let swapResult ← protocolSwapTokensForExactTokens env amountOut amountInMax path recipient
  publish (.swap topic amountInMax path recipient)
  pure swapResult

end Comet

/-! ## Calls of the interface -/

/-- The adapters of the repository. -/
inductive Adapter
  | soroswap
  | aqua
  | phoenix
  | comet
deriving DecidableEq, Repr

def Adapter.topic : Adapter → String
  | .soroswap => Soroswap.topic
  | .aqua => Aqua.topic
  | .phoenix => Phoenix.topic
  | .comet => Comet.topic

/-- `initialize`, the same in the four adapters but for the topic. -/
def Adapter.initializeWith (adapter : Adapter) (protocolId : String) (protocolAddress : Address) :
    Exec V Unit := do
  if ← isInitialized then fail .alreadyInitialized
  setProtocolId protocolId
  setProtocolAddress protocolAddress
  setInitialized
  publish (.initialized adapter.topic true protocolId protocolAddress)

/-- A swap as the interface takes it. -/
inductive SwapCall
  | swapExactTokensForTokens (amountIn amountOutMin : I128) (path : Vec Address)
      (recipient : Address) (deadline : UInt64) (bytes : Option (Vec BytesN32))
  | swapTokensForExactTokens (amountOut amountInMax : I128) (path : Vec Address)
      (recipient : Address) (deadline : UInt64) (bytes : Option (Vec BytesN32))

def SwapCall.path : SwapCall → Vec Address
  | .swapExactTokensForTokens _ _ path _ _ _ => path
  | .swapTokensForExactTokens _ _ path _ _ _ => path

def SwapCall.recipient : SwapCall → Address
  | .swapExactTokensForTokens _ _ _ recipient _ _ => recipient
  | .swapTokensForExactTokens _ _ _ recipient _ _ => recipient

def SwapCall.deadline : SwapCall → UInt64
  | .swapExactTokensForTokens _ _ _ _ deadline _ => deadline
  | .swapTokensForExactTokens _ _ _ _ deadline _ => deadline

/-- The amount that is exact and the bound on the other one. -/
def SwapCall.amounts : SwapCall → I128 × I128
  | .swapExactTokensForTokens amountIn amountOutMin _ _ _ _ => (amountIn, amountOutMin)
  | .swapTokensForExactTokens amountOut amountInMax _ _ _ _ => (amountOut, amountInMax)

def SwapCall.bytes : SwapCall → Option (Vec BytesN32)
  | .swapExactTokensForTokens _ _ _ _ _ bytes => bytes
  | .swapTokensForExactTokens _ _ _ _ _ bytes => bytes

/-- The swap as each adapter carries it out. -/
def Adapter.run (adapter : Adapter) (env : Env V) (call : SwapCall) : Exec V (List Int) :=
  match adapter, call with
  | .soroswap, .swapExactTokensForTokens amountIn amountOutMin path recipient deadline _ =>
      Soroswap.swapExactTokensForTokens env amountIn amountOutMin path recipient deadline
  | .soroswap, .swapTokensForExactTokens amountOut amountInMax path recipient deadline _ =>
      Soroswap.swapTokensForExactTokens env amountOut amountInMax path recipient deadline
  | .aqua, .swapExactTokensForTokens amountIn amountOutMin path recipient _ bytes =>
      Aqua.swapExactTokensForTokens env amountIn amountOutMin path recipient bytes
  | .aqua, .swapTokensForExactTokens amountOut amountInMax path recipient _ bytes =>
      Aqua.swapTokensForExactTokens env amountOut amountInMax path recipient bytes
  | .phoenix, .swapExactTokensForTokens amountIn amountOutMin path recipient deadline _ =>
      Phoenix.swapExactTokensForTokens env amountIn amountOutMin path recipient deadline
  | .phoenix, .swapTokensForExactTokens amountOut amountInMax path recipient deadline _ =>
      Phoenix.swapTokensForExactTokens env amountOut amountInMax path recipient deadline
  | .comet, .swapExactTokensForTokens amountIn amountOutMin path recipient deadline _ =>
      Comet.swapExactTokensForTokens env amountIn amountOutMin path recipient deadline
  | .comet, .swapTokensForExactTokens amountOut amountInMax path recipient deadline _ =>
      Comet.swapTokensForExactTokens env amountOut amountInMax path recipient deadline

end WowmaxStellar.Adapters
