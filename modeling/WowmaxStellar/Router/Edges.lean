import WowmaxStellar.Router.Guards

/-!
# Edge executors

Each venue call is an authorisation of the venue's token pull followed by the
invocation. The pull target is the pool for Soroswap and Phoenix and the router for
Aquarius. Every site of the executor authorises and calls in one of the three ways
`callSoroswap`, `callAqua` and `callPhoenix`; the sites of one venue differ in the
minimum-output argument only.
-/

namespace WowmaxStellar

variable {V : Type} (env : Env V)

/-- `authorize_as_current_contract` for one transfer out of the executor. -/
def authorizeTransfer (token target : Address) (amount : Int) : Exec V Unit :=
  authorizeAsCurrentContract [⟨token, env.contract, target, amount⟩]

/-- The type an invocation's result is converted to. -/
inductive ReplyType
  | amounts
  | u128
  | i128
deriving DecidableEq

/-- Convert a reply; the Soroswap sites also reject an empty vector. -/
def expectReply : ReplyType → Reply → Exec V Unit
  | .amounts, .amounts values => panicIf (values = []) .emptyRouterResponse
  | .u128, .u128 _ => pure ()
  | .i128, .i128 _ => pure ()
  | _, _ => throw (.host .badReply)

/-- Authorise one transfer to `target`, invoke the venue, convert its reply. -/
def authorizedCall (token target : Address) (amount : Int) (call : VenueCall)
    (replyType : ReplyType) : Exec V Unit := do
  authorizeTransfer env token target amount
  let reply ← invokeContract env call
  expectReply replyType reply

/-- Authorise the pool and invoke Soroswap's router. -/
def callSoroswap (router pool tokenIn : Address) (amountIn amountOutMin : Int)
    (path : Vec Address) (deadline : UInt64) : Exec V Unit :=
  authorizedCall env tokenIn pool amountIn
    (.swapExactTokensForTokens router amountIn amountOutMin path env.contract
      (venueDeadline deadline)) .amounts

/-- Authorise Aquarius' router and invoke `swap_chained` with a single hop. -/
def callAqua (aquaRouter : Address) (poolTokens : Vec Address) (poolIndex : BytesN32)
    (tokenIn tokenOut : Address) (amountIn outMin : Int) : Exec V Unit :=
  authorizedCall env tokenIn aquaRouter amountIn
    (.swapChained aquaRouter env.contract [(poolTokens, poolIndex, tokenOut)] tokenIn
      (asU128 amountIn) (asU128 outMin)) .u128

/-- Authorise the pool and invoke its `swap`. -/
def callPhoenix (pool tokenIn : Address) (amountIn : Int) (askAssetMinAmount : Option Int)
    (deadline : UInt64) : Exec V Unit :=
  authorizedCall env tokenIn pool amountIn
    (.swap pool env.contract tokenIn amountIn askAssetMinAmount none
      (if deadline = 0 then none else some deadline) none) .i128

def execSoroswapEdge (router pool tokenIn tokenOut : Address) (amountIn : Int)
    (path : Vec Address) (deadline : UInt64) : Exec V Unit := do
  panicIf (amountIn ≤ 0) .hopAmountNotPositive
  requireSoroswapPath path tokenIn tokenOut
  callSoroswap env router pool tokenIn amountIn 0 path deadline

def execAquaEdge (aquaRouter : Address) (poolTokens : Vec Address) (poolIndex : BytesN32)
    (tokenIn tokenOut : Address) (amountIn : Int) : Exec V Unit := do
  panicIf (amountIn ≤ 0) .hopAmountNotPositive
  requireAquaTokens poolTokens tokenIn tokenOut
  callAqua env aquaRouter poolTokens poolIndex tokenIn tokenOut amountIn 0

def execPhoenixEdge (pool tokenIn : Address) (amountIn : Int) (deadline : UInt64) :
    Exec V Unit := do
  panicIf (amountIn ≤ 0) .hopAmountNotPositive
  callPhoenix env pool tokenIn amountIn none deadline

/-- The venue dispatch of a hop of `swap`. -/
def execHop (hop : Hop) (hopIn : Int) (deadline : UInt64) : Exec V Unit :=
  if hop.venue = 0 then
    execSoroswapEdge env hop.soroswapRouter hop.pool hop.tokenIn hop.tokenOut hopIn
      hop.soroswapPath deadline
  else if hop.venue = 1 then
    execAquaEdge env hop.aquaRouter hop.aquaPoolTokens hop.aquaPoolIndex hop.tokenIn
      hop.tokenOut hopIn
  else if hop.venue = 2 then
    execPhoenixEdge env hop.pool hop.tokenIn hopIn deadline
  else throw (.guard .badVenue)

/-- The venue dispatch of a fill of `swap_merge`. -/
def execFill (stageToken : Address) (fill : Fill) (fillIn : Int) (deadline : UInt64) :
    Exec V Unit :=
  if fill.venue = 0 then
    execSoroswapEdge env fill.soroswapRouter fill.pool stageToken fill.tokenOut fillIn
      fill.soroswapPath deadline
  else if fill.venue = 1 then
    execAquaEdge env fill.aquaRouter fill.aquaPoolTokens fill.aquaPoolIndex stageToken
      fill.tokenOut fillIn
  else if fill.venue = 2 then
    execPhoenixEdge env fill.pool stageToken fillIn deadline
  else throw (.guard .badVenue)

/-- Both plan executors dispatch an edge the same way. -/
theorem execFill_eq_execHop (stageToken : Address) (fill : Fill) (fillIn : Int)
    (deadline : UInt64) :
    execFill env stageToken fill fillIn deadline =
      execHop env (fill.toHop stageToken) fillIn deadline := rfl

end WowmaxStellar
