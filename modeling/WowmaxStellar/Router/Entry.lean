import WowmaxStellar.Router.SwapMerge

/-!
# Entry points and invocations

A call of one of the six entry points with its arguments, and its invocation from a
world: the run starts with no authorisation and an empty trace, and a panic rolls
everything back.
-/

namespace WowmaxStellar

/-- A call of one of the six entry points. -/
inductive EntryCall
  | swapSoroswap (user soroswapRouter pool tokenIn tokenOut : Address)
      (amountIn amountOutMin : I128) (path : Vec Address) (deadline : UInt64)
  | swapAqua (user aquaRouter pool : Address) (poolTokens : Vec Address)
      (poolIndex : BytesN32) (tokenIn tokenOut : Address) (amountIn amountOutMin : I128)
      (deadline : UInt64)
  | swapPhoenix (user pool tokenIn tokenOut : Address) (amountIn amountOutMin : I128)
      (deadline : UInt64)
  | swapAquaThenSoroswap (user aquaRouter : Address) (aquaPoolTokens : Vec Address)
      (aquaPoolIndex : BytesN32) (tokenIn midToken soroswapRouter soroswapPool : Address)
      (soroswapPath : Vec Address) (tokenOut : Address) (amountIn amountOutMin : I128)
      (deadline : UInt64)
  | swap (user tokenIn tokenOut : Address) (amountIn amountOutMin : I128)
      (deadline : UInt64) (plan : Vec Strand)
  | swapMerge (user tokenIn tokenOut : Address) (amountIn amountOutMin : I128)
      (deadline : UInt64) (stages : Vec Stage)

namespace EntryCall

def user : EntryCall → Address
  | .swapSoroswap user .. => user
  | .swapAqua user .. => user
  | .swapPhoenix user .. => user
  | .swapAquaThenSoroswap user .. => user
  | .swap user .. => user
  | .swapMerge user .. => user

def tokenIn : EntryCall → Address
  | .swapSoroswap _ _ _ tokenIn .. => tokenIn
  | .swapAqua _ _ _ _ _ tokenIn .. => tokenIn
  | .swapPhoenix _ _ tokenIn .. => tokenIn
  | .swapAquaThenSoroswap _ _ _ _ tokenIn .. => tokenIn
  | .swap _ tokenIn .. => tokenIn
  | .swapMerge _ tokenIn .. => tokenIn

def tokenOut : EntryCall → Address
  | .swapSoroswap _ _ _ _ tokenOut .. => tokenOut
  | .swapAqua _ _ _ _ _ _ tokenOut .. => tokenOut
  | .swapPhoenix _ _ _ tokenOut .. => tokenOut
  | .swapAquaThenSoroswap _ _ _ _ _ _ _ _ _ tokenOut .. => tokenOut
  | .swap _ _ tokenOut .. => tokenOut
  | .swapMerge _ _ tokenOut .. => tokenOut

def amountIn : EntryCall → I128
  | .swapSoroswap _ _ _ _ _ amountIn .. => amountIn
  | .swapAqua _ _ _ _ _ _ _ amountIn .. => amountIn
  | .swapPhoenix _ _ _ _ amountIn .. => amountIn
  | .swapAquaThenSoroswap _ _ _ _ _ _ _ _ _ _ amountIn .. => amountIn
  | .swap _ _ _ amountIn .. => amountIn
  | .swapMerge _ _ _ amountIn .. => amountIn

def amountOutMin : EntryCall → I128
  | .swapSoroswap _ _ _ _ _ _ amountOutMin .. => amountOutMin
  | .swapAqua _ _ _ _ _ _ _ _ amountOutMin .. => amountOutMin
  | .swapPhoenix _ _ _ _ _ amountOutMin .. => amountOutMin
  | .swapAquaThenSoroswap _ _ _ _ _ _ _ _ _ _ _ amountOutMin .. => amountOutMin
  | .swap _ _ _ _ amountOutMin .. => amountOutMin
  | .swapMerge _ _ _ _ amountOutMin .. => amountOutMin

/-- The code of the entry point. -/
def run {V : Type} (env : Env V) : EntryCall → Exec V Int
  | .swapSoroswap user router pool tokenIn tokenOut amountIn amountOutMin path deadline =>
      WowmaxStellar.swapSoroswap env user router pool tokenIn tokenOut amountIn amountOutMin
        path deadline
  | .swapAqua user router pool poolTokens poolIndex tokenIn tokenOut amountIn amountOutMin
      deadline =>
      WowmaxStellar.swapAqua env user router pool poolTokens poolIndex tokenIn tokenOut
        amountIn amountOutMin deadline
  | .swapPhoenix user pool tokenIn tokenOut amountIn amountOutMin deadline =>
      WowmaxStellar.swapPhoenix env user pool tokenIn tokenOut amountIn amountOutMin deadline
  | .swapAquaThenSoroswap user aquaRouter aquaPoolTokens aquaPoolIndex tokenIn midToken
      soroswapRouter soroswapPool soroswapPath tokenOut amountIn amountOutMin deadline =>
      WowmaxStellar.swapAquaThenSoroswap env user aquaRouter aquaPoolTokens aquaPoolIndex
        tokenIn midToken soroswapRouter soroswapPool soroswapPath tokenOut amountIn
        amountOutMin deadline
  | .swap user tokenIn tokenOut amountIn amountOutMin deadline plan =>
      WowmaxStellar.swap env user tokenIn tokenOut amountIn amountOutMin deadline plan
  | .swapMerge user tokenIn tokenOut amountIn amountOutMin deadline stages =>
      WowmaxStellar.swapMerge env user tokenIn tokenOut amountIn amountOutMin deadline stages

end EntryCall

/-- The arguments of a call of `swap`. -/
structure SwapArgs where
  user : Address
  tokenIn : Address
  tokenOut : Address
  amountIn : I128
  amountOutMin : I128
  deadline : UInt64
  plan : Vec Strand

def SwapArgs.call (args : SwapArgs) : EntryCall :=
  .swap args.user args.tokenIn args.tokenOut args.amountIn args.amountOutMin args.deadline
    args.plan

/-- Everything a call can change: the ledger and the state outside the executor. The
executor itself has no storage. -/
@[ext] structure World (V : Type) where
  ledger : Ledger
  venues : V

/-- The state an invocation starts in. -/
def World.start {V : Type} (world : World V) : State V :=
  ⟨world.ledger, world.venues, [], []⟩

@[simp] theorem World.start_ledger {V : Type} (world : World V) :
    world.start.ledger = world.ledger := rfl

/-- The world a state leaves behind when the invocation ends there. -/
def State.world {V : Type} (s : State V) : World V := ⟨s.ledger, s.venues⟩

/-- The same balances and the same outside make the same world. -/
theorem State.world_eq {V : Type} {s t : State V}
    (hledger : ∀ token holder, s.ledger.balance token holder = t.ledger.balance token holder)
    (hvenues : s.venues = t.venues) : s.world = t.world := by
  have heq : s.ledger = t.ledger := by
    ext token holder
    exact hledger token holder
  unfold State.world
  rw [heq, hvenues]

/-- What an invocation did: its result, the world it left and its trace. -/
structure Invocation (V : Type) where
  result : Except Panic Int
  world : World V
  trace : List Event

/-- Invoke an entry point. A panic leaves the world as it was. -/
def EntryCall.invoke {V : Type} (env : Env V) (call : EntryCall) (world : World V) :
    Invocation V :=
  match call.run env world.start with
  | .ok out s => ⟨.ok out, s.world, s.trace⟩
  | .error panic s => ⟨.error panic, world, s.trace⟩

section Invoke

variable {V : Type} {env : Env V} {call : EntryCall} {world : World V} {s : State V}

theorem EntryCall.invoke_of_ok {out : Int} (h : call.run env world.start = .ok out s) :
    call.invoke env world = ⟨.ok out, s.world, s.trace⟩ := by
  unfold EntryCall.invoke
  rw [h]

theorem EntryCall.invoke_of_error {panic : Panic} (h : call.run env world.start = .error panic s) :
    call.invoke env world = ⟨.error panic, world, s.trace⟩ := by
  unfold EntryCall.invoke
  rw [h]

/-- Behind an invocation that returned there is a run that returned. -/
theorem EntryCall.invoke_ok {out : Int} (h : (call.invoke env world).result = .ok out) :
    ∃ s, call.run env world.start = .ok out s := by
  cases hrun : call.run env world.start with
  | ok returned s =>
      rw [EntryCall.invoke_of_ok hrun] at h
      cases h
      exact ⟨s, rfl⟩
  | error panic s =>
      rw [EntryCall.invoke_of_error hrun] at h
      cases h

theorem EntryCall.invoke_error {panic : Panic}
    (h : (call.invoke env world).result = .error panic) :
    ∃ s, call.run env world.start = .error panic s := by
  cases hrun : call.run env world.start with
  | ok returned s =>
      rw [EntryCall.invoke_of_ok hrun] at h
      cases h
  | error thrown s =>
      rw [EntryCall.invoke_of_error hrun] at h
      cases h
      exact ⟨s, rfl⟩

end Invoke

end WowmaxStellar
