import WowmaxStellar.Logic.Calls
import WowmaxStellar.Theorems.RouteContract

/-!
# Deadlines

Every swap takes a deadline, and none should succeed after it. The executor checks it in front
of each entry point, Phoenix and Comet check it themselves, and Soroswap hands it to its router.
Aquarius does none of this: its adapter drops the argument.

* `outlives_iff` — what a swap can outlive;
* `aqua_outlives` — a swap that did.
-/

namespace WowmaxStellar

open Runs

/-- The swaps: the six entry points of the executor and the two swaps of each adapter. -/
inductive Operation
  | executor (call : EntryCall)
  | adapter (protocol : Adapters.Adapter) (call : Adapters.SwapCall)

def Operation.deadline : Operation → UInt64
  | .executor call => call.deadline
  | .adapter _ call => call.deadline

/-- The deadline is set, and it is over. -/
def Operation.Expired (op : Operation) (timestamp : UInt64) : Prop :=
  op.deadline ≠ 0 ∧ op.deadline < timestamp

namespace Adapters

/-- The deadline a Soroswap request hands to the router. -/
def Request.routerDeadline : Request → Option UInt64
  | .swapExactTokensForTokens _ _ _ _ deadline => some deadline
  | .swapTokensForExactTokens _ _ _ _ deadline => some deadline
  | _ => none

/-- A router that turns expired requests down. -/
def Env.RejectsExpired {V : Type} (env : Env V) (router : Address) : Prop :=
  ∀ venues ledger request deadline, request.routerDeadline = some deadline →
    deadline < env.timestamp → ∃ error, env.venue venues ledger router request = .error error

/-- A swap Aquarius has a request for: no negative amount, and a path with a pool hash for each
of its legs. -/
def SwapCall.Encodable (call : SwapCall) : Prop :=
  0 ≤ (call.amounts.1 : Int) ∧ 0 ≤ (call.amounts.2 : Int) ∧ 2 ≤ call.path.len ∧
    ∃ poolHashesVec, call.bytes = some poolHashesVec ∧ poolHashesVec.len = call.path.len - 1

end Adapters

/-- At this time the swap succeeds for no caller, from no state and with no venues, granted
that Soroswap's router does its part. -/
def Operation.NeverSucceeds (op : Operation) (timestamp : UInt64) : Prop :=
  match op with
  | .executor call => ∀ (V : Type) (env : Env V) (world : World V) out,
      env.timestamp = timestamp → (call.invoke env world).result ≠ .ok out
  | .adapter protocol call => ∀ (V : Type) (env : Adapters.Env V) (s s' : Adapters.State V) out,
      env.timestamp = timestamp →
      (protocol = .soroswap → ∀ router, s.storage.protocolAddress = some router →
        env.RejectsExpired router) →
      protocol.run env call s ≠ .ok out s'

/-- The executor checks its deadline before anything else. -/
theorem EntryCall.invoke_in_time {V : Type} {env : Env V} {call : EntryCall} {world : World V}
    {out : Int} (h : (call.invoke env world).result = .ok out) :
    ¬ (call.deadline ≠ 0 ∧ env.timestamp > call.deadline) := by
  obtain ⟨s', hrun⟩ := EntryCall.invoke_ok h
  obtain ⟨s0, legs, s, hcompleted⟩ := (EntryCall.run_post env call world).ok hrun
  exact hcompleted.pulled.in_time

namespace Adapters

section Checks

variable {V : Type} {env : Env V} {s : State V} {call : SwapCall}

theorem phoenix_in_time : Returns (Adapter.phoenix.run env call) s
    fun _ _ => env.timestamp < call.deadline := by
  cases call with
  | swapExactTokensForTokens amountIn amountOutMin path recipient deadline bytes =>
      show Returns (Phoenix.swapExactTokensForTokens env _ _ _ _ _) _ _
      unfold Phoenix.swapExactTokensForTokens
      refine returns_checkInitialized_bind fun _ => returns_requireAuth_bind fun _ => ?_
      refine returns_checkNonnegativeAmount_bind fun _ =>
        returns_checkNonnegativeAmount_bind fun _ => ?_
      refine returns_checkDeadline_bind fun htime => ?_
      exact .intro (fun _ _ _ => htime) fun _ _ _ => trivial
  | swapTokensForExactTokens amountOut amountInMax path recipient deadline bytes =>
      show Returns (Phoenix.swapTokensForExactTokens env _ _ _ _ _) _ _
      unfold Phoenix.swapTokensForExactTokens
      refine returns_checkInitialized_bind fun _ => returns_requireAuth_bind fun _ => ?_
      refine returns_checkNonnegativeAmount_bind fun _ =>
        returns_checkNonnegativeAmount_bind fun _ => ?_
      refine returns_checkDeadline_bind fun htime => ?_
      exact .intro (fun _ _ _ => htime) fun _ _ _ => trivial

theorem comet_in_time : Returns (Adapter.comet.run env call) s
    fun _ _ => env.timestamp < call.deadline := by
  cases call with
  | swapExactTokensForTokens amountIn amountOutMin path recipient deadline bytes =>
      show Returns (Comet.swapExactTokensForTokens env _ _ _ _ _) _ _
      unfold Comet.swapExactTokensForTokens
      refine returns_checkInitialized_bind fun _ => returns_checkDeadline_bind fun htime => ?_
      exact .intro (fun _ _ _ => htime) fun _ _ _ => trivial
  | swapTokensForExactTokens amountOut amountInMax path recipient deadline bytes =>
      show Returns (Comet.swapTokensForExactTokens env _ _ _ _ _) _ _
      unfold Comet.swapTokensForExactTokens
      refine returns_checkInitialized_bind fun _ => returns_checkDeadline_bind fun htime => ?_
      exact .intro (fun _ _ _ => htime) fun _ _ _ => trivial

/-- A router that answered was in time. -/
theorem Env.RejectsExpired.answered {router : Address} (h : env.RejectsExpired router)
    {venues : V} {ledger : Ledger} {request : Request} {deadline : UInt64}
    (hdeadline : request.routerDeadline = some deadline) {answer : Answer V}
    (hanswer : env.venue venues ledger router request = .ok answer) :
    env.timestamp ≤ deadline := by
  by_contra hlate
  obtain ⟨error, herror⟩ := h venues ledger request deadline hdeadline (UInt64.not_le.mp hlate)
  rw [hanswer] at herror
  cases herror

theorem soroswap_in_time (hrouter : ∀ router, s.storage.protocolAddress = some router →
    env.RejectsExpired router) : Returns (Adapter.soroswap.run env call) s
      fun _ _ => env.timestamp ≤ call.deadline := by
  cases call with
  | swapExactTokensForTokens amountIn amountOutMin path recipient deadline bytes =>
      show Returns (Soroswap.swapExactTokensForTokens env _ _ _ _ _) _ _
      unfold Soroswap.swapExactTokensForTokens Soroswap.protocolSwapExactTokensForTokens
      simp only [bind_assoc]
      refine returns_checkInitialized_bind fun _ => returns_requireAuth_bind fun _ => ?_
      refine returns_getProtocolAddress_bind fun router haddress => ?_
      refine returns_callVenue_bind fun answer amounts hanswer _ => returns_publish ?_
      exact (hrouter router haddress).answered rfl hanswer
  | swapTokensForExactTokens amountOut amountInMax path recipient deadline bytes =>
      show Returns (Soroswap.swapTokensForExactTokens env _ _ _ _ _) _ _
      unfold Soroswap.swapTokensForExactTokens Soroswap.protocolSwapTokensForExactTokens
      simp only [bind_assoc]
      refine returns_checkInitialized_bind fun _ => returns_requireAuth_bind fun _ => ?_
      refine returns_getProtocolAddress_bind fun router haddress => ?_
      refine returns_callVenue_bind fun answer amounts hanswer _ => returns_publish ?_
      exact (hrouter router haddress).answered rfl hanswer

end Checks

/-! ## Aquarius -/

section Aqua

variable {V : Type} {env : Env V} {s : State V} {call : SwapCall}

/-- Aquarius returns only what it has a request for. -/
theorem aqua_encodable : Returns (Adapter.aqua.run env call) s fun _ _ => call.Encodable := by
  cases call with
  | swapExactTokensForTokens amountIn amountOutMin path recipient deadline bytes =>
      show Returns (Aqua.swapExactTokensForTokens env _ _ _ _ _) _ _
      unfold Aqua.swapExactTokensForTokens Aqua.protocolSwapExactTokensForTokens
      simp only [bind_assoc]
      refine returns_checkInitialized_bind fun _ => returns_requireAuth_bind fun _ => ?_
      refine returns_checkNonnegativeAmount_bind fun hin =>
        returns_checkNonnegativeAmount_bind fun hmin => ?_
      refine returns_getProtocolAddress_bind fun venue _ => ?_
      refine returns_liftResult_bind fun swapsChain hchain => ?_
      obtain ⟨hashes, hbytes, hlen, hhashes, _⟩ := convertToSwapsChain_ok hchain
      exact .intro (fun _ _ _ => ⟨hin, hmin, hlen, hashes, hbytes, hhashes⟩) fun _ _ _ => trivial
  | swapTokensForExactTokens amountOut amountInMax path recipient deadline bytes =>
      show Returns (Aqua.swapTokensForExactTokens env _ _ _ _ _) _ _
      unfold Aqua.swapTokensForExactTokens Aqua.protocolSwapTokensForExactTokens
      simp only [bind_assoc]
      refine returns_checkInitialized_bind fun _ => returns_requireAuth_bind fun _ => ?_
      refine returns_checkNonnegativeAmount_bind fun hout =>
        returns_checkNonnegativeAmount_bind fun hmax => ?_
      refine returns_getProtocolAddress_bind fun venue _ => ?_
      refine returns_liftResult_bind fun swapsChain hchain => ?_
      obtain ⟨hashes, hbytes, hlen, hhashes, _⟩ := convertToSwapsChain_ok hchain
      exact .intro (fun _ _ _ => ⟨hout, hmax, hlen, hashes, hbytes, hhashes⟩) fun _ _ _ => trivial

end Aqua

/-- A venue that leaves everybody with `amount` of everything. -/
def lavishEnv (timestamp : UInt64) (signer : Address) (amount : Int)
    (hamount : 0 ≤ amount ∧ amount ≤ i128Max) : Env Unit where
  timestamp := timestamp
  signers := [signer]
  venue _ _ _ _ := .ok ⟨⟨fun _ _ => amount, fun _ _ => hamount.1, fun _ _ => hamount.2⟩, (),
    .u128 ⟨0, by decide⟩⟩

/-- An adapter that has been initialised, before anybody owns anything. -/
def freshState : State Unit where
  storage := ⟨true, some "aquarius", some ⟨20⟩⟩
  ledger := .empty
  venues := ()
  exchanges := []
  events := []

/-- The checks in front of an Aquarius swap. -/
theorem aqua_checks {V β : Type} {env : Env V} {s : State V} {recipient : Address} {a b : Int}
    (hinitialized : s.storage.initialized = true) (hsigned : recipient ∈ env.signers) (ha : 0 ≤ a)
    (hb : 0 ≤ b) (x : Exec V β) :
    (do checkInitialized
        requireAuth env recipient
        checkNonnegativeAmount a
        checkNonnegativeAmount b
        x) s = x s := by
  have hinit : checkInitialized s = .ok () s := by
    unfold checkInitialized
    show (if s.storage.initialized = true then pure ()
      else fail .notInitialized : Exec V Unit) s = _
    rw [if_pos hinitialized]
    rfl
  unfold requireAuth checkNonnegativeAmount
  rw [bind_of_ok hinit, if_pos hsigned, if_neg (by omega), if_neg (by omega)]
  rfl

section May

variable {timestamp : UInt64} {exact bound : I128} {path : Vec Address} {recipient : Address}
  {poolHashesVec : Vec BytesN32}

theorem aqua_exact_in_may_return (hexact : 0 ≤ (exact : Int)) (hbound : 0 ≤ (bound : Int))
    (hlen : 2 ≤ path.len) (hhashes : poolHashesVec.len = path.len - 1) :
    ∃ s', Aqua.swapExactTokensForTokens
      (lavishEnv timestamp recipient bound ⟨hbound, bound.property.2⟩) exact bound path recipient
      (some poolHashesVec) freshState = .ok [(exact : Int), (bound : Int)] s' := by
  obtain ⟨first, last, _, _, hfirst, hlast⟩ := path_ends path hlen
  have hlength : lenMinusOne .unwrapNone path = .ok (path.len - 1) := if_neg (by omega)
  -- nobody has anything before, so what the recipient has in the end is what came in
  have hgain : ∀ s : State Unit, checkedSub bound 0 s = .ok (bound : Int) s := by
    intro s
    unfold checkedSub
    rw [Int.sub_zero, if_pos bound.property]
    rfl
  have hreached : (panicIf ((bound : Int) < bound) .amountOutBelowMin : Exec Unit Unit) = pure () :=
    if_neg (lt_irrefl _)
  unfold Aqua.swapExactTokensForTokens Aqua.protocolSwapExactTokensForTokens
  rw [aqua_checks rfl (List.mem_singleton_self _) hexact hbound]
  simp only [convertToSwapsChain_eq hlen hhashes, hfirst, hlength, hlast, liftResult, expect,
    pure_bind, bind_assoc]
  apply Exists.intro
  -- the address, the balance, the venue, the balance again
  refine Eq.trans (bind_of_ok rfl) ?_
  refine Eq.trans (bind_of_ok rfl) ?_
  refine Eq.trans (bind_of_ok rfl) ?_
  refine Eq.trans (bind_of_ok rfl) ?_
  refine Eq.trans (bind_of_ok (hgain _)) ?_
  rw [hreached]
  rfl

theorem aqua_exact_out_may_return (hexact : 0 ≤ (exact : Int)) (hbound : 0 ≤ (bound : Int))
    (hlen : 2 ≤ path.len) (hhashes : poolHashesVec.len = path.len - 1) :
    ∃ s', Aqua.swapTokensForExactTokens
      (lavishEnv timestamp recipient bound ⟨hbound, bound.property.2⟩) exact bound path recipient
      (some poolHashesVec) freshState = .ok [0, (exact : Int)] s' := by
  obtain ⟨first, last, _, _, hfirst, _⟩ := path_ends path hlen
  unfold Aqua.swapTokensForExactTokens Aqua.protocolSwapTokensForExactTokens
  rw [aqua_checks rfl (List.mem_singleton_self _) hexact hbound,
    convertToSwapsChain_eq hlen hhashes, hfirst]
  exact ⟨_, rfl⟩

end May

/-- Whatever Aquarius has a request for can return, at any time. -/
theorem aqua_may_return (timestamp : UInt64) {call : SwapCall} (h : call.Encodable) :
    ∃ env : Env Unit, env.timestamp = timestamp ∧
      ∃ out s', Adapter.aqua.run env call freshState = .ok out s' := by
  obtain ⟨hexact, hbound, hlen, poolHashesVec, hbytes, hhashes⟩ := h
  refine ⟨lavishEnv timestamp call.recipient call.amounts.2 ⟨hbound, call.amounts.2.property.2⟩,
    rfl, ?_⟩
  cases call with
  | swapExactTokensForTokens amountIn amountOutMin path recipient deadline bytes =>
      obtain rfl : bytes = some poolHashesVec := hbytes
      exact ⟨_, aqua_exact_in_may_return hexact hbound hlen hhashes⟩
  | swapTokensForExactTokens amountOut amountInMax path recipient deadline bytes =>
      obtain rfl : bytes = some poolHashesVec := hbytes
      exact ⟨_, aqua_exact_out_may_return hexact hbound hlen hhashes⟩

end Adapters

/-- **Deadlines.** Once its deadline is over no swap succeeds, unless it is Aquarius' and has
arguments Aquarius can make a request of. -/
theorem outlives_iff {op : Operation} {timestamp : UInt64} (hexpired : op.Expired timestamp) :
    op.NeverSucceeds timestamp ↔
      ¬ ∃ call : Adapters.SwapCall, op = .adapter .aqua call ∧ call.Encodable := by
  obtain ⟨hset, hlate⟩ := hexpired
  constructor
  · rintro hnever ⟨call, rfl, hencodable⟩
    obtain ⟨env, htime, out, s', hrun⟩ := Adapters.aqua_may_return timestamp hencodable
    exact hnever Unit env _ s' out htime nofun hrun
  · intro hguarded
    cases op with
    | executor call =>
        rintro V env world out rfl hresult
        exact EntryCall.invoke_in_time hresult ⟨hset, hlate⟩
    | adapter protocol call =>
        rintro V env s s' out rfl hrouter hrun
        cases protocol with
        | soroswap =>
            exact UInt64.not_le.mpr hlate
              ((Adapters.soroswap_in_time (hrouter rfl)).ok hrun)
        | aqua => exact hguarded ⟨call, rfl, Adapters.aqua_encodable.ok hrun⟩
        | phoenix => exact UInt64.lt_asymm hlate (Adapters.phoenix_in_time.ok hrun)
        | comet => exact UInt64.lt_asymm hlate (Adapters.comet_in_time.ok hrun)

namespace Adapters

/-- 100 units of token 10 for token 11, until time 1. -/
def lateCall : SwapCall :=
  .swapExactTokensForTokens (.ofUInt32 100) (.ofUInt32 90) (.pair ⟨10⟩ ⟨11⟩) ⟨1⟩ 1
    (some (.single (Vector.replicate 32 0)))

end Adapters

theorem outlives_iff_phoenix :
    (Operation.adapter .phoenix Adapters.lateCall).NeverSucceeds 100 ↔
      ¬ ∃ call : Adapters.SwapCall, Operation.adapter .phoenix Adapters.lateCall =
        .adapter .aqua call ∧ call.Encodable :=
  outlives_iff ⟨by decide, by decide⟩

/-- The swap was good until time 1, and Aquarius carries it out at time 100. -/
theorem aqua_outlives :
    (Operation.adapter .aqua Adapters.lateCall).Expired 100 ∧
      (∃ s', Adapters.Adapter.aqua.run Adapters.aquaEnv Adapters.lateCall Adapters.aquaState =
        .ok [100, 100] s') ∧
      ¬ (Operation.adapter .aqua Adapters.lateCall).NeverSucceeds 100 := by
  obtain ⟨s', hrun⟩ : ∃ s', Adapters.Adapter.aqua.run Adapters.aquaEnv Adapters.lateCall
      Adapters.aquaState = .ok [100, 100] s' := ⟨_, rfl⟩
  refine ⟨⟨by decide, by decide⟩, ⟨s', hrun⟩, ?_⟩
  intro hnever
  exact hnever Unit Adapters.aquaEnv _ s' _ rfl nofun hrun

end WowmaxStellar
