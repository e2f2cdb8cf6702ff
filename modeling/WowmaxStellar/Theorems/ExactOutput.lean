import WowmaxStellar.Adapters.Runs

/-!
# What an exact-output swap reports

A swap for an exact output reports three times: it returns what it took and what it bought, it
respects the maximum it was given, and it publishes an event with the amount that went in. The
exact-input twins measure the balance of the recipient; these do not. Phoenix returns the quote
of a simulation, Aquarius the answer of the router, and both publish the maximum as the amount in.

* `exact_reports_iff` — when the reports agree with what happened;
* `phoenix_publishes_maximum` — a swap that took less than it published.
-/

namespace WowmaxStellar.Adapters

open Runs

variable {V : Type}

/-- The arguments of `swap_tokens_for_exact_tokens`. -/
structure ExactOutput where
  amountOut : I128
  amountInMax : I128
  path : Vec Address
  recipient : Address
  deadline : UInt64
  bytes : Option (Vec BytesN32)

namespace ExactOutput

def call (args : ExactOutput) : SwapCall :=
  .swapTokensForExactTokens args.amountOut args.amountInMax args.path args.recipient args.deadline
    args.bytes

/-- What the recipient has less of `token` afterwards. -/
def spent (args : ExactOutput) (token : Address) (before after : Ledger) : Int :=
  before.balance token args.recipient - after.balance token args.recipient

/-- What the recipient has more of `token` afterwards. -/
def received (args : ExactOutput) (token : Address) (before after : Ledger) : Int :=
  after.balance token args.recipient - before.balance token args.recipient

/-- `[a, b]` and the event agree with what happened between `s` and `s'`. -/
structure Exact (args : ExactOutput) (protocol : Adapter) (first last : Address) (s s' : State V)
    (a b : Int) : Prop where
  bought : b = args.amountOut
  received : (args.amountOut : Int) ≤ args.received last s.ledger s'.ledger
  taken : a = args.spent first s.ledger s'.ledger
  within : a ≤ args.amountInMax
  published : s'.events = s.events ++ [.swap protocol.topic a args.path args.recipient]

/-- What a run returned and published is exact. -/
def ExactReports (args : ExactOutput) (protocol : Adapter) (first last : Address) (s s' : State V)
    (out : List Int) : Prop :=
  ∃ a b, out = [a, b] ∧ args.Exact protocol first last s s' a b

/-- What Phoenix quotes for the swap, and the ledger it leaves after selling that much. -/
def phoenixAnswer (args : ExactOutput) (env : Env V) (s : State V) : Option (Int × Ledger) := do
  let multihop ← s.storage.protocolAddress
  let operations ← (convertToSwaps args.path).toOption
  let quote ← (env.venue s.venues s.ledger multihop
    (.simulateReverseSwap operations.reverse args.amountOut .xyk)).toOption
  let offerAmount ← quote.reply.offer?
  let answer ← (env.venue quote.venues quote.ledger multihop
    (.swap args.recipient operations none offerAmount .xyk none none)).toOption
  pure (offerAmount, answer.ledger)

/-- What Aquarius' router says the swap took, and the ledger it leaves. -/
def aquaAnswer (args : ExactOutput) (env : Env V) (s : State V) : Option (Int × Ledger) := do
  let router ← s.storage.protocolAddress
  let swapsChain ← (convertToSwapsChain args.path args.bytes).toOption
  let tokenIn ← args.path.val[0]?
  let answer ← (env.venue s.venues s.ledger router (.swapChainedStrictReceive args.recipient
    swapsChain tokenIn (asU128 args.amountOut) (asU128 args.amountInMax))).toOption
  let finalAmountIn ← answer.reply.u128?
  pure (asI128 finalAmountIn, answer.ledger)

/-- The amount in that the venues of an adapter state, and the ledger they leave. -/
def venueAnswer (args : ExactOutput) (protocol : Adapter) (env : Env V) (s : State V) :
    Option (Int × Ledger) :=
  match protocol with
  | .phoenix => args.phoenixAnswer env s
  | .aqua => args.aquaAnswer env s
  | _ => none

/-- The venues state the maximum, take just as much of `first`, and deliver enough of `last`. -/
def SpendsMaximum (args : ExactOutput) (protocol : Adapter) (env : Env V) (first last : Address)
    (s : State V) : Prop :=
  ∃ after, args.venueAnswer protocol env s = some ((args.amountInMax : Int), after) ∧
    args.spent first s.ledger after = args.amountInMax ∧
    (args.amountOut : Int) ≤ args.received last s.ledger after

/-- What both adapters make of the venues' answer: they pass the stated amount on, next to the
amount asked for, and publish the maximum. -/
structure Returned (args : ExactOutput) (protocol : Adapter) (env : Env V) (s s' : State V)
    (out : List Int) : Prop where
  answered : ∃ stated, args.venueAnswer protocol env s = some (stated, s'.ledger) ∧
    out = [stated, (args.amountOut : Int)]
  published : s'.events =
    s.events ++ [.swap protocol.topic args.amountInMax args.path args.recipient]

section Runs

variable {args : ExactOutput} {env : Env V} {s : State V}

theorem phoenix_returned : Returns (Adapter.phoenix.run env args.call) s
    fun out s' => args.Returned .phoenix env s s' out := by
  show Returns (Phoenix.swapTokensForExactTokens env args.amountOut args.amountInMax args.path
    args.recipient args.deadline) s _
  unfold Phoenix.swapTokensForExactTokens Phoenix.protocolSwapTokensForExactTokens
  simp only [bind_assoc]
  refine returns_checkInitialized_bind fun _ => returns_requireAuth_bind fun _ => ?_
  refine returns_checkNonnegativeAmount_bind fun _ =>
    returns_checkNonnegativeAmount_bind fun _ => returns_checkDeadline_bind fun _ => ?_
  refine returns_getProtocolAddress_bind fun multihop haddress => ?_
  refine returns_liftResult_bind fun operations hoperations => ?_
  refine returns_callVenue_bind fun quote offerAmount hquote hoffer => ?_
  refine returns_panicIf_bind fun _ => ?_
  refine returns_callVenue_bind fun answer _ hanswer _ => ?_
  rw [pure_bind]
  refine returns_publish ⟨⟨offerAmount, ?_, rfl⟩, rfl⟩
  have hswap : env.venue quote.venues quote.ledger multihop
      (.swap args.recipient operations none offerAmount .xyk none none) = .ok answer := hanswer
  show args.phoenixAnswer env s = some (offerAmount, answer.ledger)
  simp [phoenixAnswer, haddress, hoperations, hquote, hoffer, hswap, Except.toOption]

theorem aqua_returned : Returns (Adapter.aqua.run env args.call) s
    fun out s' => args.Returned .aqua env s s' out := by
  show Returns (Aqua.swapTokensForExactTokens env args.amountOut args.amountInMax args.path
    args.recipient args.bytes) s _
  unfold Aqua.swapTokensForExactTokens Aqua.protocolSwapTokensForExactTokens
  simp only [bind_assoc]
  refine returns_checkInitialized_bind fun _ => returns_requireAuth_bind fun _ => ?_
  refine returns_checkNonnegativeAmount_bind fun _ =>
    returns_checkNonnegativeAmount_bind fun _ => ?_
  refine returns_getProtocolAddress_bind fun router haddress => ?_
  refine returns_liftResult_bind fun swapsChain hchain => ?_
  refine returns_liftResult_bind fun tokenIn htokenIn => ?_
  refine returns_callVenue_bind fun answer finalAmountIn hanswer hreply => ?_
  rw [pure_bind]
  refine returns_publish ⟨⟨asI128 finalAmountIn, ?_, rfl⟩, rfl⟩
  show args.aquaAnswer env s = some (asI128 finalAmountIn, answer.ledger)
  simp [aquaAnswer, haddress, hchain, expect_ok htokenIn, hanswer, hreply, Except.toOption]

/-- The reports of such a run are exact when the maximum is what went in. -/
theorem Returned.exact_iff {protocol : Adapter} {first last : Address} {s' : State V}
    {out : List Int} (h : args.Returned protocol env s s' out) :
    args.ExactReports protocol first last s s' out ↔
      args.SpendsMaximum protocol env first last s := by
  obtain ⟨stated, hanswer, rfl⟩ := h.answered
  constructor
  · rintro ⟨a, b, hout, hexact⟩
    have hpublished := h.published.symm.trans hexact.published
    obtain rfl : (args.amountInMax : Int) = a := by simpa using hpublished
    obtain rfl : stated = args.amountInMax := by simp at hout; exact hout.1
    exact ⟨s'.ledger, hanswer, hexact.taken.symm, hexact.received⟩
  · rintro ⟨after, hsame, htaken, hreceived⟩
    rw [hanswer, Option.some.injEq, Prod.mk.injEq] at hsame
    obtain ⟨rfl, rfl⟩ := hsame
    exact ⟨_, _, rfl, rfl, hreceived, htaken.symm, le_rfl, h.published⟩

end Runs

/-- **Exact outputs.** A swap for an exact output that returned was exact in all its reports
exactly when its venue stated the maximum, took just that, and delivered what was asked for. -/
theorem exact_reports_iff {protocol : Adapter} (hprotocol : protocol = .phoenix ∨ protocol = .aqua)
    {args : ExactOutput} {first last : Address} {env : Env V} {s s' : State V} {out : List Int}
    (hrun : protocol.run env args.call s = .ok out s') :
    args.ExactReports protocol first last s s' out ↔
      args.SpendsMaximum protocol env first last s := by
  rcases hprotocol with rfl | rfl
  · exact (phoenix_returned.ok hrun).exact_iff
  · exact (aqua_returned.ok hrun).exact_iff

end ExactOutput

/-! ## A Phoenix pool -/

/-- A multihop that trades one for one, from and to the recipient, and quotes accordingly. -/
def phoenixMultihop (ledger : Ledger) (multihop : Address) :
    Request → Except HostError (Answer Unit)
  | .simulateReverseSwap _ amount _ =>
      if hfits : InI128 amount then .ok ⟨ledger, (), .offer ⟨amount, hfits⟩⟩ else .error .refused
  | .swap recipient operations _ amount _ _ _ =>
      match operations.head?, operations.getLast? with
      | some sold, some bought => do
          let paid ← ledger.transfer sold.offerAsset recipient multihop amount
          let after ← paid.transfer bought.askAsset multihop recipient amount
          .ok ⟨after, (), .unit⟩
      | _, _ => .error .refused
  | _ => .error .refused

def phoenixEnv : Env Unit where
  timestamp := 0
  signers := [⟨1⟩]
  venue _ := phoenixMultihop

/-- The user at address 1 holds token 10 and the multihop token 11. -/
def phoenixState : State Unit where
  storage := ⟨true, some "phoenix", some ⟨20⟩⟩
  ledger := (Ledger.empty.set ⟨10⟩ ⟨1⟩ 700 (by decide)).set ⟨11⟩ ⟨20⟩ 700 (by decide)
  venues := ()
  exchanges := []
  events := []

/-- 50 units of token 11, for at most `amountInMax` of token 10. -/
def phoenixOrder (amountInMax : UInt32) : ExactOutput :=
  ⟨.ofUInt32 50, .ofUInt32 amountInMax, .pair ⟨10⟩ ⟨11⟩, ⟨1⟩, 1, none⟩

/-- With a maximum that is just enough. -/
theorem exact_reports_iff_phoenix :
    ∃ s', Adapter.phoenix.run phoenixEnv (phoenixOrder 50).call phoenixState = .ok [50, 50] s' ∧
      ((phoenixOrder 50).ExactReports .phoenix ⟨10⟩ ⟨11⟩ phoenixState s' [50, 50] ↔
        (phoenixOrder 50).SpendsMaximum .phoenix phoenixEnv ⟨10⟩ ⟨11⟩ phoenixState) :=
  ⟨_, rfl, ExactOutput.exact_reports_iff (.inl rfl) rfl⟩

/-- With a higher one the swap still takes 50 and delivers 50, and publishes the maximum. -/
theorem phoenix_publishes_maximum :
    ∃ s', Adapter.phoenix.run phoenixEnv (phoenixOrder 80).call phoenixState = .ok [50, 50] s' ∧
      (phoenixOrder 80).spent ⟨10⟩ phoenixState.ledger s'.ledger = 50 ∧
      (phoenixOrder 80).received ⟨11⟩ phoenixState.ledger s'.ledger = 50 ∧
      s'.events = [.swap Phoenix.topic 80 (.pair ⟨10⟩ ⟨11⟩) ⟨1⟩] ∧
      ¬ (phoenixOrder 80).ExactReports .phoenix ⟨10⟩ ⟨11⟩ phoenixState s' [50, 50] := by
  refine ⟨_, rfl, rfl, rfl, rfl, ?_⟩
  rintro ⟨a, b, hout, hexact⟩
  obtain rfl : a = 50 := (List.cons.inj hout).1.symm
  have hpublished := hexact.published
  cases hpublished

end WowmaxStellar.Adapters
