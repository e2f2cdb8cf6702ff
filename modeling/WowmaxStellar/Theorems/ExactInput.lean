import WowmaxStellar.Adapters.Contract
import WowmaxStellar.Theorems.ExactOutput

/-!
# What an exact-input swap reports

For an exact input, Phoenix' and Aquarius' adapters do not take the venue's word: they measure
the recipient's balance of the last token around the venue call.

* `exact_input_reports` — what such a swap returns and publishes is what happened.
-/

namespace WowmaxStellar.Adapters

open Runs

variable {V : Type}

/-- The arguments of `swap_exact_tokens_for_tokens`. -/
structure ExactInput where
  amountIn : I128
  amountOutMin : I128
  path : Vec Address
  recipient : Address
  deadline : UInt64
  bytes : Option (Vec BytesN32)

namespace ExactInput

def call (args : ExactInput) : SwapCall :=
  .swapExactTokensForTokens args.amountIn args.amountOutMin args.path args.recipient args.deadline
    args.bytes

/-- What the recipient has more of `token` afterwards. -/
def received (args : ExactInput) (token : Address) (before after : Ledger) : Int :=
  after.balance token args.recipient - before.balance token args.recipient

/-- What a run returned and published, between `s` and `s'`, is what happened. -/
structure Reported (args : ExactInput) (protocol : Adapter) (s s' : State V) (out : List Int) :
    Prop where
  measured : ∃ last, args.path.val.getLast? = some last ∧
    out = [(args.amountIn : Int), args.received last s.ledger s'.ledger] ∧
    (args.amountOutMin : Int) ≤ args.received last s.ledger s'.ledger
  published : s'.events = s.events ++ [.swap protocol.topic args.amountIn args.path args.recipient]

section Runs

variable {args : ExactInput} {env : Env V} {s : State V}

/-- The last token, as the adapters look it up. -/
theorem getLast?_of_expect {site site' : PanicSite} {path : Vec Address} {last : Nat}
    {tokenOut : Address} (hlast : lenMinusOne site path = .ok last)
    (htoken : expect site' path.val[last]? = .ok tokenOut) :
    path.val.getLast? = some tokenOut := by
  rw [List.getLast?_eq_getElem?, ← expect_ok htoken, lenMinusOne_ok hlast]
  rfl

theorem phoenix_reported : Returns (Adapter.phoenix.run env args.call) s
    fun out s' => args.Reported .phoenix s s' out := by
  show Returns (Phoenix.swapExactTokensForTokens env args.amountIn args.amountOutMin args.path
    args.recipient args.deadline) s _
  unfold Phoenix.swapExactTokensForTokens Phoenix.protocolSwapExactTokensForTokens
  simp only [bind_assoc]
  refine returns_checkInitialized_bind fun _ => returns_requireAuth_bind fun _ => ?_
  refine returns_checkNonnegativeAmount_bind fun _ =>
    returns_checkNonnegativeAmount_bind fun _ => returns_checkDeadline_bind fun _ => ?_
  refine returns_getProtocolAddress_bind fun multihop _ => ?_
  refine returns_liftResult_bind fun operations _ => returns_liftResult_bind fun last hlast => ?_
  refine returns_liftResult_bind fun tokenOut htoken => returns_balance_bind ?_
  refine returns_callVenue_bind fun answer _ _ _ => returns_balance_bind ?_
  refine returns_checkedSub_bind fun _ => returns_panicIf_bind fun hmin => ?_
  rw [pure_bind]
  exact returns_publish
    ⟨⟨tokenOut, getLast?_of_expect hlast htoken, rfl, not_lt.mp hmin⟩, rfl⟩

theorem aqua_reported : Returns (Adapter.aqua.run env args.call) s
    fun out s' => args.Reported .aqua s s' out := by
  show Returns (Aqua.swapExactTokensForTokens env args.amountIn args.amountOutMin args.path
    args.recipient args.bytes) s _
  unfold Aqua.swapExactTokensForTokens Aqua.protocolSwapExactTokensForTokens
  simp only [bind_assoc]
  refine returns_checkInitialized_bind fun _ => returns_requireAuth_bind fun _ => ?_
  refine returns_checkNonnegativeAmount_bind fun _ =>
    returns_checkNonnegativeAmount_bind fun _ => ?_
  refine returns_getProtocolAddress_bind fun router _ => returns_liftResult_bind fun chain _ => ?_
  refine returns_liftResult_bind fun tokenIn _ => returns_liftResult_bind fun last hlast => ?_
  refine returns_liftResult_bind fun tokenOut htoken => returns_balance_bind ?_
  refine returns_callVenue_bind fun answer _ _ _ => returns_balance_bind ?_
  refine returns_checkedSub_bind fun _ => returns_panicIf_bind fun hmin => ?_
  rw [pure_bind]
  exact returns_publish
    ⟨⟨tokenOut, getLast?_of_expect hlast htoken, rfl, not_lt.mp hmin⟩, rfl⟩

end Runs

/-- **Exact inputs.** Whatever the venue does and answers, a swap for an exact input that
returned reports its input and what the recipient received of the last token of the path, which
is no less than the minimum. -/
theorem exact_input_reports {protocol : Adapter}
    (hprotocol : protocol = .phoenix ∨ protocol = .aqua) {args : ExactInput} {env : Env V}
    {s s' : State V} {out : List Int} (hrun : protocol.run env args.call s = .ok out s') :
    args.Reported protocol s s' out := by
  rcases hprotocol with rfl | rfl
  · exact phoenix_reported.ok hrun
  · exact aqua_reported.ok hrun

end ExactInput

/-- Fifty units for at least forty of token 11. -/
def phoenixSale : ExactInput := ⟨.ofUInt32 50, .ofUInt32 40, .pair ⟨10⟩ ⟨11⟩, ⟨1⟩, 1, none⟩

theorem exact_input_reports_phoenix :
    ∃ s', Adapter.phoenix.run phoenixEnv phoenixSale.call phoenixState = .ok [50, 50] s' ∧
      phoenixSale.Reported .phoenix phoenixState s' [50, 50] := by
  obtain ⟨s', hrun⟩ : ∃ s', Adapter.phoenix.run phoenixEnv phoenixSale.call phoenixState =
      .ok [50, 50] s' := ⟨_, rfl⟩
  exact ⟨s', hrun, ExactInput.exact_input_reports (.inl rfl) hrun⟩

end WowmaxStellar.Adapters
