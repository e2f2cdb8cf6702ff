import WowmaxStellar.Logic.Pricing
import WowmaxStellar.Theorems.StrandOrder

/-!
# A quote is what is paid

A planner prices a plan on the states of the pools it goes through. If the venues trade as
their pools offer and the tokens refuse no transfer, the executor pays that price, unless a
balance overflows. Apart from that neither what it holds itself nor anything else on the ledger
matters, but for the user's balance of the input.

* `quote_is_paid` — both plan executors refine the pricing of their plans.
-/

namespace WowmaxStellar

open Runs

/-- **A quote is what is paid.** With honest venues and standard tokens, a call of `swap` or
`swap_merge` returns exactly if the plan has a price on the pools that is positive and reaches
the minimum, unless a balance overflows, and then it returns this price. It leaves the pools as
the pricing does, and every balance changed by the trades, the pull and the payout; without a
quote it leaves the world as it was. -/
theorem quote_is_paid {ι P : Type} [DecidableEq ι] (pools : Pools ι P)
    (ready : (ι → P) → Ledger → Prop) (env : Env (ι → P)) (call : EntryCall)
    (world : World (ι → P)) (hplan : call.IsPlan) (hstandard : env.Standard)
    (hhonest : ∀ hop ∈ call.edges, pools.Honest env call.deadline ready hop)
    (hready : ∀ ledger,
      world.ledger.transfer call.tokenIn call.user env.contract call.amountIn = .ok ledger →
        ready world.venues ledger)
    (hfits : (call.invoke env world).result ≠ .error (.host .balanceOverflow)) :
    (∀ out, (call.invoke env world).result = .ok out ↔
      ∃ outcome, pools.quoted env call world = some outcome ∧
        out = outcome.gain env.contract call.tokenOut) ∧
    (∀ outcome, pools.quoted env call world = some outcome →
      (call.invoke env world).world.venues = outcome.venues ∧
      ∀ t h, (call.invoke env world).world.ledger.balance t h =
        world.ledger.balance t h + outcome.moves t h + call.pull env.contract t h +
          call.payout env.contract (outcome.gain env.contract call.tokenOut) t h) ∧
    (pools.quoted env call world = none → (call.invoke env world).world = world) := by
  rcases EntryCall.invoke_cases hplan hstandard hhonest hready hfits with
    ⟨outcome, out, hquoted, hresult, hsettles⟩ | ⟨hquoted, ⟨panic, hresult⟩, hworld⟩
  · rw [hquoted, hresult]
    have hout := hsettles.out_eq
    refine ⟨fun out' => ?_, ?_, nofun⟩
    · constructor
      · intro h
        exact ⟨outcome, rfl, (Except.ok.inj h).symm.trans hout⟩
      · rintro ⟨_, ⟨⟩, rfl⟩
        exact congrArg Except.ok hout
    · rintro _ ⟨⟩
      refine ⟨hsettles.venues, fun t h => ?_⟩
      rw [hsettles.ledger, hout]
  · rw [hquoted, hresult]
    refine ⟨fun out => ?_, nofun, fun _ => hworld⟩
    constructor
    · exact nofun
    · rintro ⟨_, ⟨⟩, _⟩

theorem deskTrio_atDesk : ∀ hop ∈ swapEdges deskTrio.plan.val, hop.AtDesk := by
  have hedges : swapEdges deskTrio.plan.val = [deskHop 20 10 11, deskHop 22 11 13,
    deskHop 21 10 11, deskHop 23 11 13, deskHop 24 10 13] := rfl
  intro hop hmem
  rw [hedges] at hmem
  simp only [List.mem_cons, List.not_mem_nil, or_false] at hmem
  rcases hmem with rfl | rfl | rfl | rfl | rfl <;> exact deskHop_atDesk (by decide) (by decide)

/-- The three strands are quoted what they pay. -/
theorem quote_is_paid_desk :
    ∃ outcome, deskPools.quoted deskEnv deskTrio.call (deskWorld 5) = some outcome ∧
      100 = outcome.gain deskEnv.contract ⟨13⟩ := by
  have hout : (deskTrio.call.invoke deskEnv (deskWorld 5)).result = .ok 100 := by decide +kernel
  refine ((quote_is_paid deskPools (fun _ _ => True) deskEnv deskTrio.call (deskWorld 5) trivial
    (fun _ _ _ _ _ _ => rfl) (fun hop hmem => desk_honest (deskTrio_atDesk hop hmem))
    (fun _ _ => trivial) ?_).1 100).mp hout
  rw [hout]
  exact nofun

end WowmaxStellar
