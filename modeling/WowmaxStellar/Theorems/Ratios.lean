import WowmaxStellar.Lib.Unless
import WowmaxStellar.Logic.Calls
import WowmaxStellar.Theorems.StrandOrder

/-!
# Only the ratio of the parts matters

A planner may write a split in any unit: in basis points, in percent, or reduced to the
smallest parts. The executor divides by the total of the parts, so plans with the same ratios
are the same plan, except that larger parts reach the limits of `i128` earlier.

* `unless_branchAmount` — one share;
* `unless_fillStep`, `unless_stageStep`, `unless_strandStep` — one turn of each loop;
* `only_ratios_matter` — a call does what the same call in a finer unit does.
-/

namespace WowmaxStellar

open Runs Split

variable {V : Type} {env : Env V}

/-- The product of a split is out of range. -/
abbrev ProductOutOfRange (panic : Panic) : Prop := panic = .overflow .mul

/-! ## Plans in two units -/

/-- `a` times the part in the coarser unit is `b` times the part in the finer one. -/
def Rescaled (a b : Nat) (parts parts' : UInt32) : Prop := a * parts.toNat = b * parts'.toNat

structure Strand.Rescaled (a b : Nat) (strand strand' : Strand) : Prop where
  parts : WowmaxStellar.Rescaled a b strand.parts strand'.parts
  hops : strand.hops = strand'.hops

structure Fill.Rescaled (a b : Nat) (fill fill' : Fill) : Prop where
  parts : WowmaxStellar.Rescaled a b fill.parts fill'.parts
  edge : { fill with parts := fill'.parts } = fill'

/-- The same branches, their parts in a finer unit on the right. -/
def Coarser {α : Type} (rescaled : Nat → Nat → α → α → Prop) (branches branches' : List α) :
    Prop :=
  ∃ a b, 0 < b ∧ b ≤ a ∧ List.Forall₂ (rescaled a b) branches branches'

/-- Every stage has its own unit. -/
structure Stage.Coarser (stage stage' : Stage) : Prop where
  token : stage.token = stage'.token
  fills : WowmaxStellar.Coarser Fill.Rescaled stage.fills.val stage'.fills.val

/-- The same call in a finer unit. -/
inductive EntryCall.Coarser : EntryCall → EntryCall → Prop
  | swap {user tokenIn tokenOut : Address} {amountIn amountOutMin : I128} {deadline : UInt64}
      {plan plan' : Vec Strand} (h : WowmaxStellar.Coarser Strand.Rescaled plan.val plan'.val) :
      Coarser (.swap user tokenIn tokenOut amountIn amountOutMin deadline plan)
        (.swap user tokenIn tokenOut amountIn amountOutMin deadline plan')
  | swapMerge {user tokenIn tokenOut : Address} {amountIn amountOutMin : I128}
      {deadline : UInt64} {stages stages' : Vec Stage}
      (h : List.Forall₂ Stage.Coarser stages.val stages'.val) :
      Coarser (.swapMerge user tokenIn tokenOut amountIn amountOutMin deadline stages)
        (.swapMerge user tokenIn tokenOut amountIn amountOutMin deadline stages')

section Parts

variable {a b : Nat}

/-- The totals are in the ratio of the units. -/
theorem rescaled_total {α : Type} (parts : α → UInt32) {xs ys : List α}
    (h : List.Forall₂ (fun x y => Rescaled a b (parts x) (parts y)) xs ys) :
    (a : Int) * (weights (xs.map parts)).sum = b * (weights (ys.map parts)).sum := by
  induction h with
  | nil => simp [weights]
  | cons hxy _ ih =>
      have hhead := congrArg (Nat.cast (R := Int)) hxy
      push_cast at hhead
      simp only [List.map_cons, weights, List.sum_cons, Int.mul_add] at ih ⊢
      rw [hhead, ih]

theorem rescaled_nonpos {total total' : Int} (hb : 0 < b) (hba : b ≤ a)
    (h : (a : Int) * total = b * total') : total ≤ 0 ↔ total' ≤ 0 := by
  have ha : (0 : Int) < a := by omega
  have hb' : (0 : Int) < b := by omega
  constructor
  · intro hle
    have hprod := Int.mul_nonpos_of_nonneg_of_nonpos ha.le hle
    rw [h] at hprod
    exact Int.not_lt.mp fun hpos => (Int.mul_pos hb' hpos).not_ge hprod
  · intro hle
    have hprod := Int.mul_nonpos_of_nonneg_of_nonpos hb'.le hle
    rw [← h] at hprod
    exact Int.not_lt.mp fun hpos => (Int.mul_pos ha hpos).not_ge hprod

/-- The parts in the coarser unit are not larger. -/
theorem Rescaled.le {parts parts' : UInt32} (hb : 0 < b) (hba : b ≤ a)
    (h : Rescaled a b parts parts') : parts.toNat ≤ parts'.toNat := by
  refine Nat.le_of_mul_le_mul_left ?_ hb
  calc b * parts.toNat ≤ a * parts.toNat := Nat.mul_le_mul_right _ hba
    _ = b * parts'.toNat := h

/-- A share is the same in both units, unless its product is out of range in the finer one. -/
theorem unless_branchAmount {amount total total' allocated : Int} {parts parts' : UInt32}
    {count index : Nat} (hb : 0 < b) (hba : b ≤ a) (hamount : 0 ≤ amount)
    (htotal : (a : Int) * total = b * total') (hparts : Rescaled a b parts parts') :
    Unless ProductOutOfRange
      (branchAmount amount total count index parts allocated : Exec V Int)
      (branchAmount amount total' count index parts' allocated) := by
  unfold branchAmount
  by_cases hlast : index = count - 1
  · rw [if_pos hlast, if_pos hlast]
    exact .refl _
  rw [if_neg hlast, if_neg hlast]
  unfold checkedMul
  by_cases hfit : InI128 (amount * parts'.toNat)
  swap
  · rw [checked_of_not_inI128 hfit]
    exact fun s => .inr ⟨_, s, rfl, rfl⟩
  -- the smaller product is in range, too
  have hle : amount * parts.toNat ≤ amount * parts'.toNat :=
    Int.mul_le_mul_of_nonneg_left (Int.ofNat_le.mpr (hparts.le hb hba)) hamount
  have hnonneg : 0 ≤ amount * parts.toNat := Int.mul_nonneg hamount (Int.natCast_nonneg _)
  have hfit' : InI128 (amount * parts.toNat) :=
    ⟨(by decide : i128Min ≤ 0).trans hnonneg, hle.trans hfit.2⟩
  rw [checked_of_inI128 hfit, checked_of_inI128 hfit', pure_bind, pure_bind]
  have hweight : (a : Int) * parts.toNat = b * parts'.toNat := by exact_mod_cast hparts
  have hportion := portion_scaled amount (by omega) (by omega) htotal hweight
  unfold portion at hportion
  rw [hportion]
  exact .refl _

end Parts

/-! ## Steps -/

section Steps

variable {β : Type} {a b : Nat} {f g : Unit → Exec V β}

theorem unless_panicIf_bind {c c' : Prop} [Decidable c] [Decidable c'] {site : Guard}
    (hiff : c ↔ c') (hpass : ¬ c → Unless ProductOutOfRange (f ()) (g ())) :
    Unless ProductOutOfRange (panicIf c site >>= f) (panicIf c' site >>= g) := by
  by_cases hc : c
  · rw [panicIf_of hc, panicIf_of (hiff.mp hc)]
    exact .refl _
  · rw [panicIf_of_not hc, panicIf_of_not fun hc' => hc (hiff.mpr hc'), pure_bind, pure_bind]
    exact hpass hc

theorem unless_entryChecks_bind {user tokenIn tokenOut : Address} {amountIn amountOutMin : Int}
    {deadline : UInt64} (hpass : 0 < amountIn → Unless ProductOutOfRange (f ()) (g ())) :
    Unless ProductOutOfRange
      (entryChecks env user tokenIn tokenOut amountIn amountOutMin deadline >>= f)
      (entryChecks env user tokenIn tokenOut amountIn amountOutMin deadline >>= g) := by
  rcases entryChecks_cases env user tokenIn tokenOut amountIn amountOutMin deadline with
    ⟨panic, _, heq⟩ | ⟨_, hamount, _, _, _, heq⟩
  · rw [heq]
    exact .refl _
  · rw [heq, pure_bind, pure_bind]
    exact hpass hamount

/-- One fill in both units. -/
theorem unless_fillStep {deadline : UInt64} {token : Address} {bal total total' : Int}
    {count index : Nat} {fill fill' : Fill} {acc : Int × Avail} (hb : 0 < b) (hba : b ≤ a)
    (hbal : 0 ≤ bal) (htotal : (a : Int) * total = b * total') (hfill : fill.Rescaled a b fill') :
    Unless ProductOutOfRange (fillStep env deadline token bal total count index fill acc)
      (fillStep env deadline token bal total' count index fill' acc) := by
  unfold fillStep
  refine (unless_branchAmount hb hba hbal htotal hfill.parts).bind fun fillIn _ => ?_
  -- nothing else looks at the parts
  rw [← hfill.edge]
  exact .refl _

theorem unless_stageStep {deadline : UInt64} {stage stage' : Stage} {avail : Avail}
    (h : stage.Coarser stage') :
    Unless ProductOutOfRange (stageStep env deadline stage avail)
      (stageStep env deadline stage' avail) := by
  obtain ⟨token, fills⟩ := stage
  obtain ⟨token', fills'⟩ := stage'
  obtain ⟨rfl, a, b, hb, hba, hfills⟩ := h
  have hlen : fills.len = fills'.len := hfills.length_eq
  have htotal := rescaled_total Fill.parts (hfills.imp fun _ _ hfill => hfill.parts)
  have hlength : ∀ fills : Vec Fill, (fills.val.map Fill.parts).length < 2 ^ 32 := by
    intro fills
    rw [List.length_map]
    exact fills.property
  unfold stageStep stageHeader
  rw [sumParts_eq _ (hlength fills), sumParts_eq _ (hlength fills')]
  simp only [bind_assoc, pure_bind]
  refine unless_panicIf_bind Iff.rfl fun hbal => ?_
  refine unless_panicIf_bind (by rw [hlen]) fun _ => ?_
  refine unless_panicIf_bind (rescaled_nonpos hb hba htotal) fun _ => ?_
  rw [hlen]
  refine (Unless.loop hfills ?_ 0 _).bind fun acc _ => .refl _
  intro index fill fill' acc hfill
  exact unless_fillStep hb hba (by omega) htotal hfill

/-- One strand in both units. -/
theorem unless_strandStep {tokenIn tokenOut : Address} {amountIn total total' allocated : Int}
    {deadline : UInt64} {count index : Nat} {strand strand' : Strand} (hb : 0 < b) (hba : b ≤ a)
    (hamount : 0 ≤ amountIn) (htotal : (a : Int) * total = b * total')
    (hstrand : strand.Rescaled a b strand') :
    Unless ProductOutOfRange
      (strandStep env tokenIn tokenOut amountIn total deadline count index strand allocated)
      (strandStep env tokenIn tokenOut amountIn total' deadline count index strand' allocated) := by
  unfold strandStep
  refine (unless_branchAmount hb hba hamount htotal hstrand.parts).bind fun strandIn _ => ?_
  rw [hstrand.hops]
  exact .refl _

end Steps

/-! ## Calls -/

theorem unless_run {call call' : EntryCall} (h : call.Coarser call') :
    Unless ProductOutOfRange (call.run env) (call'.run env) := by
  cases h with
  | @swap user tokenIn tokenOut amountIn amountOutMin deadline plan plan' h =>
      obtain ⟨a, b, hb, hba, hplan⟩ := h
      have hlen : plan.len = plan'.len := hplan.length_eq
      have htotal :=
        rescaled_total Strand.parts (hplan.imp fun _ _ hstrand => hstrand.parts)
      have hlength : ∀ plan : Vec Strand, (plan.val.map Strand.parts).length < 2 ^ 32 := by
        intro plan
        rw [List.length_map]
        exact plan.property
      show Unless _ (swap env user tokenIn tokenOut amountIn amountOutMin deadline plan)
        (swap env user tokenIn tokenOut amountIn amountOutMin deadline plan')
      unfold swap
      rw [sumParts_eq _ (hlength plan), sumParts_eq _ (hlength plan')]
      simp only [pure_bind]
      refine unless_entryChecks_bind fun hamount => ?_
      refine unless_panicIf_bind (by rw [hlen]) fun _ => ?_
      refine .bind_right _ fun outBefore _ => .bind_right _ fun _ _ => ?_
      refine unless_panicIf_bind (rescaled_nonpos hb hba htotal) fun _ => ?_
      rw [hlen]
      refine (Unless.loop hplan ?_ 0 _).bind fun allocated _ => .refl _
      intro index strand strand' allocated hstrand
      exact unless_strandStep hb hba hamount.le htotal hstrand
  | @swapMerge user tokenIn tokenOut amountIn amountOutMin deadline stages stages' h =>
      have hlen : stages.len = stages'.len := h.length_eq
      show Unless _ (swapMerge env user tokenIn tokenOut amountIn amountOutMin deadline stages)
        (swapMerge env user tokenIn tokenOut amountIn amountOutMin deadline stages')
      unfold swapMerge mergeEntry
      rw [hlen]
      refine .bind_right _ fun outBefore _ => ?_
      refine (Unless.loop h ?_ 0 _).bind fun avail _ => .refl _
      intro index stage stage' avail hstage
      exact unless_stageStep hstage

/-- **Only the ratio of the parts matters.** Whatever the venues do, a call of `swap` or
`swap_merge` is, with its result, the world it leaves and its trace, the call with the parts of
the whole plan, or of each stage, in a finer unit, unless a product of the split is out of range
there. -/
theorem only_ratios_matter (env : Env V) (world : World V) {call call' : EntryCall}
    (h : call.Coarser call')
    (hfits : (call'.invoke env world).result ≠ .error (.overflow .mul)) :
    call.invoke env world = call'.invoke env world := by
  unfold EntryCall.invoke
  rcases unless_run h world.start with heq | ⟨panic, s, herror, rfl⟩
  · rw [heq]
  · rw [EntryCall.invoke_of_error herror] at hfits
    exact absurd rfl hfits

/-- The three strands of the trio in a finer unit. -/
def deskTrioFine : SwapArgs := deskTrio.withPlan
  ⟨[⟨25, .pair (deskHop 20 10 11) (deskHop 22 11 13)⟩,
    ⟨50, .pair (deskHop 21 10 11) (deskHop 23 11 13)⟩, ⟨100, .single (deskHop 24 10 13)⟩], by simp⟩

theorem only_ratios_matter_desk :
    deskTrio.call.invoke deskEnv (deskWorld 5) =
      deskTrioFine.call.invoke deskEnv (deskWorld 5) := by
  have hout : (deskTrioFine.call.invoke deskEnv (deskWorld 5)).result = .ok 100 := by
    decide +kernel
  refine only_ratios_matter deskEnv (deskWorld 5) (.swap ⟨25, 1, by decide, by decide, ?_⟩) ?_
  · exact .cons ⟨rfl, rfl⟩ (.cons ⟨rfl, rfl⟩ (.cons ⟨rfl, rfl⟩ .nil))
  · rw [hout]
    exact nofun

end WowmaxStellar
