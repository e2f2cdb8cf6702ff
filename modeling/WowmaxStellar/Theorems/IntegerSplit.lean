import WowmaxStellar.Logic.Served

/-!
# The integer split

Both executors split an amount over branches by integer parts: `swap` the input over its
strands, each stage of `swap_merge` its balance over its fills. The sum of the parts fits.
The split fails exactly when the product of some branch but the last is no `i128`.
Otherwise the shares are the rounded-down proportions, the last branch takes the rest, and
nothing is lost.

* `exactSplit_shares` — the shares are exact;
* `integer_split` — the result.
-/

namespace WowmaxStellar

open Runs Split

/-- The product of some branch but the last is no `i128`. -/
def ProductOverflows (amount : Int) (parts : List UInt32) : Prop :=
  ∃ i p, i + 1 < parts.length ∧ parts[i]? = some p ∧ i128Max < amount * p.toNat

/-- The shares of a split that goes through. -/
structure ExactSplit (amount : Int) (parts : List UInt32) (shares : List Int) : Prop where
  length : shares.length = parts.length
  nonneg : ∀ share ∈ shares, 0 ≤ share
  running : ∀ i, (shares.take i).sum ≤ amount
  sum : shares.sum = amount
  floor : ∀ i p, i + 1 < parts.length → parts[i]? = some p →
    shares[i]? = some ⌊proportion amount (weights parts).sum p.toNat⌋
  last : ∃ (p : UInt32) (last : Int), parts.getLast? = some p ∧ shares.getLast? = some last ∧
    0 ≤ last - proportion amount (weights parts).sum p.toNat ∧
    (2 ≤ parts.length →
      last - proportion amount (weights parts).sum p.toNat < parts.length - 1)

/-- The split of `amount` by `parts`, as both executors make it. -/
structure IntegerSplit (V : Type) (amount : Int) (parts : List UInt32) : Prop where
  total : (sumParts parts : Exec V Int) = pure (weights parts).sum
  overflow_iff : ∀ s : State V,
    (∃ op s', splitAmount amount parts s = .error (.overflow op) s') ↔
      ProductOverflows amount parts
  exact : ¬ ProductOverflows amount parts → ∃ shares,
    (splitAmount amount parts : Exec V (List Int)) = pure shares ∧ ExactSplit amount parts shares
  strands : ∀ plan : Vec Strand, plan.val.map Strand.parts = parts →
    StrandsServed amount plan.val (shares amount (weights parts))
  fills : ∀ stage : Stage, stage.fills.val.map Fill.parts = parts →
    FillsServed amount stage (shares amount (weights parts))

section Split

variable {amount : Int} {parts : List UInt32}

theorem splitOverflows_iff (h0 : 0 ≤ amount) :
    SplitOverflows amount parts ↔ ProductOverflows amount parts := by
  constructor
  · rintro ⟨i, p, hp, hover⟩
    have hi := (List.getElem?_eq_some_iff.mp hp).1
    obtain ⟨hlast, hproduct⟩ := (branchOverflows_iff h0).mp hover
    exact ⟨i, p, by omega, hp, hproduct⟩
  · rintro ⟨i, p, hi, hp, hproduct⟩
    exact ⟨i, p, hp, (branchOverflows_iff h0).mpr ⟨by omega, hproduct⟩⟩

theorem exactSplit_shares (h0 : 0 ≤ amount) (htotal : 0 < (weights parts).sum) :
    ExactSplit amount parts (shares amount (weights parts)) := by
  have hne := weights_ne_nil htotal
  exact
    { length := by rw [length_shares hne, length_weights]
      nonneg := shares_nonneg hne h0 htotal (weights_nonneg parts)
      running := fun i => take_shares_le i hne h0 htotal (weights_nonneg parts)
      sum := sum_shares amount _
      floor := by
        intro i p hi hp
        obtain ⟨done, rest, hsplit, rfl⟩ := exists_split_at hp
        -- a branch with another one behind it gets its rounded-down proportion
        have hrest : weights rest ≠ [] := by
          intro hnil
          have hlength := congrArg List.length hnil
          rw [length_weights, List.length_nil] at hlength
          rw [← hsplit, List.length_append, List.length_cons] at hi
          omega
        have hshare := getElem?_shares amount (weights_split hsplit) hrest
        rw [length_weights] at hshare
        rw [hshare, portion_eq_floor h0 htotal (Int.natCast_nonneg _)]
      last := by
        rcases List.eq_nil_or_concat parts with rfl | ⟨front, p, rfl⟩
        · exact absurd rfl hne
        · rw [List.concat_eq_append] at *
          have hweights : weights (front ++ [p]) = weights front ++ [(p.toNat : Int)] := by
            rw [weights_append]
            rfl
          rw [hweights] at htotal ⊢
          obtain ⟨last, hlast, hlower, hupper⟩ :=
            last_share_bound h0 (weights_nonneg front) htotal
          refine ⟨p, last, List.getLast?_concat, hlast, sub_nonneg.mpr hlower, ?_⟩
          intro htwo
          rw [List.length_append, List.length_singleton] at htwo ⊢
          have hfront : weights front ≠ [] := by
            intro hnil
            have hlength := congrArg List.length hnil
            rw [length_weights, List.length_nil] at hlength
            omega
          have hbound := hupper hfront
          rw [length_weights] at hbound
          push_cast
          linarith }

end Split

/-- **The integer split.** For every positive `i128` amount and every list of parts with a
positive total. -/
theorem integer_split {V : Type} (amount : I128) (parts : Vec UInt32) (hamount : 1 ≤ amount.val)
    (htotal : 0 < (weights parts.val).sum) : IntegerSplit V amount parts.val := by
  have hmax := amount.property.2
  have h0 : 0 ≤ amount.val := by omega
  have hcases := @splitAmount_eq V amount.val parts.val h0 hmax parts.property htotal
  rw [splitOverflows_iff h0] at hcases
  exact
    { total := sumParts_eq parts.val parts.property
      overflow_iff := by
        intro s
        rcases hcases with ⟨hover, heq⟩ | ⟨hnone, heq⟩
        · rw [heq]
          exact ⟨fun _ => hover, fun _ => ⟨.mul, s, rfl⟩⟩
        · rw [heq]
          constructor
          · rintro ⟨op, s', hrun⟩
            cases hrun
          · exact fun hover => absurd hover hnone
      exact := by
        intro hnone
        rcases hcases with ⟨hover, _⟩ | ⟨_, heq⟩
        · exact absurd hover hnone
        · exact ⟨_, heq, exactSplit_shares h0 htotal⟩
      strands := by
        intro plan hparts
        rw [← hparts] at htotal ⊢
        exact strandStep_shares ⟨hamount, hmax⟩ htotal
      fills := by
        intro stage hparts
        rw [← hparts] at htotal ⊢
        exact fillStep_shares ⟨hamount, hmax⟩ htotal }

/-- 1001 units by 3 parts and 1. -/
theorem integer_split_three_one :
    IntegerSplit Unit (I128.ofUInt32 1001).val (Vec.pair (3 : UInt32) 1).val :=
  integer_split (.ofUInt32 1001) (.pair 3 1) (by decide) (by decide)

example : shares 1001 (weights [3, 1]) = [750, 251] := by decide

end WowmaxStellar
