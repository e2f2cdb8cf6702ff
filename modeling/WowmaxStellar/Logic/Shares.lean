import WowmaxStellar.Lib.Split
import WowmaxStellar.Router.SwapMerge

/-!
# The split of an amount over branches

Both executors split an amount by `u32` parts. The sum of the parts cannot overflow;
of the checked operations of a branch only the product can.

* `branch_bind_eq` — one branch, as the loops of the executors compute it;
* `splitAmount_eq` — all of them.
-/

namespace WowmaxStellar

open Runs Split

variable {V β : Type}

/-- The parts of the branches as integer weights. -/
def weights (parts : List UInt32) : List Int := parts.map fun p => (p.toNat : Int)

@[simp] theorem length_weights (parts : List UInt32) : (weights parts).length = parts.length :=
  List.length_map _

@[simp] theorem weights_append (left right : List UInt32) :
    weights (left ++ right) = weights left ++ weights right := List.map_append

theorem weights_nonneg (parts : List UInt32) : ∀ w ∈ weights parts, 0 ≤ w := by
  intro w hw
  obtain ⟨p, _, rfl⟩ := List.mem_map.mp hw
  exact Int.natCast_nonneg _

theorem weights_split {parts done rest : List UInt32} {p : UInt32}
    (hsplit : done ++ p :: rest = parts) :
    weights done ++ (p.toNat : Int) :: weights rest = weights parts := by
  rw [← hsplit]
  simp [weights]

theorem weights_ne_nil {parts : List UInt32} (htotal : 0 < (weights parts).sum) :
    weights parts ≠ [] := by
  intro hnil
  rw [hnil] at htotal
  exact absurd htotal (by decide)

theorem checked_of_inI128 {op : ArithOp} {x : Int} (h : InI128 x) :
    (checked op x : Exec V Int) = pure x := if_pos h

theorem checked_of_not_inI128 {op : ArithOp} {x : Int} (h : ¬ InI128 x) :
    (checked op x : Exec V Int) = throw (.overflow op) := if_neg h

/-- The parts of a `Vec` always have an `i128` sum. -/
theorem sumParts_eq (parts : List UInt32) (hlength : parts.length < 2 ^ 32) :
    (sumParts parts : Exec V Int) = pure (weights parts).sum := by
  suffices hloop : ∀ rest i total, 0 ≤ total → total + 2 ^ 32 * (rest.length : Int) ≤ 2 ^ 64 →
      loop (fun _ parts totalParts => checkedAdd totalParts (parts.toNat : Int)) i rest total =
        (pure (total + (weights rest).sum) : Exec V Int) by
    unfold sumParts
    rw [hloop parts 0 0 le_rfl (by omega), Int.zero_add]
  intro rest
  induction rest with
  | nil =>
      intro i total _ _
      simp [weights]
  | cons p rest ih =>
      intro i total h0 hbound
      have hp : (p.toNat : Int) < 2 ^ 32 := by exact_mod_cast p.toNat_lt
      rw [List.length_cons] at hbound
      push_cast at hbound
      have hsum : (weights (p :: rest)).sum = (p.toNat : Int) + (weights rest).sum := by
        simp [weights]
      rw [loop_cons]
      show checked .add (total + p.toNat) >>= _ = _
      rw [checked_of_inI128 (by unfold InI128 i128Min i128Max; omega), pure_bind,
        ih (i + 1) (total + p.toNat) (by omega) (by omega), hsum, Int.add_assoc]

theorem checked_ok {op : ArithOp} {x y : Int} {s s' : State V}
    (h : (checked op x : Exec V Int) s = .ok y s') : y = x ∧ s' = s := by
  unfold checked at h
  split at h
  · obtain ⟨rfl, rfl⟩ := pure_ok_iff.mp h
    exact ⟨rfl, rfl⟩
  · cases h

/-- A branch whose computation returns gets what the split says. -/
theorem branchAmount_ok {amount allocated share : Int} {parts : List UInt32} {index : Nat}
    {p : UInt32} {s s' : State V}
    (h : branchAmount amount (weights parts).sum parts.length index p allocated s =
      .ok share s') :
    share = branch amount (weights parts) index p.toNat allocated := by
  unfold branchAmount at h
  unfold branch portion
  rw [length_weights]
  split at h
  · rename_i hlast
    rw [if_pos hlast]
    exact (checked_ok h).1
  · rename_i hlast
    rw [if_neg hlast]
    obtain ⟨scaled, s1, hscaled, hshare⟩ := bind_ok_iff.mp h
    rw [← (pure_ok_iff.mp hshare).1, (checked_ok hscaled).1]

/-- A branch of the split overflows: it is not the last one and its product is no
`i128`. -/
def BranchOverflows (amount : Int) (count index : Nat) (parts : UInt32) : Prop :=
  index ≠ count - 1 ∧ ¬ InI128 (amount * parts.toNat)

instance (amount : Int) (count index : Nat) (parts : UInt32) :
    Decidable (BranchOverflows amount count index parts) :=
  inferInstanceAs (Decidable (_ ∧ _))

section Branch

variable {amount allocated : Int} {parts done rest : List UInt32} {p : UInt32}

/-- The share of the next branch is within what is left. -/
theorem allocated_branch (halloc : Allocated amount (weights parts) (weights done) allocated)
    (hsplit : done ++ p :: rest = parts) (h0 : 0 ≤ amount) (htotal : 0 < (weights parts).sum) :
    0 ≤ branch amount (weights parts) done.length p.toNat allocated ∧
      allocated + branch amount (weights parts) done.length p.toNat allocated ≤ amount ∧
      Allocated amount (weights parts) (weights (done ++ [p]))
        (allocated + branch amount (weights parts) done.length p.toNat allocated) := by
  have hweights := weights_split hsplit
  have hshare := halloc.branch_nonneg hweights h0 htotal (weights_nonneg parts)
  have hnext := halloc.step hweights h0 htotal (weights_nonneg parts)
  have hle := hnext.le ⟨weights rest, by rw [← hweights]; simp⟩ h0 htotal (weights_nonneg parts)
  rw [length_weights] at hshare hnext hle
  rw [weights_append]
  exact ⟨hshare, hle, hnext⟩

/-- A branch computes what the split says, unless its product overflows. -/
theorem branchAmount_eq (halloc : Allocated amount (weights parts) (weights done) allocated)
    (hsplit : done ++ p :: rest = parts) (h0 : 0 ≤ amount) (hmax : amount ≤ i128Max)
    (htotal : 0 < (weights parts).sum) :
    (branchAmount amount (weights parts).sum parts.length done.length p allocated : Exec V Int) =
      if BranchOverflows amount parts.length done.length p then throw (.overflow .mul)
      else pure (branch amount (weights parts) done.length p.toNat allocated) := by
  have hle := halloc.le ⟨_, weights_split hsplit⟩ h0 htotal (weights_nonneg parts)
  have hnonneg := halloc.nonneg
  unfold branchAmount branch portion
  rw [length_weights]
  by_cases hlast : done.length = parts.length - 1
  · have hfit : InI128 (amount - allocated) := by
      unfold InI128 i128Min at *
      omega
    rw [if_pos hlast, if_pos hlast, if_neg fun h => h.1 hlast]
    exact checked_of_inI128 hfit
  · rw [if_neg hlast, if_neg hlast]
    unfold checkedMul
    by_cases hfit : InI128 (amount * p.toNat)
    · rw [if_neg fun h => h.2 hfit, checked_of_inI128 hfit, pure_bind]
    · rw [if_pos ⟨hlast, hfit⟩, checked_of_not_inI128 hfit]
      rfl

/-- The computation of a branch and of the running allocation after it. -/
theorem branch_bind_eq (halloc : Allocated amount (weights parts) (weights done) allocated)
    (hsplit : done ++ p :: rest = parts) (h0 : 0 ≤ amount) (hmax : amount ≤ i128Max)
    (htotal : 0 < (weights parts).sum) (f : Int → Int → Exec V β) :
    (branchAmount amount (weights parts).sum parts.length done.length p allocated >>=
        fun share => checkedAdd allocated share >>= fun allocated => f share allocated) =
      if BranchOverflows amount parts.length done.length p then throw (.overflow .mul)
      else f (branch amount (weights parts) done.length p.toNat allocated)
        (allocated + branch amount (weights parts) done.length p.toNat allocated) := by
  obtain ⟨hbranch, hnext, -⟩ := allocated_branch halloc hsplit h0 htotal
  have hnonneg := halloc.nonneg
  have hadd : InI128 (allocated +
      branch amount (weights parts) done.length p.toNat allocated) := by
    unfold InI128 i128Min at *
    omega
  rw [branchAmount_eq halloc hsplit h0 hmax htotal]
  split
  · rfl
  · rw [pure_bind]
    unfold checkedAdd
    rw [checked_of_inI128 hadd, pure_bind]

/-- A branch that is computed does not overflow. -/
theorem branchAmount_fits {totalParts share : Int} {count index : Nat} {s s' : State V}
    (h : branchAmount amount totalParts count index p allocated s = .ok share s') :
    ¬ BranchOverflows amount count index p := by
  rintro ⟨hindex, hproduct⟩
  unfold branchAmount checkedMul at h
  rw [if_neg hindex, checked_of_not_inI128 hproduct] at h
  cases h

end Branch

/-! ## Loops over branches

What the loops run over are not the parts but things that have some. -/

section Branches

variable {α : Type} {f : α → UInt32} {amount allocated : Int} {branches done rest : List α} {a : α}

theorem parts_split (hsplit : done ++ a :: rest = branches) :
    done.map f ++ f a :: rest.map f = branches.map f := by
  rw [← hsplit, List.map_append, List.map_cons]

theorem allocated_branch_map
    (halloc : Allocated amount (weights (branches.map f)) (weights (done.map f)) allocated)
    (hsplit : done ++ a :: rest = branches) (h0 : 0 ≤ amount)
    (htotal : 0 < (weights (branches.map f)).sum) :
    0 ≤ branch amount (weights (branches.map f)) done.length (f a).toNat allocated ∧
      allocated + branch amount (weights (branches.map f)) done.length (f a).toNat allocated ≤
        amount ∧
      Allocated amount (weights (branches.map f)) (weights ((done ++ [a]).map f))
        (allocated + branch amount (weights (branches.map f)) done.length (f a).toNat
          allocated) := by
  have hnext := allocated_branch halloc (parts_split hsplit) h0 htotal
  rw [List.length_map] at hnext
  rw [List.map_append, List.map_singleton]
  exact hnext

theorem branchAmount_map_eq
    (halloc : Allocated amount (weights (branches.map f)) (weights (done.map f)) allocated)
    (hsplit : done ++ a :: rest = branches) (h0 : 0 ≤ amount) (hmax : amount ≤ i128Max)
    (htotal : 0 < (weights (branches.map f)).sum) :
    (branchAmount amount (weights (branches.map f)).sum branches.length done.length (f a)
        allocated : Exec V Int) =
      if BranchOverflows amount branches.length done.length (f a) then throw (.overflow .mul)
      else pure (branch amount (weights (branches.map f)) done.length (f a).toNat allocated) := by
  have heq := branchAmount_eq (V := V) halloc (parts_split hsplit) h0 hmax htotal
  rw [List.length_map, List.length_map] at heq
  exact heq

theorem branch_bind_map_eq
    (halloc : Allocated amount (weights (branches.map f)) (weights (done.map f)) allocated)
    (hsplit : done ++ a :: rest = branches) (h0 : 0 ≤ amount) (hmax : amount ≤ i128Max)
    (htotal : 0 < (weights (branches.map f)).sum) (g : Int → Int → Exec V β) :
    (branchAmount amount (weights (branches.map f)).sum branches.length done.length (f a)
        allocated >>= fun share => checkedAdd allocated share >>= fun allocated =>
          g share allocated) =
      if BranchOverflows amount branches.length done.length (f a) then throw (.overflow .mul)
      else g (branch amount (weights (branches.map f)) done.length (f a).toNat allocated)
        (allocated + branch amount (weights (branches.map f)) done.length (f a).toNat
          allocated) := by
  have heq := branch_bind_eq halloc (parts_split hsplit) h0 hmax htotal g
  rw [List.length_map, List.length_map] at heq
  exact heq

end Branches

/-! ## The split on its own -/

/-- One turn of the split: what the strand loop and the fill loop compute before they hand
the share on. Threads the shares so far and their sum. -/
def splitStep (amount totalParts : Int) (count index : Nat) (parts : UInt32)
    (acc : List Int × Int) : Exec V (List Int × Int) := do
  let share ← branchAmount amount totalParts count index parts acc.2
  let allocated ← checkedAdd acc.2 share
  pure (acc.1 ++ [share], allocated)

/-- The shares of all branches, computed as both executors compute them. -/
def splitAmount (amount : Int) (parts : List UInt32) : Exec V (List Int) := do
  let totalParts ← sumParts parts
  let acc ← loop (splitStep amount totalParts parts.length) 0 parts ([], 0)
  pure acc.1

/-- The split overflows at some branch. -/
def SplitOverflows (amount : Int) (parts : List UInt32) : Prop :=
  ∃ i p, parts[i]? = some p ∧ BranchOverflows amount parts.length i p

theorem branchOverflows_iff {amount : Int} {count index : Nat} {p : UInt32} (h0 : 0 ≤ amount) :
    BranchOverflows amount count index p ↔
      index ≠ count - 1 ∧ i128Max < amount * p.toNat := by
  have hproduct : 0 ≤ amount * (p.toNat : Int) := Int.mul_nonneg h0 (Int.natCast_nonneg _)
  unfold BranchOverflows InI128 i128Min
  omega

section Split

variable {amount : Int} {parts done rest : List UInt32}

/-- What the split says at an index, in the terms of the loops. -/
theorem shares_at {parts done rest : List UInt32} {p : UInt32} {amount : Int}
    (h0 : 0 ≤ amount)
    (htotal : 0 < (weights parts).sum) (hsplit : done ++ p :: rest = parts) :
    Allocated amount (weights parts) (weights done)
        ((shares amount (weights parts)).take done.length).sum ∧
      branch amount (weights parts) done.length p.toNat
          ((shares amount (weights parts)).take done.length).sum =
        (shares amount (weights parts)).getD done.length 0 ∧
      ((shares amount (weights parts)).take (done.length + 1)).sum =
        ((shares amount (weights parts)).take done.length).sum +
          (shares amount (weights parts)).getD done.length 0 := by
  have hweights := weights_split hsplit
  have halloc := allocated_shares ⟨_, hweights⟩ (weights_ne_nil htotal) h0 htotal
    (weights_nonneg parts)
  have hshare := branch_shares amount hweights
  have hsum := take_succ_shares amount hweights
  rw [List.length_append, List.length_singleton] at hsum
  rw [length_weights] at halloc hshare hsum
  refine ⟨halloc, ?_, ?_⟩
  · rw [List.getD_eq_getElem?_getD, hshare, Option.getD_some]
  · rw [hsum, List.getD_eq_getElem?_getD, hshare, Option.getD_some]

/-- The split loop gets to the end with the shares, or it stops at the first branch that
overflows. -/
theorem splitLoop_cases (h0 : 0 ≤ amount) (hmax : amount ≤ i128Max)
    (htotal : 0 < (weights parts).sum) (hsplit : done ++ rest = parts) :
    ((∃ i p, done.length ≤ i ∧ parts[i]? = some p ∧
        BranchOverflows amount parts.length i p) ∧
      (loop (splitStep amount (weights parts).sum parts.length) done.length rest
          ((shares amount (weights parts)).take done.length,
            ((shares amount (weights parts)).take done.length).sum) : Exec V _) =
        throw (.overflow .mul)) ∨
    ((∀ i p, done.length ≤ i → parts[i]? = some p →
        ¬ BranchOverflows amount parts.length i p) ∧
      (loop (splitStep amount (weights parts).sum parts.length) done.length rest
          ((shares amount (weights parts)).take done.length,
            ((shares amount (weights parts)).take done.length).sum) : Exec V _) =
        pure (shares amount (weights parts), amount)) := by
  have hne := weights_ne_nil htotal
  induction rest generalizing done with
  | nil =>
      rw [List.append_nil] at hsplit
      subst hsplit
      have hall : (shares amount (weights done)).take done.length = shares amount (weights done) :=
        List.take_of_length_le (by rw [length_shares hne, length_weights])
      refine .inr ⟨fun i p hi hp => ?_, ?_⟩
      · rw [List.getElem?_eq_none hi] at hp
        cases hp
      · rw [loop_nil, hall, sum_shares]
  | cons p rest ih =>
      obtain ⟨halloc, hbranch, hsum⟩ := shares_at h0 htotal hsplit
      have hshare := branch_shares amount (weights_split hsplit)
      rw [length_weights] at hshare
      rw [← hbranch] at hsum
      have hget : parts[done.length]? = some p := by
        rw [← hsplit]
        simp
      rw [loop_cons]
      unfold splitStep
      rw [branch_bind_eq halloc hsplit h0 hmax htotal]
      by_cases hover : BranchOverflows amount parts.length done.length p
      · rw [if_pos hover]
        exact .inl ⟨⟨done.length, p, le_rfl, hget, hover⟩, rfl⟩
      · rw [if_neg hover, pure_bind]
        have hnext := @ih (done ++ [p]) (by rw [← hsplit]; simp)
        rw [List.length_append, List.length_singleton, hsum, List.take_add_one, hshare] at hnext
        rcases hnext with ⟨⟨i, q, hi, hq⟩, hloop⟩ | ⟨hnone, hloop⟩
        · exact .inl ⟨⟨i, q, by omega, hq⟩, hloop⟩
        · refine .inr ⟨fun i q hi hq => ?_, hloop⟩
          by_cases heq : i = done.length
          · rw [heq, hget, Option.some.injEq] at hq
            rw [heq, ← hq]
            exact hover
          · exact hnone i q (by omega) hq

/-- The split returns the shares, unless some branch overflows. -/
theorem splitAmount_eq (h0 : 0 ≤ amount) (hmax : amount ≤ i128Max)
    (hlength : parts.length < 2 ^ 32) (htotal : 0 < (weights parts).sum) :
    (SplitOverflows amount parts ∧
        (splitAmount amount parts : Exec V (List Int)) = throw (.overflow .mul)) ∨
      (¬ SplitOverflows amount parts ∧
        (splitAmount amount parts : Exec V (List Int)) = pure (shares amount (weights parts))) := by
  have hcases := @splitLoop_cases V amount parts [] parts h0 hmax htotal (List.nil_append parts)
  unfold splitAmount
  rw [sumParts_eq parts hlength, pure_bind]
  rcases hcases with ⟨⟨i, p, _, hover⟩, hloop⟩ | ⟨hnone, hloop⟩
  · refine .inl ⟨⟨i, p, hover⟩, ?_⟩
    rw [show loop (splitStep amount (weights parts).sum parts.length) 0 parts ([], 0) =
      (throw (.overflow .mul) : Exec V _) from hloop]
    rfl
  · refine .inr ⟨fun ⟨i, p, hp, hover⟩ => hnone i p (Nat.zero_le i) hp hover, ?_⟩
    rw [show loop (splitStep amount (weights parts).sum parts.length) 0 parts ([], 0) =
      (pure (shares amount (weights parts), amount) : Exec V _) from hloop]
    rfl

end Split

end WowmaxStellar
