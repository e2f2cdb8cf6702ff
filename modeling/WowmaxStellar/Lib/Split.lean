import Mathlib.Algebra.Order.BigOperators.Group.List
import Mathlib.Algebra.Order.Ring.Int
import Mathlib.Data.List.Induction
import Mathlib.Data.Rat.Floor
import Mathlib.Tactic.FieldSimp
import Mathlib.Tactic.Linarith

/-!
# Splitting an integer by weights

An amount is split over branches with weights: every branch but the last gets the
rounded-down proportion, the last one what is left. The split is made one branch at
a time, so it is described by what is allocated after each.

* `Allocated.branch_nonneg`, `Allocated.step` — one branch;
* `Allocated.le` — no more than the amount is ever allocated;
* `shares` — the whole split: `branch_shares`, `sum_shares`, `last_share_bound`;
* `weights_pos_iff` — which splits without an empty share have a zero weight.
-/

namespace Split

/-- The rounded-down proportion of `amount` for `weight` out of `total`. -/
def portion (amount total weight : Int) : Int := (amount * weight).tdiv total

/-- The branch at `index` when `allocated` is gone already. -/
def branch (amount : Int) (weights : List Int) (index : Nat) (weight allocated : Int) : Int :=
  if index = weights.length - 1 then amount - allocated
  else portion amount weights.sum weight

theorem portion_nonneg {amount total weight : Int} (hamount : 0 ≤ amount) (htotal : 0 < total)
    (hweight : 0 ≤ weight) : 0 ≤ portion amount total weight :=
  Int.tdiv_nonneg (Int.mul_nonneg hamount hweight) (Int.le_of_lt htotal)

/-- A portion depends on the ratio of the weight and the total. -/
theorem portion_scaled (amount : Int) {total total' weight weight' a b : Int} (ha : 0 < a)
    (hb : 0 < b) (htotal : a * total = b * total') (hweight : a * weight = b * weight') :
    portion amount total weight = portion amount total' weight' := by
  unfold portion
  calc (amount * weight).tdiv total
      = (a * (amount * weight)).tdiv (a * total) := (Int.mul_tdiv_mul_of_pos _ _ ha).symm
    _ = (b * (amount * weight')).tdiv (b * total') := by
        rw [htotal, Int.mul_left_comm, hweight, Int.mul_left_comm]
    _ = (amount * weight').tdiv total' := Int.mul_tdiv_mul_of_pos _ _ hb

theorem portion_mul_le {amount total weight : Int} (hamount : 0 ≤ amount) (htotal : 0 < total)
    (hweight : 0 ≤ weight) : portion amount total weight * total ≤ amount * weight := by
  unfold portion
  rw [Int.tdiv_eq_ediv_of_nonneg (Int.mul_nonneg hamount hweight)]
  exact Int.ediv_mul_le _ (by omega)

/-- What can be said of the running allocation once the branches `done` of `weights`
are served: it is below their proportion, and it is everything after the last one. -/
structure Allocated (amount : Int) (weights done : List Int) (allocated : Int) : Prop where
  nonneg : 0 ≤ allocated
  bound : done.length < weights.length → allocated * weights.sum ≤ amount * done.sum
  full : done = weights → allocated = amount

section

variable {amount : Int} {weights done rest : List Int} {weight allocated : Int}

theorem Allocated.start (hweights : weights ≠ []) : Allocated amount weights [] 0 where
  nonneg := le_rfl
  bound _ := by simp
  full h := absurd h.symm hweights

theorem Allocated.le (h : Allocated amount weights done allocated)
    (hinit : done <+: weights) (hamount : 0 ≤ amount) (htotal : 0 < weights.sum)
    (hweights : ∀ w ∈ weights, 0 ≤ w) : allocated ≤ amount := by
  obtain ⟨rest, rfl⟩ := hinit
  cases rest with
  | nil => exact le_of_eq (h.full (List.append_nil _).symm)
  | cons w rest =>
      have hbound := h.bound (by simp)
      have hrest : 0 ≤ (w :: rest).sum :=
        List.sum_nonneg fun x hx => hweights x (List.mem_append_right _ hx)
      have hdone : done.sum ≤ (done ++ w :: rest).sum := by
        rw [List.sum_append]
        omega
      have hle : allocated * (done ++ w :: rest).sum ≤ amount * (done ++ w :: rest).sum :=
        hbound.trans (Int.mul_le_mul_of_nonneg_left hdone hamount)
      exact Int.le_of_mul_le_mul_right hle htotal

/-- A branch is never negative: the last one gets what is left. -/
theorem Allocated.branch_nonneg (h : Allocated amount weights done allocated)
    (hsplit : done ++ weight :: rest = weights) (hamount : 0 ≤ amount)
    (htotal : 0 < weights.sum) (hweights : ∀ w ∈ weights, 0 ≤ w) :
    0 ≤ branch amount weights done.length weight allocated := by
  have hle := h.le ⟨_, hsplit⟩ hamount htotal hweights
  have hweight : 0 ≤ weight := hweights weight (by rw [← hsplit]; simp)
  unfold branch
  split
  · omega
  · exact portion_nonneg hamount htotal hweight

/-- Serving one more branch. -/
theorem Allocated.step (h : Allocated amount weights done allocated)
    (hsplit : done ++ weight :: rest = weights) (hamount : 0 ≤ amount)
    (htotal : 0 < weights.sum) (hweights : ∀ w ∈ weights, 0 ≤ w) :
    Allocated amount weights (done ++ [weight])
      (allocated + branch amount weights done.length weight allocated) := by
  have hnonneg := h.branch_nonneg hsplit hamount htotal hweights
  have hweight : 0 ≤ weight := hweights weight (by rw [← hsplit]; simp)
  have hlength : weights.length = done.length + 1 + rest.length := by
    rw [← hsplit]
    simp only [List.length_append, List.length_cons]
    omega
  refine ⟨Int.add_nonneg h.nonneg hnonneg, fun hmore => ?_, fun hall => ?_⟩
  · rw [List.length_append, List.length_singleton] at hmore
    have hbound := h.bound (by omega)
    have hportion := portion_mul_le hamount htotal hweight
    unfold branch
    rw [if_neg (by omega), Int.add_mul, List.sum_append, List.sum_singleton, Int.mul_add]
    exact Int.add_le_add hbound hportion
  · -- the last branch gets what is left
    have hlast : done.length + 1 = weights.length := by rw [← hall]; simp
    unfold branch
    rw [if_pos (by omega)]
    omega

end

/-! ## A whole split -/

/-- The exact proportion of `amount` for `weight` out of `total`. -/
def proportion (amount total weight : Int) : ℚ := amount * weight / total

/-- The shares of a split: the portions, and what they leave for the last branch. -/
def shares (amount : Int) (weights : List Int) : List Int :=
  let portions := weights.dropLast.map (portion amount weights.sum)
  portions ++ [amount - portions.sum]

/-- What rounding down takes off the proportions of `weights`, in `total`ths. -/
def leftover (amount total : Int) (weights : List Int) : Int :=
  (weights.map fun weight => amount * weight % total).sum

section

variable {amount total weight : Int} {weights front done rest : List Int}

theorem portion_eq_ediv (hamount : 0 ≤ amount) (hweight : 0 ≤ weight) :
    portion amount total weight = amount * weight / total :=
  Int.tdiv_eq_ediv_of_nonneg (Int.mul_nonneg hamount hweight)

theorem portion_eq_floor (hamount : 0 ≤ amount) (htotal : 0 < total) (hweight : 0 ≤ weight) :
    portion amount total weight = ⌊proportion amount total weight⌋ := by
  obtain ⟨n, rfl⟩ := Int.eq_ofNat_of_zero_le htotal.le
  rw [portion_eq_ediv hamount hweight]
  unfold proportion
  have hfloor := Rat.floor_intCast_div_natCast (amount * weight) n
  push_cast at hfloor ⊢
  exact hfloor.symm

/-- Division with remainder, summed over the weights. -/
theorem portions_add_leftover (total : Int) (hamount : 0 ≤ amount) (hfront : ∀ w ∈ front, 0 ≤ w) :
    total * (front.map (portion amount total)).sum + leftover amount total front =
      amount * front.sum := by
  induction front with
  | nil => simp [leftover]
  | cons w rest ih =>
      have hrest := ih fun x hx => hfront x (List.mem_cons_of_mem w hx)
      have hhead := Int.mul_ediv_add_emod (amount * w) total
      have hleft : leftover amount total (w :: rest) =
          amount * w % total + leftover amount total rest := by
        simp [leftover]
      rw [List.map_cons, List.sum_cons, List.sum_cons, hleft,
        portion_eq_ediv hamount (hfront w (List.mem_cons_self ..)), Int.mul_add, Int.mul_add]
      omega

theorem leftover_nonneg (htotal : 0 < total) : 0 ≤ leftover amount total front := by
  apply List.sum_nonneg
  intro x hx
  obtain ⟨w, _, rfl⟩ := List.mem_map.mp hx
  exact Int.emod_nonneg _ htotal.ne'

/-- Each remainder is below `total`. -/
theorem leftover_lt (htotal : 0 < total) (hfront : front ≠ []) :
    leftover amount total front < total * front.length := by
  induction front with
  | nil => exact absurd rfl hfront
  | cons w rest ih =>
      have hhead := Int.emod_lt_of_pos (amount * w) htotal
      have hleft : leftover amount total (w :: rest) =
          amount * w % total + leftover amount total rest := by
        simp [leftover]
      rw [hleft, List.length_cons]
      push_cast
      rw [Int.mul_add, Int.mul_one]
      -- the bound is strict, so the empty rest stands apart
      cases rest with
      | nil =>
          show _ + (0 : Int) < total * ((0 : Nat) : Int) + total
          omega
      | cons v rest =>
          have hrest := ih (by simp)
          omega

@[simp] theorem shares_snoc (front : List Int) (weight : Int) :
    shares amount (front ++ [weight]) =
      front.map (portion amount (front ++ [weight]).sum) ++
        [amount - (front.map (portion amount (front ++ [weight]).sum)).sum] := by
  simp [shares]

theorem length_shares (hweights : weights ≠ []) :
    (shares amount weights).length = weights.length := by
  have hpos := List.length_pos_iff.mpr hweights
  unfold shares
  rw [List.length_append, List.length_map, List.length_dropLast, List.length_singleton]
  omega

/-- The shares make up the amount. -/
theorem sum_shares (amount : Int) (weights : List Int) : (shares amount weights).sum = amount := by
  unfold shares
  rw [List.sum_append, List.sum_singleton]
  omega

/-- Before the last branch, the allocation is the portions so far. -/
theorem take_shares (amount : Int) (hsplit : done ++ weight :: rest = weights) :
    (shares amount weights).take done.length = done.map (portion amount weights.sum) := by
  subst hsplit
  unfold shares
  rw [List.take_append_of_le_length (by simp), ← List.map_take]
  congr 1
  rw [List.dropLast_append_of_ne_nil (by simp), List.take_left]

/-- What the split computes at a branch is its share. -/
theorem branch_shares (amount : Int) (hsplit : done ++ weight :: rest = weights) :
    (shares amount weights)[done.length]? =
      some (branch amount weights done.length weight
        ((shares amount weights).take done.length).sum) := by
  rw [take_shares amount hsplit]
  subst hsplit
  unfold branch
  rcases List.eq_nil_or_concat rest with rfl | ⟨before, last, rfl⟩
  · rw [if_pos (by simp), shares_snoc, List.getElem?_append_right (by simp)]
    simp
  · rw [List.concat_eq_append]
    rw [if_neg (by simp)]
    rw [show done ++ weight :: (before ++ [last]) = (done ++ weight :: before) ++ [last] by simp,
      shares_snoc, List.getElem?_append_left (by simp)]
    simp

theorem take_succ_shares (amount : Int) (hsplit : done ++ weight :: rest = weights) :
    ((shares amount weights).take (done ++ [weight]).length).sum =
      ((shares amount weights).take done.length).sum +
        branch amount weights done.length weight
          ((shares amount weights).take done.length).sum := by
  rw [List.length_append, List.length_singleton, List.take_add_one, branch_shares amount hsplit,
    List.sum_append]
  simp

/-- The running sums of the shares are what is allocated. -/
theorem allocated_shares (hinit : done <+: weights) (hne : weights ≠ []) (hamount : 0 ≤ amount)
    (htotal : 0 < weights.sum) (hweights : ∀ w ∈ weights, 0 ≤ w) :
    Allocated amount weights done ((shares amount weights).take done.length).sum := by
  induction done using List.reverseRecOn with
  | nil => exact .start hne
  | append_singleton done weight ih =>
      obtain ⟨rest, hrest⟩ := hinit
      have hsplit : done ++ weight :: rest = weights := by
        rw [← hrest, List.append_assoc, List.singleton_append]
      rw [take_succ_shares amount hsplit]
      exact (ih ⟨_, hsplit⟩).step hsplit hamount htotal hweights

/-- No more than the amount is allocated at any point. -/
theorem take_shares_le (i : Nat) (hne : weights ≠ []) (hamount : 0 ≤ amount)
    (htotal : 0 < weights.sum) (hweights : ∀ w ∈ weights, 0 ≤ w) :
    ((shares amount weights).take i).sum ≤ amount := by
  by_cases hi : i ≤ weights.length
  · have hinit := List.take_prefix i weights
    have hle := (allocated_shares hinit hne hamount htotal hweights).le hinit hamount htotal
      hweights
    rw [List.length_take, Nat.min_eq_left hi] at hle
    exact hle
  · rw [List.take_of_length_le (by rw [length_shares hne]; omega), sum_shares]

/-- Every branch but the last gets its portion. -/
theorem getElem?_shares (amount : Int) (hsplit : done ++ weight :: rest = weights)
    (hrest : rest ≠ []) :
    (shares amount weights)[done.length]? = some (portion amount weights.sum weight) := by
  have hpos := List.length_pos_iff.mpr hrest
  rw [branch_shares amount hsplit]
  unfold branch
  rw [if_neg]
  rw [← hsplit, List.length_append, List.length_cons]
  omega

theorem shares_nonneg (hne : weights ≠ []) (hamount : 0 ≤ amount) (htotal : 0 < weights.sum)
    (hweights : ∀ w ∈ weights, 0 ≤ w) : ∀ share ∈ shares amount weights, 0 ≤ share := by
  intro share hshare
  obtain ⟨i, hi, hget⟩ := List.getElem_of_mem hshare
  rw [length_shares hne] at hi
  have hsplit : weights.take i ++ weights[i] :: weights.drop (i + 1) = weights := by
    rw [List.getElem_cons_drop, List.take_append_drop]
  have hlength : (weights.take i).length = i := by
    rw [List.length_take]
    omega
  have hbranch := branch_shares amount hsplit
  rw [hlength] at hbranch
  rw [List.getElem?_eq_getElem (by rw [length_shares hne]; exact hi), hget, Option.some.injEq]
    at hbranch
  rw [hbranch]
  have halloc := allocated_shares ⟨_, hsplit⟩ hne hamount htotal hweights
  have hnonneg := halloc.branch_nonneg hsplit hamount htotal hweights
  rw [hlength] at hnonneg
  exact hnonneg

/-- The last share is its proportion and what the others lost by rounding down. -/
theorem last_share (weight : Int) (hamount : 0 ≤ amount) (hfront : ∀ w ∈ front, 0 ≤ w) :
    (front.sum + weight) * (amount - (front.map (portion amount (front.sum + weight))).sum) =
      amount * weight + leftover amount (front.sum + weight) front := by
  have hidentity := portions_add_leftover (front.sum + weight) hamount hfront
  have hamounts : (front.sum + weight) * amount = amount * front.sum + amount * weight := by
    rw [Int.mul_comm, Int.mul_add]
  rw [Int.mul_sub, hamounts]
  omega

/-- The last share is at least its proportion, and above it by less than one unit for
each other branch. -/
theorem last_share_bound (hamount : 0 ≤ amount) (hfront : ∀ w ∈ front, 0 ≤ w)
    (htotal : 0 < (front ++ [weight]).sum) :
    ∃ last : Int, (shares amount (front ++ [weight])).getLast? = some last ∧
      proportion amount (front ++ [weight]).sum weight ≤ last ∧
      (front ≠ [] → (last : ℚ) - proportion amount (front ++ [weight]).sum weight <
        front.length) := by
  rw [shares_snoc, List.getLast?_concat]
  refine ⟨_, rfl, ?_⟩
  have hsum : (front ++ [weight]).sum = front.sum + weight := by simp
  rw [hsum] at htotal ⊢
  have hscaled := last_share weight hamount hfront
  have hnonneg : 0 ≤ leftover amount (front.sum + weight) front := leftover_nonneg htotal
  have hlost : front ≠ [] → leftover amount (front.sum + weight) front <
      (front.sum + weight) * front.length := leftover_lt htotal
  generalize amount - (front.map (portion amount (front.sum + weight))).sum = last at hscaled ⊢
  generalize leftover amount (front.sum + weight) front = lost at *
  generalize front.sum + weight = total at *
  have hpos : (0 : ℚ) < total := by exact_mod_cast htotal
  -- the last share exceeds its proportion by what rounding took off the others
  have hexcess : (last : ℚ) - proportion amount total weight = lost / total := by
    have hcast : (total : ℚ) * last = amount * weight + lost := by exact_mod_cast hscaled
    unfold proportion
    field_simp
    linarith
  constructor
  · have hnonneg' : (0 : ℚ) ≤ lost / total := by
      apply div_nonneg _ hpos.le
      exact_mod_cast hnonneg
    linarith
  · intro hne
    rw [hexcess, div_lt_iff₀ hpos, mul_comm]
    exact_mod_cast hlost hne

/-- The last branch has a weight of its own, or the others leave nothing over for it. -/
def RemainderEarned (amount : Int) (weights : List Int) : Prop :=
  ∀ front last, weights = front ++ [last] → 0 < last ∨ leftover amount weights.sum front = 0

/-- A branch but the last with a positive share has a positive weight. -/
theorem front_weights_pos (hamount : 0 ≤ amount) (htotal : 0 < (front ++ [weight]).sum)
    (hfront : ∀ w ∈ front, 0 ≤ w)
    (hshares : ∀ share ∈ shares amount (front ++ [weight]), 0 < share) :
    ∀ w ∈ front, 0 < w := by
  intro w hw
  have hportion : 0 < portion amount (front ++ [weight]).sum w := by
    apply hshares
    rw [shares_snoc]
    exact List.mem_append_left _ (List.mem_map_of_mem hw)
  have hle := portion_mul_le hamount htotal (hfront w hw)
  have hproduct : 0 < amount * w := by
    have hpos := Int.mul_pos hportion htotal
    omega
  have hnonneg := hfront w hw
  by_contra hzero
  obtain rfl : w = 0 := by omega
  rw [Int.mul_zero] at hproduct
  omega

/-- With no empty share, all weights are positive exactly when the last branch earned its
share. -/
theorem weights_pos_iff (hamount : 0 ≤ amount) (htotal : 0 < weights.sum)
    (hweights : ∀ w ∈ weights, 0 ≤ w) (hshares : ∀ share ∈ shares amount weights, 0 < share) :
    (∀ w ∈ weights, 0 < w) ↔ RemainderEarned amount weights := by
  rcases List.eq_nil_or_concat weights with rfl | ⟨front, last, rfl⟩
  · exact absurd htotal (lt_irrefl _)
  rw [List.concat_eq_append] at *
  have hfront : ∀ w ∈ front, 0 ≤ w := fun w hw => hweights w (List.mem_append_left _ hw)
  have hpos := front_weights_pos hamount htotal hfront hshares
  constructor
  · intro hall front' last' hsplit
    obtain ⟨rfl, hlast⟩ := List.append_inj' hsplit rfl
    obtain rfl : last = last' := by simpa using hlast
    exact .inl (hall last (by simp))
  · intro hearned w hw
    rcases List.mem_append.mp hw with hw | hw
    · exact hpos w hw
    obtain rfl : w = last := List.mem_singleton.mp hw
    rcases hearned front w rfl with hlast | hnone
    · exact hlast
    -- nothing is left over, so the last share is exactly its proportion
    have hshare : 0 < amount - (front.map (portion amount (front.sum + w))).sum := by
      apply hshares
      rw [shares_snoc, List.sum_append, List.sum_singleton]
      exact List.mem_append_right _ (List.mem_singleton_self _)
    have hscaled := last_share w hamount hfront
    rw [List.sum_append, List.sum_singleton] at hnone htotal
    rw [hnone, Int.add_zero] at hscaled
    have hproduct := Int.mul_pos htotal hshare
    rw [hscaled] at hproduct
    have hnonneg := hweights w (by simp)
    by_contra hzero
    obtain rfl : w = 0 := by omega
    rw [Int.mul_zero] at hproduct
    omega

end

end Split
