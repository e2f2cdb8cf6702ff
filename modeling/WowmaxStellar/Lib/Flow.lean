import Mathlib.Algebra.Order.BigOperators.Group.List
import Mathlib.Algebra.Order.Ring.Int
import Mathlib.Data.Finset.Basic
import Mathlib.Data.List.Induction
import Mathlib.Tactic.SplitIfs
import WowmaxStellar.Lib.Network

/-!
# Flows over accounts

A move takes an amount out of one account and brings another amount into another
account. Moves come in batches, each out of a single account. A batch that takes
everything its account holds *drains* it.

* `holding_append`, `holding_move` — what an account holds, move by move;
* `Drained.spent_eq_accrued` — when every batch drains its account, what a batch takes
  is what came in since the last batch of the same account;
* `Drained.no_late_gain` — an account that ends empty gets nothing after its last batch;
* `Drained.mem_funded_iff` — which accounts hold something, without their amounts.
-/

namespace Flow

open Networks

variable {κ : Type} [DecidableEq κ]

/-- `spent` goes out of `src`, `gained` comes into `dst`. -/
structure Move (κ : Type) where
  src : κ
  spent : Int
  dst : κ
  gained : Int

/-- The total taken out of `k`. -/
def spentOf (moves : List (Move κ)) (k : κ) : Int :=
  (moves.map fun move => if move.src = k then move.spent else 0).sum

/-- The total brought into `k`. -/
def gainedOf (moves : List (Move κ)) (k : κ) : Int :=
  (moves.map fun move => if move.dst = k then move.gained else 0).sum

/-- What `k` holds after the moves when it held `start k` before. -/
def holding (start : κ → Int) (moves : List (Move κ)) (k : κ) : Int :=
  start k + gainedOf moves k - spentOf moves k

section Holding

variable {start : κ → Int} {left right : List (Move κ)} {move : Move κ} {k : κ}

@[simp] theorem spentOf_nil : spentOf ([] : List (Move κ)) k = 0 := rfl

@[simp] theorem gainedOf_nil : gainedOf ([] : List (Move κ)) k = 0 := rfl

@[simp] theorem spentOf_append :
    spentOf (left ++ right) k = spentOf left k + spentOf right k := by
  simp [spentOf]

@[simp] theorem gainedOf_append :
    gainedOf (left ++ right) k = gainedOf left k + gainedOf right k := by
  simp [gainedOf]

@[simp] theorem spentOf_singleton :
    spentOf [move] k = if move.src = k then move.spent else 0 := by
  simp [spentOf]

@[simp] theorem gainedOf_singleton :
    gainedOf [move] k = if move.dst = k then move.gained else 0 := by
  simp [gainedOf]

@[simp] theorem holding_nil : holding start [] k = start k := by
  simp [holding]

theorem holding_append :
    holding start (left ++ right) k = holding (holding start left) right k := by
  unfold holding
  rw [gainedOf_append, spentOf_append]
  omega

/-- One more move. -/
theorem holding_move :
    holding start (left ++ [move]) k =
      holding start left k + (if move.dst = k then move.gained else 0) -
        (if move.src = k then move.spent else 0) := by
  unfold holding
  rw [gainedOf_append, spentOf_append, gainedOf_singleton, spentOf_singleton]
  omega

theorem gainedOf_nonneg (hpos : ∀ move ∈ left, 0 ≤ move.gained) : 0 ≤ gainedOf left k := by
  unfold gainedOf
  refine List.sum_nonneg ?_
  intro x hx
  obtain ⟨move, hmove, rfl⟩ := List.mem_map.mp hx
  split
  · exact hpos move hmove
  · exact le_rfl

/-- Moves with positive gains that bring nothing into `k` have no move into `k`. -/
theorem dst_ne_of_gainedOf_eq_zero (hpos : ∀ move ∈ left, 0 < move.gained)
    (hzero : gainedOf left k = 0) : ∀ move ∈ left, move.dst ≠ k := by
  induction left with
  | nil => simp
  | cons head tail ih =>
      have htail : 0 ≤ gainedOf tail k :=
        gainedOf_nonneg fun move h => (hpos move (List.mem_cons_of_mem head h)).le
      have hhead := hpos head (List.mem_cons_self ..)
      have hsplit : gainedOf (head :: tail) k =
          (if head.dst = k then head.gained else 0) + gainedOf tail k := by
        simp [gainedOf]
      intro move hmem
      rcases List.mem_cons.mp hmem with rfl | hmem
      · intro hdst
        rw [if_pos hdst] at hsplit
        omega
      · refine ih (fun m h => hpos m (List.mem_cons_of_mem head h)) ?_ move hmem
        split_ifs at hsplit <;> omega

/-- Moves with positive gains bring something into just the accounts they go to. -/
theorem gainedOf_pos_iff (hpos : ∀ move ∈ left, 0 < move.gained) :
    0 < gainedOf left k ↔ k ∈ left.map Move.dst := by
  have hnonneg : 0 ≤ gainedOf left k := gainedOf_nonneg fun move h => (hpos move h).le
  rw [List.mem_map]
  constructor
  · intro hgained
    by_contra hnone
    have hzero : gainedOf left k = 0 := by
      unfold gainedOf
      apply List.sum_eq_zero
      intro x hx
      obtain ⟨move, hmove, rfl⟩ := List.mem_map.mp hx
      exact if_neg fun hdst => hnone ⟨move, hmove, hdst⟩
    omega
  · rintro ⟨move, hmove, hdst⟩
    by_contra hgained
    have hzero : gainedOf left k = 0 := by omega
    exact dst_ne_of_gainedOf_eq_zero hpos hzero move hmove hdst

end Holding

/-! ## Batches -/

/-- The moves out of one account, made one after the other. -/
structure Batch (κ : Type) where
  src : κ
  moves : List (Move κ)

/-- All moves of a list of batches. -/
def allMoves (batches : List (Batch κ)) : List (Move κ) := batches.flatMap Batch.moves

omit [DecidableEq κ] in
@[simp] theorem allMoves_append (left right : List (Batch κ)) :
    allMoves (left ++ right) = allMoves left ++ allMoves right := List.flatMap_append

omit [DecidableEq κ] in
@[simp] theorem allMoves_cons (batch : Batch κ) (rest : List (Batch κ)) :
    allMoves (batch :: rest) = batch.moves ++ allMoves rest := List.flatMap_cons

omit [DecidableEq κ] in
@[simp] theorem allMoves_singleton (batch : Batch κ) : allMoves [batch] = batch.moves := by
  simp [allMoves]

/-- What has come into an account since its last batch. -/
def accrued (start : κ → Int) (batches : List (Batch κ)) : κ → Int :=
  batches.foldl (fun acc batch k => if k = batch.src then 0 else acc k + gainedOf batch.moves k)
    start

theorem accrued_append (start : κ → Int) (batches : List (Batch κ)) (batch : Batch κ) (k : κ) :
    accrued start (batches ++ [batch]) k =
      if k = batch.src then 0 else accrued start batches k + gainedOf batch.moves k := by
  unfold accrued
  rw [List.foldl_append]
  rfl

/-- A batch out of one account: every move leaves it for another account. -/
def Batch.Outgoing (batch : Batch κ) : Prop :=
  ∀ move ∈ batch.moves, move.src = batch.src ∧ move.dst ≠ batch.src

theorem Batch.Outgoing.spentOf_of_ne {batch : Batch κ} (h : batch.Outgoing) {k : κ}
    (hne : k ≠ batch.src) : spentOf batch.moves k = 0 := by
  unfold spentOf
  refine List.sum_eq_zero ?_
  intro x hx
  obtain ⟨move, hmove, rfl⟩ := List.mem_map.mp hx
  rw [if_neg]
  rw [(h move hmove).1]
  exact hne.symm

theorem Batch.Outgoing.gainedOf_src {batch : Batch κ} (h : batch.Outgoing) :
    gainedOf batch.moves batch.src = 0 := by
  unfold gainedOf
  refine List.sum_eq_zero ?_
  intro x hx
  obtain ⟨move, hmove, rfl⟩ := List.mem_map.mp hx
  rw [if_neg (h move hmove).2]

/-- Batches of other accounts take nothing. -/
theorem spentOf_allMoves_of_ne {batches : List (Batch κ)} {k : κ}
    (h : ∀ batch ∈ batches, batch.Outgoing ∧ k ≠ batch.src) : spentOf (allMoves batches) k = 0 := by
  induction batches with
  | nil => rfl
  | cons batch rest ih =>
      obtain ⟨houtgoing, hne⟩ := h batch (List.mem_cons_self ..)
      have hrest := ih fun b hb => h b (List.mem_cons_of_mem batch hb)
      rw [allMoves_cons, spentOf_append, hrest, houtgoing.spentOf_of_ne hne, Int.add_zero]

/-- Every batch leaves its account for others, and takes everything the account holds
when its turn comes. -/
def Drained (start : κ → Int) (batches : List (Batch κ)) : Prop :=
  ∀ before batch after, before ++ batch :: after = batches →
    batch.Outgoing ∧ spentOf batch.moves batch.src = holding start (allMoves before) batch.src

section Drained

variable {start : κ → Int} {batches before after : List (Batch κ)} {batch : Batch κ}

theorem Drained.nil : Drained start [] := by
  intro before batch after hsplit
  simp at hsplit

theorem Drained.snoc (h : Drained start batches) (houtgoing : batch.Outgoing)
    (hdrains : spentOf batch.moves batch.src = holding start (allMoves batches) batch.src) :
    Drained start (batches ++ [batch]) := by
  intro before last after hsplit
  rcases List.eq_nil_or_concat after with rfl | ⟨after', tail, rfl⟩
  · obtain ⟨rfl, hlast⟩ := List.append_inj' hsplit rfl
    cases hlast
    exact ⟨houtgoing, hdrains⟩
  · rw [List.concat_eq_append, ← List.cons_append, ← List.append_assoc] at hsplit
    exact h before last after' (List.append_inj' hsplit rfl).1

theorem Drained.init (h : Drained start (batches ++ [batch])) : Drained start batches := by
  intro before b after hsplit
  refine h before b (after ++ [batch]) ?_
  rw [← hsplit, List.append_assoc, List.cons_append]

theorem Drained.outgoing (h : Drained start batches) : ∀ b ∈ batches, b.Outgoing := by
  intro b hb
  obtain ⟨l, r, hlr⟩ := List.append_of_mem hb
  exact (h l b r hlr.symm).1

theorem accrued_eq_holding (h : Drained start batches) (k : κ) :
    accrued start batches k = holding start (allMoves batches) k := by
  induction batches using List.reverseRecOn generalizing k with
  | nil => simp [accrued, allMoves]
  | append_singleton batches batch ih =>
      obtain ⟨houtgoing, hdrains⟩ := h batches batch [] rfl
      rw [accrued_append, allMoves_append, allMoves_singleton, holding_append]
      by_cases hk : k = batch.src
      · subst hk
        rw [if_pos rfl]
        unfold holding at hdrains ⊢
        rw [houtgoing.gainedOf_src]
        omega
      · rw [if_neg hk, ih h.init]
        unfold holding
        rw [houtgoing.spentOf_of_ne hk]
        omega

/-- In drained batches each one takes what accrued since the last of its account. -/
theorem Drained.spent_eq_accrued (h : Drained start batches)
    (hsplit : before ++ batch :: after = batches) :
    spentOf batch.moves batch.src = accrued start before batch.src := by
  have hbefore : Drained start before := by
    intro b x a hsplit'
    refine h b x (a ++ batch :: after) ?_
    rw [← hsplit, ← hsplit', List.append_assoc, List.cons_append]
  rw [accrued_eq_holding hbefore]
  exact (h before batch after hsplit).2

/-- An account that only one batch drains spends what that batch does. -/
theorem Drained.spent_once (h : Drained start batches)
    (hsplit : before ++ batch :: after = batches)
    (honly : ∀ b ∈ before ++ after, b.src ≠ batch.src) :
    spentOf (allMoves batches) batch.src = spentOf batch.moves batch.src := by
  have hidle : ∀ bs : List (Batch κ), (∀ b ∈ bs, b ∈ before ++ after) →
      spentOf (allMoves bs) batch.src = 0 := by
    intro bs hbs
    refine spentOf_allMoves_of_ne fun b hb => ⟨h.outgoing b ?_, (honly b (hbs b hb)).symm⟩
    rw [← hsplit]
    exact List.mem_append.mpr ((List.mem_append.mp (hbs b hb)).imp id (List.mem_cons_of_mem _))
  rw [← hsplit, allMoves_append, allMoves_cons, spentOf_append, spentOf_append,
    hidle before fun b hb => List.mem_append_left _ hb,
    hidle after fun b hb => List.mem_append_right _ hb]
  omega

/-- After the last batch of an account that ends empty, nothing comes into it. -/
theorem Drained.no_late_gain (h : Drained start batches)
    (hsplit : before ++ batch :: after = batches) (honly : ∀ b ∈ after, b.src ≠ batch.src)
    (hempty : holding start (allMoves batches) batch.src = 0)
    (hpos : ∀ move ∈ allMoves after, 0 < move.gained) :
    ∀ move ∈ allMoves after, move.dst ≠ batch.src := by
  obtain ⟨houtgoing, hdrains⟩ := h before batch after hsplit
  have hspent : spentOf (allMoves after) batch.src = 0 := by
    refine spentOf_allMoves_of_ne fun b hb => ⟨h.outgoing b ?_, (honly b hb).symm⟩
    rw [← hsplit]
    exact List.mem_append_right _ (List.mem_cons_of_mem _ hb)
  have hmoves : allMoves batches = allMoves before ++ (batch.moves ++ allMoves after) := by
    rw [← hsplit, allMoves_append]
    rfl
  refine dst_ne_of_gainedOf_eq_zero hpos ?_
  rw [hmoves] at hempty
  unfold holding at hdrains hempty
  rw [gainedOf_append, gainedOf_append, spentOf_append, spentOf_append,
    houtgoing.gainedOf_src] at hempty
  omega

/-- A batch uses up the account it drains and brings in those it feeds. -/
def batchWiring : Wiring (Batch κ) κ where
  src := Batch.src
  outs batch := (batch.moves.map Move.dst).toFinset

/-- The funded accounts, batch by batch. -/
def funded (live : Finset κ) (batches : List (Batch κ)) : Finset κ :=
  batchWiring.liveAfter live batches

theorem mem_funded_append {live : Finset κ} {k : κ} :
    k ∈ funded live (batches ++ [batch]) ↔
      (k ≠ batch.src ∧ k ∈ funded live batches) ∨ k ∈ batch.moves.map Move.dst := by
  unfold funded
  rw [Wiring.liveAfter_concat, Wiring.mem_advance]
  exact or_congr_right List.mem_toFinset

/-- In drained batches with positive gains the funded accounts are those that hold something. -/
theorem Drained.mem_funded_iff {live : Finset κ} (h : Drained start batches)
    (hpos : ∀ move ∈ allMoves batches, 0 < move.gained) (hstart : ∀ k, 0 ≤ start k)
    (hlive : ∀ k, k ∈ live ↔ 0 < start k) (k : κ) :
    0 ≤ holding start (allMoves batches) k ∧
      (k ∈ funded live batches ↔ 0 < holding start (allMoves batches) k) := by
  induction batches using List.reverseRecOn generalizing k with
  | nil =>
      simp only [allMoves, List.flatMap_nil, holding_nil]
      exact ⟨hstart k, hlive k⟩
  | append_singleton batches batch ih =>
      obtain ⟨houtgoing, hdrains⟩ := h batches batch [] rfl
      rw [allMoves_append, allMoves_singleton] at hpos
      have hbatch : ∀ move ∈ batch.moves, 0 < move.gained := fun move hmove =>
        hpos move (List.mem_append_right _ hmove)
      obtain ⟨hnonneg, hfunded⟩ := ih h.init (fun move hmove =>
        hpos move (List.mem_append_left _ hmove)) k
      have hgained := gainedOf_nonneg (k := k) fun move hmove => (hbatch move hmove).le
      rw [mem_funded_append, ← gainedOf_pos_iff hbatch, allMoves_append, allMoves_singleton,
        holding_append, hfunded]
      by_cases hk : k = batch.src
      · -- the account the batch drains
        subst hk
        have hnone := houtgoing.gainedOf_src
        have hempty : holding (holding start (allMoves batches)) batch.moves batch.src = 0 := by
          unfold holding at hdrains ⊢
          omega
        rw [hempty, hnone]
        simp
      · -- any other keeps what it held and may be fed
        have hkept := houtgoing.spentOf_of_ne hk
        have hholding : holding (holding start (allMoves batches)) batch.moves k =
            holding start (allMoves batches) k + gainedOf batch.moves k := by
          show holding start (allMoves batches) k + gainedOf batch.moves k -
            spentOf batch.moves k = _
          omega
        rw [hholding]
        constructor
        · omega
        · constructor
          · rintro (⟨-, hheld⟩ | hheld) <;> omega
          · intro hheld
            by_cases hheld' : 0 < holding start (allMoves batches) k
            · exact .inl ⟨hk, hheld'⟩
            · exact .inr (by omega)

end Drained

end Flow
