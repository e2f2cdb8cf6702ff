import WowmaxStellar.Theorems.Custody
import WowmaxStellar.Logic.Desk

/-!
# What a plan can leave behind

A plan that returns has spent everything on its books, and pays out everything it
gained of `token_out`. What it does not see is a delivery of a token that is neither
the input nor the output of the edge being run. Such a delivery of a declared token
other than `token_out` stays with the executor, and nothing else does.
-/

namespace WowmaxStellar

open Runs Flow

variable {V : Type}

/-- The tokens a plan declares. -/
def EntryCall.Declares (t : Address) : EntryCall → Prop
  | .swap _ tokenIn tokenOut _ _ _ plan => t = tokenIn ∨ t = tokenOut ∨
      ∃ strand ∈ plan.val, ∃ hop ∈ strand.hops.val, t = hop.tokenIn ∨ t = hop.tokenOut
  | .swapMerge _ tokenIn tokenOut _ _ _ stages => t = tokenIn ∨ t = tokenOut ∨
      ∃ stage ∈ stages.val, t = stage.token ∨ ∃ fill ∈ stage.fills.val, t = fill.tokenOut
  | _ => False

/-- No declared token is left behind: the executor ends with no more than it had. -/
def CallEntry.NothingStranded (entry : CallEntry V) : Prop :=
  ∀ t, entry.call.Declares t →
    entry.invocation.world.ledger.balance t entry.env.contract ≤
      entry.before.ledger.balance t entry.env.contract

/-- No venue call raises a declared token that is neither `token_out` nor one of the two
tokens of its edge. -/
def CallEntry.NoStrayDelivery (entry : CallEntry V) : Prop :=
  ∀ delivery ∈ entry.call.edges.zip (venueRecords entry.invocation.trace), ∀ t,
    entry.call.Declares t → t ≠ entry.call.tokenOut → t ≠ delivery.1.tokenIn →
    t ≠ delivery.1.tokenOut →
    delivery.2.after.balance t entry.env.contract ≤
      delivery.2.before.balance t entry.env.contract

section Plans

variable {env : Env V} {call : EntryCall} {world : World V} {s0 s s' : State V}
  {legs : List Leg} {out : Int}

/-- A plan that returned has spent what was on its books, `token_out` aside. -/
theorem EntryCall.IsPlan.spent (hplan : call.IsPlan) (h : call.run env world.start = .ok out s') :
    ∃ s0 legs s, Completed env call world s0 legs s out s' ∧
      ∀ t, t ≠ call.tokenOut → holding call.opening (legs.map Leg.move) t = 0 := by
  cases call with
  | swap user tokenIn tokenOut amountIn amountOutMin deadline plan =>
      obtain ⟨s0, runs, s, hinv, _, hcompleted⟩ := swap_post.ok h
      refine ⟨s0, _, _, hcompleted, fun t hne => ?_⟩
      have hbooks := hinv.books t
      rw [if_neg (show ¬ t = tokenOut from hne), Int.sub_self] at hbooks
      exact hbooks.trans (by split <;> rfl)
  | swapMerge user tokenIn tokenOut amountIn amountOutMin deadline stages =>
      obtain ⟨s0, runs, avail, s, hinv, hzero, hcompleted⟩ := swapMerge_post.ok h
      refine ⟨s0, _, _, hcompleted, fun t hne => ?_⟩
      exact (hinv.books t).symm.trans (hzero t hne)
  | _ => exact hplan.elim

/-- What is left of a token is what was delivered on the side. -/
theorem Completed.left_behind (h : Completed env call world s0 legs s out s') {t : Address}
    (hne : t ≠ call.tokenOut) (hspent : holding call.opening (legs.map Leg.move) t = 0) :
    s'.ledger.balance t env.contract = world.ledger.balance t env.contract +
      (legs.map fun leg => sideDelivery env.contract leg.hop leg.record t).sum := by
  have hbalance := h.journal.balance_eq t
  have hstart := h.pulled.balance t
  have hpaid := h.balance_eq t
  rw [if_neg hne] at hpaid
  unfold holding at hbalance hspent
  simp only [EntryCall.scope] at hbalance
  omega

/-- A sum of non-negative deliveries is nothing exactly when each one is. -/
theorem sum_le_zero_iff (legs : List Leg) (f : Leg → Int) (hnonneg : ∀ leg ∈ legs, 0 ≤ f leg) :
    (legs.map f).sum ≤ 0 ↔ ∀ leg ∈ legs, f leg ≤ 0 := by
  induction legs with
  | nil => simp
  | cons leg rest ih =>
      have hrest := ih fun l hl => hnonneg l (List.mem_cons_of_mem leg hl)
      have hhead := hnonneg leg (List.mem_cons_self ..)
      have hsum : 0 ≤ (rest.map f).sum := by
        refine List.sum_nonneg ?_
        intro x hx
        obtain ⟨l, hl, rfl⟩ := List.mem_map.mp hx
        exact hnonneg l (List.mem_cons_of_mem leg hl)
      rw [List.map_cons, List.sum_cons, List.forall_mem_cons, ← hrest]
      omega

/-- Nothing is left of a token exactly when no leg delivered any on the side. -/
theorem Completed.nothing_left_iff (h : Completed env call world s0 legs s out s') {t : Address}
    (hne : t ≠ call.tokenOut) (hspent : holding call.opening (legs.map Leg.move) t = 0) :
    s'.ledger.balance t env.contract ≤ world.ledger.balance t env.contract ↔
      ∀ leg ∈ legs, sideDelivery env.contract leg.hop leg.record t ≤ 0 := by
  have hnone := sum_le_zero_iff legs (fun leg => sideDelivery env.contract leg.hop leg.record t)
    fun leg hleg => (h.journal.settled leg hleg).sideDelivery_nonneg t
  rw [← hnone, h.left_behind hne hspent]
  omega

/-- The edges of a call that returned, with their venue calls. -/
theorem Completed.zip_records (h : Completed env call world s0 legs s out s') :
    call.edges.zip (venueRecords s'.trace) = legs.map fun leg => (leg.hop, leg.record) := by
  rw [h.records, ← h.hops]
  exact List.zip_map' ..

end Plans

/-- **What is stranded.** A plan that returns leaves no declared token behind exactly when
no venue delivered one past the two tokens of its edge. -/
theorem nothing_stranded_iff {entry : CallEntry V} {out : Int} (hplan : entry.call.IsPlan)
    (h : entry.invocation.result = .ok out) :
    entry.NothingStranded ↔ entry.NoStrayDelivery := by
  obtain ⟨s', hrun⟩ := EntryCall.invoke_ok h
  obtain ⟨s0, legs, s, hcompleted, hspent⟩ := hplan.spent hrun
  unfold CallEntry.NothingStranded CallEntry.NoStrayDelivery CallEntry.invocation
  rw [EntryCall.invoke_of_ok hrun]
  show (∀ t, entry.call.Declares t → s'.ledger.balance t entry.env.contract ≤ _) ↔
    ∀ delivery ∈ entry.call.edges.zip (venueRecords s'.trace), _
  rw [hcompleted.zip_records]
  constructor
  · intro hnone delivery hmem t hdeclared hne hin hout
    obtain ⟨leg, hleg, rfl⟩ := List.mem_map.mp hmem
    have hzero := (hcompleted.nothing_left_iff hne (hspent t hne)).mp (hnone t hdeclared) leg hleg
    unfold sideDelivery at hzero
    rw [if_neg (by tauto)] at hzero
    show leg.record.after.balance t _ ≤ leg.record.before.balance t _
    omega
  · intro hnone t hdeclared
    by_cases hne : t = entry.call.tokenOut
    · -- the whole gain of the output was paid out
      rw [hne, hcompleted.balance_tokenOut]
    refine (hcompleted.nothing_left_iff hne (hspent t hne)).mpr fun leg hleg => ?_
    unfold sideDelivery
    split
    · exact le_rfl
    · rename_i hnot
      have hstray := hnone _ (List.mem_map_of_mem hleg) t hdeclared hne
        (fun h => hnot (.inl h)) (fun h => hnot (.inr h))
      simp only at hstray
      omega

/-- A desk at the last edge of a plan delivers some of the first token, too. -/
def strayEnv : Env (Address → Nat) :=
  { deskEnv with
    venue := fun trades ledger auths call =>
      let run := deskVenue trades ledger auths call
      if auths.any (·.token = ⟨11⟩) then
        { run with calls := run.calls ++ [.mint ⟨10⟩ ⟨0⟩ 5] }
      else run }

/-- Two hops, from 10 over 11 to 13. -/
def deskStrand : EntryCall :=
  .swap ⟨1⟩ ⟨10⟩ ⟨13⟩ (.ofUInt32 100) (.ofUInt32 90) 0
    (.single ⟨1, ⟨[deskHop 20 10 11, deskHop 22 11 13], by decide⟩⟩)

def deskEntry : CallEntry (Address → Nat) := ⟨deskEnv, deskStrand, deskWorld 0⟩

def strayEntry : CallEntry (Address → Nat) := ⟨strayEnv, deskStrand, deskWorld 0⟩

theorem nothing_stranded_iff_desk : deskEntry.NothingStranded ↔ deskEntry.NoStrayDelivery := by
  have hresult : deskEntry.invocation.result = .ok 100 := by decide +kernel
  exact nothing_stranded_iff trivial hresult

/-- The plan returns, and the stray delivery stays with the executor. -/
theorem stray_delivery_stranded :
    strayEntry.call.IsPlan ∧ strayEntry.invocation.result = .ok 100 ∧
      ¬ strayEntry.NothingStranded := by
  have hraised : ¬ strayEntry.invocation.world.ledger.balance ⟨10⟩ strayEntry.env.contract ≤
      strayEntry.before.ledger.balance ⟨10⟩ strayEntry.env.contract := by
    decide +kernel
  refine ⟨trivial, by decide +kernel, fun hnone => hraised (hnone ⟨10⟩ ?_)⟩
  exact .inl rfl

end WowmaxStellar
