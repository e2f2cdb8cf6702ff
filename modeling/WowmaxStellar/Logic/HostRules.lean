import WowmaxStellar.Router.Edges
import Mathlib.Algebra.Order.BigOperators.Group.List
import Mathlib.Tactic.SplitIfs

/-!
# What a venue call can do to the executor

The host model at work: whatever a venue does, the executor's balances can only
rise, except that each pending authorisation may be used once.

* `tokenCall_floor`, `tokenCalls_floor` — one token call, and all of a venue's;
* `tokenCalls_last` — the ledger in which a venue's token calls end.
-/

namespace WowmaxStellar

open Runs

/-- What the pending authorisations still allow to be taken of `token`. -/
def pending (auths : List TransferAuth) (token : Address) : Int :=
  (auths.map fun auth => if auth.token = token then auth.amount else 0).sum

@[simp] theorem pending_singleton (auth : TransferAuth) (token : Address) :
    pending [auth] token = if auth.token = token then auth.amount else 0 := by
  simp [pending]

/-- Using an authorisation up takes its amount off. -/
theorem pending_erase {auths : List TransferAuth} {auth : TransferAuth} (hmem : auth ∈ auths)
    (token : Address) :
    pending auths token =
      (if auth.token = token then auth.amount else 0) + pending (auths.erase auth) token := by
  unfold pending
  rw [((List.perm_cons_erase hmem).map _).sum_eq, List.map_cons, List.sum_cons]

theorem pending_nonneg {auths : List TransferAuth} (hpos : ∀ auth ∈ auths, 0 ≤ auth.amount)
    (token : Address) : 0 ≤ pending auths token := by
  unfold pending
  refine List.sum_nonneg ?_
  intro x hx
  obtain ⟨auth, hauth, rfl⟩ := List.mem_map.mp hx
  split
  · exact hpos auth hauth
  · exact le_rfl

section TokenCalls

variable {contract : Address}

/-- One token call of a venue: the executor's balance of a token falls by no more
than the authorisation it uses up. -/
theorem tokenCall_floor {auths auths' : List TransferAuth} {ledger ledger' : Ledger}
    {call : TokenCall} (hok : tokenCall contract auths ledger call = .ok (auths', ledger')) :
    (∀ auth ∈ auths', auth ∈ auths) ∧
      ∀ token, ledger.balance token contract - pending auths token ≤
        ledger'.balance token contract - pending auths' token := by
  unfold tokenCall at hok
  cases call with
  | transfer token src dst amount =>
      dsimp only at hok
      split_ifs at hok with hsrc hmem
      · -- the pre-authorised transfer, which its authorisation pays for
        obtain ⟨moved, hmove, heq⟩ := map_eq_ok_iff.mp hok
        cases heq
        obtain ⟨h0, _, hbal⟩ := Ledger.transfer_ok hmove
        refine ⟨fun auth hauth => List.mem_of_mem_erase hauth, fun t => ?_⟩
        have hpend := pending_erase hmem t
        have hgain := Ledger.share_nonneg h0 token dst t contract
        subst hsrc
        rw [hbal t src, hpend, Ledger.share_holder]
        simp only [eq_comm (a := token)]
        split_ifs <;> omega
      · -- a transfer between other parties
        obtain ⟨moved, hmove, heq⟩ := map_eq_ok_iff.mp hok
        cases heq
        obtain ⟨h0, _, hbal⟩ := Ledger.transfer_ok hmove
        refine ⟨fun _ hauth => hauth, fun t => ?_⟩
        have hgain := Ledger.share_nonneg h0 token dst t contract
        rw [hbal t contract, Ledger.share_of_ne (fun h => hsrc h.symm)]
        omega
  | mint token dst amount =>
      obtain ⟨moved, hmove, heq⟩ := map_eq_ok_iff.mp hok
      cases heq
      obtain ⟨h0, _, hbal⟩ := Ledger.credit_ok_iff.mp hmove
      refine ⟨fun _ hauth => hauth, fun t => ?_⟩
      have hgain := Ledger.share_nonneg h0 token dst t contract
      rw [hbal t contract]
      omega
  | burn token src amount =>
      dsimp only at hok
      split_ifs at hok with hsrc
      obtain ⟨moved, hmove, heq⟩ := map_eq_ok_iff.mp hok
      cases heq
      obtain ⟨_, _, hbal⟩ := Ledger.debit_ok_iff.mp hmove
      refine ⟨fun _ hauth => hauth, fun t => ?_⟩
      rw [hbal t contract, Ledger.share_of_ne (fun h => hsrc h.symm)]
      omega

/-- A venue at any point of its call: the executor is short of no more than what it
authorised. -/
theorem tokenCalls_floor {auths : List TransferAuth} {ledger : Ledger}
    {calls : List TokenCall} (hpos : ∀ auth ∈ auths, 0 ≤ auth.amount) :
    ∀ moment ∈ (tokenCalls contract auths ledger calls).1, ∀ token,
      ledger.balance token contract - pending auths token ≤ moment.balance token contract := by
  induction calls generalizing auths ledger with
  | nil =>
      intro moment hmem
      simp [tokenCalls] at hmem
  | cons call rest ih =>
      intro moment hmem token
      cases hcall : tokenCall contract auths ledger call with
      | error e => simp [tokenCalls, hcall] at hmem
      | ok next =>
          obtain ⟨auths', ledger'⟩ := next
          obtain ⟨hsub, hfloor⟩ := tokenCall_floor hcall
          have hpos' : ∀ auth ∈ auths', 0 ≤ auth.amount := fun auth h => hpos auth (hsub auth h)
          have hstep := hfloor token
          simp only [tokenCalls, hcall, List.mem_cons] at hmem
          rcases hmem with rfl | hmem
          · have := pending_nonneg hpos' token
            omega
          · have := ih hpos' moment hmem token
            omega

/-- When no token call fails, the venue ends at the last ledger it passed through. -/
theorem tokenCalls_last {auths : List TransferAuth} {ledger ledger' : Ledger}
    {calls : List TokenCall} (hok : (tokenCalls contract auths ledger calls).2 = .ok ledger') :
    (tokenCalls contract auths ledger calls).1.getLast?.getD ledger = ledger' := by
  induction calls generalizing auths ledger with
  | nil =>
      simp only [tokenCalls, Except.ok.injEq] at hok
      simpa [tokenCalls] using hok
  | cons call rest ih =>
      cases hcall : tokenCall contract auths ledger call with
      | error e => simp [tokenCalls, hcall] at hok
      | ok next =>
          obtain ⟨auths', next'⟩ := next
          simp only [tokenCalls, hcall] at hok ⊢
          have h := ih hok
          rw [List.getLast?_cons]
          simpa using h

end TokenCalls

end WowmaxStellar
