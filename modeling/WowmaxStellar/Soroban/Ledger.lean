import WowmaxStellar.Soroban.Value
import Mathlib.Algebra.Order.Group.Int
import Mathlib.Tactic.SplitIfs

/-!
# The token ledger

Balances of every token for every holder, non-negative `i128` values by
construction, and the standard token operations: each moves exactly the stated
amount or fails.
-/

namespace WowmaxStellar

/-- Reasons for which the host or a token contract fails a call. -/
inductive HostError
  | unauthorized
  | negativeAmount
  | insufficientBalance
  | balanceOverflow
  | refused
  | trapped
  | badReply
deriving DecidableEq, Repr

/-- The balances of all tokens. No ledger holds a balance outside `0 ..= i128::MAX`. -/
@[ext] structure Ledger where
  balance : Address → Address → Int
  nonneg : ∀ token holder, 0 ≤ balance token holder
  le_max : ∀ token holder, balance token holder ≤ i128Max

namespace Ledger

/-- Nobody holds anything. -/
def empty : Ledger where
  balance _ _ := 0
  nonneg _ _ := le_rfl
  le_max _ _ := by decide

/-- Overwrite one balance. -/
def set (ledger : Ledger) (token holder : Address) (amount : Int)
    (hamount : 0 ≤ amount ∧ amount ≤ i128Max) : Ledger where
  balance t h := if t = token ∧ h = holder then amount else ledger.balance t h
  nonneg t h := by
    split
    · exact hamount.1
    · exact ledger.nonneg t h
  le_max t h := by
    split
    · exact hamount.2
    · exact ledger.le_max t h

/-- Take `amount` of `token` from `holder`. -/
def debit (ledger : Ledger) (token holder : Address) (amount : Int) :
    Except HostError Ledger :=
  if hneg : amount < 0 then .error .negativeAmount
  else if hlow : ledger.balance token holder < amount then .error .insufficientBalance
  else .ok (ledger.set token holder (ledger.balance token holder - amount)
    ⟨by omega, by have := ledger.le_max token holder; omega⟩)

/-- Add `amount` of `token` to `holder`. -/
def credit (ledger : Ledger) (token holder : Address) (amount : Int) :
    Except HostError Ledger :=
  if hneg : amount < 0 then .error .negativeAmount
  else if hhigh : i128Max < ledger.balance token holder + amount then .error .balanceOverflow
  else .ok (ledger.set token holder (ledger.balance token holder + amount)
    ⟨by have := ledger.nonneg token holder; omega, by omega⟩)

/-- `transfer` of a standard token: spend, then receive. -/
def transfer (ledger : Ledger) (token src dst : Address) (amount : Int) :
    Except HostError Ledger :=
  match ledger.debit token src amount with
  | .error e => .error e
  | .ok spent => spent.credit token dst amount

/-- `amount` when the balance of `token` held by `holder` is meant, else `0`. -/
def share (token holder : Address) (amount : Int) (t h : Address) : Int :=
  if t = token ∧ h = holder then amount else 0

@[simp] theorem share_self (token holder : Address) (amount : Int) :
    share token holder amount token holder = amount := by
  simp [share]

@[simp] theorem share_holder (token holder : Address) (amount : Int) (t : Address) :
    share token holder amount t holder = if t = token then amount else 0 := by
  simp [share]

theorem share_of_ne {holder h : Address} (hne : h ≠ holder) (token : Address) (amount : Int)
    (t : Address) : share token holder amount t h = 0 := by
  simp [share, hne]

theorem share_nonneg {amount : Int} (h0 : 0 ≤ amount) (token holder t h : Address) :
    0 ≤ share token holder amount t h := by
  unfold share
  split
  · exact h0
  · exact le_rfl

theorem share_mono {amount amount' : Int} (h : amount ≤ amount') (token holder t h' : Address) :
    share token holder amount t h' ≤ share token holder amount' t h' := by
  unfold share
  split
  · exact h
  · exact le_rfl

/-- A debit succeeds exactly on a non-negative amount that is covered. -/
theorem debit_ok_iff {ledger ledger' : Ledger} {token holder : Address} {amount : Int} :
    ledger.debit token holder amount = .ok ledger' ↔
      0 ≤ amount ∧ amount ≤ ledger.balance token holder ∧
        ∀ t h, ledger'.balance t h = ledger.balance t h - share token holder amount t h := by
  unfold debit
  by_cases hneg : amount < 0
  · rw [dif_pos hneg]
    constructor
    · intro h
      cases h
    · rintro ⟨h0, _⟩
      omega
  · rw [dif_neg hneg]
    by_cases hlow : ledger.balance token holder < amount
    · rw [dif_pos hlow]
      constructor
      · intro h
        cases h
      · rintro ⟨_, hcov, _⟩
        omega
    · rw [dif_neg hlow]
      constructor
      · intro h
        injection h with h
        subst h
        refine ⟨by omega, by omega, fun t h => ?_⟩
        simp only [set, share]
        split
        · rename_i heq
          rw [heq.1, heq.2]
        · omega
      · rintro ⟨_, _, hbal⟩
        congr 1
        ext t h
        rw [hbal t h]
        simp only [set, share]
        split
        · rename_i heq
          rw [heq.1, heq.2]
        · omega

/-- A credit succeeds exactly on a non-negative amount that leaves the balance an
`i128`. -/
theorem credit_ok_iff {ledger ledger' : Ledger} {token holder : Address} {amount : Int} :
    ledger.credit token holder amount = .ok ledger' ↔
      0 ≤ amount ∧ ledger.balance token holder + amount ≤ i128Max ∧
        ∀ t h, ledger'.balance t h = ledger.balance t h + share token holder amount t h := by
  unfold credit
  by_cases hneg : amount < 0
  · rw [dif_pos hneg]
    constructor
    · intro h
      cases h
    · rintro ⟨h0, _⟩
      omega
  · rw [dif_neg hneg]
    by_cases hhigh : i128Max < ledger.balance token holder + amount
    · rw [dif_pos hhigh]
      constructor
      · intro h
        cases h
      · rintro ⟨_, hfit, _⟩
        omega
    · rw [dif_neg hhigh]
      constructor
      · intro h
        injection h with h
        subst h
        refine ⟨by omega, by omega, fun t h => ?_⟩
        simp only [set, share]
        split
        · rename_i heq
          rw [heq.1, heq.2]
        · omega
      · rintro ⟨_, _, hbal⟩
        congr 1
        ext t h
        rw [hbal t h]
        simp only [set, share]
        split
        · rename_i heq
          rw [heq.1, heq.2]
        · omega

/-- A credit of a non-negative amount goes through or overflows. -/
theorem credit_cases (ledger : Ledger) (token holder : Address) {amount : Int} (h0 : 0 ≤ amount) :
    ledger.credit token holder amount = .error .balanceOverflow ∨
      ∃ ledger', ledger.credit token holder amount = .ok ledger' := by
  unfold credit
  rw [dif_neg (by omega)]
  split
  · exact .inl rfl
  · exact .inr ⟨_, rfl⟩

/-- A transfer that succeeds moves exactly the stated amount and nothing else. -/
theorem transfer_ok {ledger ledger' : Ledger} {token src dst : Address} {amount : Int}
    (hok : ledger.transfer token src dst amount = .ok ledger') :
    0 ≤ amount ∧ amount ≤ ledger.balance token src ∧
      ∀ t h, ledger'.balance t h =
        ledger.balance t h - share token src amount t h + share token dst amount t h := by
  unfold transfer at hok
  cases hspent : ledger.debit token src amount with
  | error e =>
      rw [hspent] at hok
      cases hok
  | ok spent =>
      rw [hspent] at hok
      obtain ⟨h0, hcov, hdebit⟩ := debit_ok_iff.mp hspent
      obtain ⟨_, _, hcredit⟩ := credit_ok_iff.mp hok
      exact ⟨h0, hcov, fun t h => by rw [hcredit t h, hdebit t h]⟩

/-- A transfer of what the sender holds goes through or overflows the receiver's balance. -/
theorem transfer_covered (ledger : Ledger) {token src : Address} (dst : Address) {amount : Int}
    (h0 : 0 ≤ amount) (hcovered : amount ≤ ledger.balance token src) :
    ledger.transfer token src dst amount = .error .balanceOverflow ∨
      ∃ ledger', ledger.transfer token src dst amount = .ok ledger' := by
  unfold transfer
  obtain ⟨paid, hpaid⟩ : ∃ paid, ledger.debit token src amount = .ok paid := by
    unfold debit
    rw [dif_neg (by omega), dif_neg (by omega)]
    exact ⟨_, rfl⟩
  rw [hpaid]
  exact paid.credit_cases token dst h0

end Ledger

end WowmaxStellar
