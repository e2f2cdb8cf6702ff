import WowmaxStellar.Theorems.Custody

/-!
# The books of the accounts

What an account holds after any history of calls is what it held before, what happened outside
of the calls, what the venues moved in them, and what the calls it has signed itself have
pulled and paid. The executor moves nothing else, whoever calls it with whatever plan.

* `venueGain` — what the venue calls of a trace moved;
* `Completed.books` — one call that returned;
* `books_balance` — a history.
-/

namespace WowmaxStellar

open Runs

variable {V : Type} {token account : Address}

/-- What the venue calls of a trace brought to an account, on balance. -/
def venueGain (token account : Address) (trace : List Event) : Int :=
  ((venueRecords trace).map fun record =>
    record.after.balance token account - record.before.balance token account).sum

/-- What the executor itself did to an account in a call that returned: the pull and the
payout. A call that failed did nothing. -/
def CallEntry.settlement (entry : CallEntry V) (token account : Address) : Int :=
  match entry.invocation.result with
  | .error _ => 0
  | .ok out =>
      Ledger.share entry.call.tokenOut entry.call.user out token account -
        Ledger.share entry.call.tokenIn entry.call.user entry.call.amountIn token account

/-- What the venues did to it meanwhile. -/
def CallEntry.sideEffect (entry : CallEntry V) (token account : Address) : Int :=
  match entry.invocation.result with
  | .error _ => 0
  | .ok _ => venueGain token account entry.invocation.trace

/-- A history, and what `account` has gained of `token` outside of its calls. -/
inductive Observed (net : Network V) (token account : Address) (first : World V) :
    List (CallEntry V) → Int → World V → Prop
  | start : Observed net token account first [] 0 first
  | call {log : List (CallEntry V)} {gained : Int} {world : World V}
      (init : Observed net token account first log gained world) (env : Env V)
      (same : env.toNetwork = net) (call : EntryCall) :
      Observed net token account first (log ++ [⟨env, call, world⟩]) gained
        (call.invoke env world).world
  | outside {log : List (CallEntry V)} {gained : Int} {world : World V}
      (init : Observed net token account first log gained world) (next : World V) :
      Observed net token account first log
        (gained + (next.ledger.balance token account - world.ledger.balance token account)) next

/-- Every history is one of these, for whatever was gained outside. -/
theorem History.observed {net : Network V} {first last : World V} {log : List (CallEntry V)}
    (h : History net first log last) (token account : Address) :
    ∃ gained, Observed net token account first log gained last := by
  induction h with
  | start => exact ⟨0, .start⟩
  | call _ env same call ih =>
      obtain ⟨gained, h⟩ := ih
      exact ⟨gained, h.call env same call⟩
  | outside _ next _ ih =>
      obtain ⟨gained, h⟩ := ih
      exact ⟨_, h.outside next⟩

/-! ## One call -/

section OneCall

variable {scope : Scope V} {s0 s s' : State V} {legs : List Leg} {env : Env V} {call : EntryCall}
  {world : World V} {out : Int}

/-- Between pull and payout, a balance changes by the venue calls alone. -/
theorem Journal.venue_moves (h : Journal scope s0 legs s) (token account : Address) :
    s.ledger.balance token account = s0.ledger.balance token account +
      (legs.map fun leg => leg.record.after.balance token account -
        leg.record.before.balance token account).sum := by
  induction h with
  | start => simp
  | read token init ih => exact ih
  | leg init checked amount_pos covered ran ih =>
      obtain ⟨_, handed⟩ := ran.handed
      rw [List.map_append, List.sum_append, List.map_singleton, List.sum_singleton, ran.after,
        handed.before, ih]
      omega

/-- A call that returned has pulled its input and paid its output, and the venues have done the
rest. -/
theorem Completed.books (h : Completed env call world s0 legs s out s')
    (hne : account ≠ env.contract) :
    s'.ledger.balance token account = world.ledger.balance token account +
      (Ledger.share call.tokenOut call.user out token account -
        Ledger.share call.tokenIn call.user call.amountIn token account) +
      venueGain token account s'.trace := by
  obtain ⟨-, -, hpulled⟩ := Ledger.transfer_ok h.pulled.transfer
  obtain ⟨-, -, hpaid⟩ := Ledger.transfer_ok h.paid
  have hmoves := h.journal.venue_moves token account
  have hgain : venueGain token account s'.trace =
      (legs.map fun leg => leg.record.after.balance token account -
        leg.record.before.balance token account).sum := by
    unfold venueGain
    rw [h.records, List.map_map]
    rfl
  rw [hgain, hpaid, hmoves, hpulled, Ledger.share_of_ne hne, Ledger.share_of_ne hne]
  omega

end OneCall

/-- One call, whether it returned or not. -/
theorem CallEntry.books (entry : CallEntry V) (token : Address)
    (hne : account ≠ entry.env.contract) :
    entry.invocation.world.ledger.balance token account =
      entry.before.ledger.balance token account + entry.settlement token account +
        entry.sideEffect token account := by
  unfold CallEntry.settlement CallEntry.sideEffect
  have hpost := entry.call.run_post entry.env entry.before
  cases hrun : entry.call.run entry.env entry.before.start with
  | ok out s' =>
      obtain ⟨s0, legs, s, hcompleted⟩ := hpost.ok hrun
      have hinvoke : entry.invocation = ⟨.ok out, s'.world, s'.trace⟩ :=
        EntryCall.invoke_of_ok hrun
      rw [hinvoke]
      exact hcompleted.books hne
  | error panic s' =>
      have hinvoke : entry.invocation = ⟨.error panic, entry.before, s'.trace⟩ :=
        EntryCall.invoke_of_error hrun
      rw [hinvoke]
      simp

/-- The executor settles with the account that has signed the call, for its minimum at least. -/
structure CallEntry.SettlesFor (entry : CallEntry V) (account : Address) : Prop where
  user : entry.call.user = account
  signed : account ∈ entry.env.signers
  min_met : ∃ out, entry.invocation.result = .ok out ∧ (entry.call.amountOutMin : Int) ≤ out

theorem CallEntry.settles_of_ne_zero (entry : CallEntry V)
    (h : entry.settlement token account ≠ 0) : entry.SettlesFor account := by
  cases hresult : entry.invocation.result with
  | error panic =>
      unfold CallEntry.settlement at h
      rw [hresult] at h
      exact absurd rfl h
  | ok out =>
      obtain ⟨s, hrun⟩ := EntryCall.invoke_ok hresult
      obtain ⟨s0, legs, s1, hcompleted⟩ := (entry.call.run_post entry.env entry.before).ok hrun
      have huser : entry.call.user = account := by
        by_contra hne
        unfold CallEntry.settlement at h
        rw [hresult] at h
        simp only [Ledger.share_of_ne (Ne.symm hne), sub_zero, ne_eq, not_true_eq_false] at h
      exact ⟨huser, huser ▸ hcompleted.pulled.signed, out, hresult, hcompleted.min_le⟩

/-- A history, by its last step. -/
theorem Observed.balance {net : Network V} {first last : World V} {log : List (CallEntry V)}
    {gained : Int} (hne : account ≠ net.contract)
    (h : Observed net token account first log gained last) :
    last.ledger.balance token account = first.ledger.balance token account + gained +
      (log.map fun entry => entry.settlement token account).sum +
      (log.map fun entry => entry.sideEffect token account).sum := by
  induction h with
  | start => simp
  | call init env same call ih =>
      rename_i log gained world
      have hbooks := CallEntry.books ⟨env, call, world⟩ token (same ▸ hne)
      simp only [List.map_append, List.map_singleton, List.sum_append, List.sum_singleton]
      rw [show (call.invoke env world).world = (CallEntry.invocation ⟨env, call, world⟩).world
        from rfl, hbooks, ih]
      omega
  | outside init next ih =>
      omega

/-- **The books balance.** Over any history an account other than the executor's gains what it
gains outside of the calls, what the venues bring it in them, and the outputs of the calls it
has signed itself, less their inputs. -/
theorem books_balance {net : Network V} {first last : World V} {log : List (CallEntry V)}
    (hne : account ≠ net.contract) :
    (History net first log last → ∃ gained, Observed net token account first log gained last) ∧
      ∀ gained, Observed net token account first log gained last →
        last.ledger.balance token account = first.ledger.balance token account + gained +
            (log.map fun entry => entry.settlement token account).sum +
            (log.map fun entry => entry.sideEffect token account).sum ∧
          ∀ entry ∈ log, entry.settlement token account ≠ 0 → entry.SettlesFor account := by
  refine ⟨fun h => h.observed token account, fun gained h => ⟨h.balance hne, ?_⟩⟩
  exact fun entry _ => entry.settles_of_ne_zero

/-- The books of the account at address 1, over its two trades at the desks. -/
theorem books_balance_desk :
    (∃ gained, Observed deskEnv.toNetwork ⟨13⟩ ⟨1⟩ (deskWorld 5) deskLog gained
        (deskDiamondCall.invoke deskEnv deskDeposited).world) ∧
      ∀ gained, Observed deskEnv.toNetwork ⟨13⟩ ⟨1⟩ (deskWorld 5) deskLog gained
          (deskDiamondCall.invoke deskEnv deskDeposited).world →
        (deskDiamondCall.invoke deskEnv deskDeposited).world.ledger.balance ⟨13⟩ ⟨1⟩ =
            (deskWorld 5).ledger.balance ⟨13⟩ ⟨1⟩ + gained +
              (deskLog.map fun entry => entry.settlement ⟨13⟩ ⟨1⟩).sum +
              (deskLog.map fun entry => entry.sideEffect ⟨13⟩ ⟨1⟩).sum ∧
          ∀ entry ∈ deskLog, entry.settlement ⟨13⟩ ⟨1⟩ ≠ 0 → entry.SettlesFor ⟨1⟩ := by
  have hne : (⟨1⟩ : Address) ≠ deskEnv.toNetwork.contract := by decide
  exact ⟨(books_balance hne).1 deskHistory, (books_balance hne).2⟩

end WowmaxStellar
