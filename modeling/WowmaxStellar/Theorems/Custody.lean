import WowmaxStellar.Logic.Calls
import WowmaxStellar.Logic.Desk

/-!
# Custody over whole histories

A history is any sequence of calls of the six entry points, by anyone and with any
arguments, with steps of the outside world in between that leave the executor's
balances where they are or raise them. Whatever the venues do, no call ever leaves the
executor below the balances it began with, and a call that returns pays the user
exactly what it returns.
-/

namespace WowmaxStellar

open Runs Flow

variable {V : Type}

/-- A call in a history: where and how it was made, and the world it began in. -/
structure CallEntry (V : Type) where
  env : Env V
  call : EntryCall
  before : World V

def CallEntry.invocation (entry : CallEntry V) : Invocation V :=
  entry.call.invoke entry.env entry.before

/-- The histories of a network, with their calls. The ledger time and the signers of
each call are free. -/
inductive History (net : Network V) (first : World V) : List (CallEntry V) → World V → Prop
  | start : History net first [] first
  | call {log : List (CallEntry V)} {world : World V} (init : History net first log world)
      (env : Env V) (same : env.toNetwork = net) (call : EntryCall) :
      History net first (log ++ [⟨env, call, world⟩]) (call.invoke env world).world
  | outside {log : List (CallEntry V)} {world : World V} (init : History net first log world)
      (next : World V) (raised : ∀ token,
        world.ledger.balance token net.contract ≤ next.ledger.balance token net.contract) :
      History net first log next

/-- The payout of an invocation that returned `out`: the one transfer out of the executor
that it made itself, and its last host call. -/
structure PaidOut (env : Env V) (call : EntryCall) (invocation : Invocation V) (out : Int) :
    Prop where
  last : ∃ (init : List Event) (prior : Ledger), invocation.trace =
      init ++ [.transfer call.tokenOut env.contract call.user out invocation.world.ledger] ∧
    prior.transfer call.tokenOut env.contract call.user out = .ok invocation.world.ledger ∧
    ∀ event ∈ init, ∀ token dst amount after,
      event ≠ .transfer token env.contract dst amount after
  min_le : (call.amountOutMin : Int) ≤ out
  pos : 0 < out

/-- What custody asks of one call. -/
structure CallEntry.Safe (entry : CallEntry V) : Prop where
  moments : ∀ event ∈ entry.invocation.trace, ∀ moment ∈ event.moments, ∀ token,
    entry.before.ledger.balance token entry.env.contract ≤
      moment.balance token entry.env.contract
  after : ∀ token, entry.before.ledger.balance token entry.env.contract ≤
    entry.invocation.world.ledger.balance token entry.env.contract
  settled : ∀ out, entry.invocation.result = .ok out →
    entry.invocation.world.ledger.balance entry.call.tokenOut entry.env.contract =
        entry.before.ledger.balance entry.call.tokenOut entry.env.contract ∧
      PaidOut entry.env entry.call entry.invocation out

section OneCall

variable {env : Env V} {call : EntryCall} {world : World V} {s0 s s' : State V}
  {legs : List Leg} {out : Int}

/-- The payout takes exactly the gain. -/
theorem Completed.balance_eq (h : Completed env call world s0 legs s out s') (t : Address) :
    s'.ledger.balance t env.contract =
      s.ledger.balance t env.contract - if t = call.tokenOut then out else 0 := by
  have hne : env.contract ≠ call.user :=
    fun heq => env.contract_unsigned (heq ▸ h.pulled.signed)
  obtain ⟨_, _, hbalance⟩ := Ledger.transfer_ok h.paid
  rw [hbalance, Ledger.share_of_ne hne, Ledger.share_holder]
  omega

theorem Completed.balance_tokenOut (h : Completed env call world s0 legs s out s') :
    s'.ledger.balance call.tokenOut env.contract =
      world.ledger.balance call.tokenOut env.contract := by
  have hbalance := h.balance_eq call.tokenOut
  rw [if_pos rfl] at hbalance
  have hout := h.out_eq
  omega

theorem Completed.base_le (h : Completed env call world s0 legs s out s') (t : Address) :
    world.ledger.balance t env.contract ≤ s'.ledger.balance t env.contract := by
  by_cases ht : t = call.tokenOut
  · rw [ht, h.balance_tokenOut]
  · have habove := h.journal.above h.pulled.above t
    rw [h.balance_eq, if_neg ht]
    simp only [EntryCall.scope] at habove
    omega

/-- Before the payout the executor transfers nothing of its own. -/
theorem Journal.no_payout {scope : Scope V} (h : Journal scope s0 legs s) (h0 : Quiet scope s0) :
    ∀ event ∈ s.trace, ∀ token dst amount after,
      event ≠ .transfer token scope.env.contract dst amount after := by
  induction h with
  | start =>
      intro event hmem token dst amount after heq
      rcases h0.events event hmem with ⟨_, _, hread⟩ | ⟨_, src, _, _, _, hsrc, hmove⟩
      · rw [heq] at hread
        cases hread
      · rw [heq] at hmove
        cases hmove
        exact hsrc rfl
  | read token init ih =>
      intro event hmem _ _ _ _ heq
      rcases List.mem_append.mp hmem with hmem | hmem
      · exact ih event hmem _ _ _ _ heq
      · rw [List.mem_singleton.mp hmem] at heq
        cases heq
  | leg init checked amount_pos covered ran ih =>
      intro event hmem _ _ _ _ heq
      rw [ran.trace] at hmem
      rcases List.mem_append.mp hmem with hmem | hmem
      · exact ih event hmem _ _ _ _ heq
      · subst heq
        simp at hmem

theorem Completed.moments (h : Completed env call world s0 legs s out s') :
    (call.scope env world).MomentsAbove s'.trace := by
  rw [h.trace]
  refine (h.journal.moments h.pulled.quiet.moments).append ?_
  intro event hmem moment hmoment t
  rw [List.mem_singleton.mp hmem] at hmoment
  rw [List.mem_singleton.mp hmoment]
  exact h.base_le t

theorem Completed.paidOut (h : Completed env call world s0 legs s out s')
    {invocation : Invocation V} (htrace : invocation.trace = s'.trace)
    (hworld : invocation.world.ledger = s'.ledger) : PaidOut env call invocation out where
  last := by
    refine ⟨s.trace, s.ledger, ?_, ?_, h.journal.no_payout h.pulled.quiet⟩
    · rw [htrace, hworld, h.trace]
    · rw [hworld]
      exact h.paid
  min_le := h.min_le
  pos := h.out_pos

end OneCall

/-- One call, from any world. -/
theorem CallEntry.safe (entry : CallEntry V) : entry.Safe := by
  have hpost := entry.call.run_post entry.env entry.before
  cases hrun : entry.call.run entry.env entry.before.start with
  | ok out s' =>
      obtain ⟨s0, legs, s, hcompleted⟩ := hpost.ok hrun
      have hinvoke : entry.invocation = ⟨.ok out, s'.world, s'.trace⟩ :=
        EntryCall.invoke_of_ok hrun
      refine ⟨?_, ?_, ?_⟩
      · rw [hinvoke]
        exact hcompleted.moments
      · rw [hinvoke]
        exact hcompleted.base_le
      · intro out' hresult
        rw [hinvoke] at hresult ⊢
        cases hresult
        exact ⟨hcompleted.balance_tokenOut, hcompleted.paidOut rfl rfl⟩
  | error panic s' =>
      obtain ⟨s0, hops, hquiet, _, hhalted⟩ := hpost.error hrun
      have hinvoke : entry.invocation = ⟨.error panic, entry.before, s'.trace⟩ :=
        EntryCall.invoke_of_error hrun
      refine ⟨?_, ?_, ?_⟩
      · rw [hinvoke]
        exact hhalted.moments hquiet.moments
      · rw [hinvoke]
        exact fun token => le_rfl
      · intro out' hresult
        rw [hinvoke] at hresult
        cases hresult

/-- **Custody.** In every history every call is safe, and over the whole history the
executor's balances never fall. -/
theorem custody {net : Network V} {first last : World V} {log : List (CallEntry V)}
    (h : History net first log last) :
    (∀ entry ∈ log, entry.Safe) ∧ ∀ token,
      first.ledger.balance token net.contract ≤ last.ledger.balance token net.contract := by
  refine ⟨fun entry _ => entry.safe, ?_⟩
  intro token
  induction h with
  | start => exact le_rfl
  | call init env same call ih =>
      rename_i world
      have hafter := (CallEntry.safe ⟨env, call, world⟩).after token
      simp only [same] at hafter
      exact ih.trans hafter
  | outside init next raised ih => exact ih.trans (raised token)

/-! ### Two trades at the desks

Between them somebody sends the executor 7 more units of token 11. -/

def deskDiamondCall : EntryCall := deskMerge deskStages

/-- The world the first trade leaves. -/
def deskTraded : World (Address → Nat) :=
  (deskDiamondCall.invoke deskEnv (deskWorld 5)).world

def deskDeposited : World (Address → Nat) where
  ledger := deskTraded.ledger.set ⟨11⟩ ⟨0⟩ 12 (by decide)
  venues := deskTraded.venues

theorem deskDeposited_raised (token : Address) :
    deskTraded.ledger.balance token deskEnv.contract ≤
      deskDeposited.ledger.balance token deskEnv.contract := by
  show _ ≤ if token = ⟨11⟩ ∧ deskEnv.contract = ⟨0⟩ then 12 else _
  split
  next h =>
    rw [h.1]
    decide +kernel
  next => exact le_rfl

def deskLog : List (CallEntry (Address → Nat)) :=
  [⟨deskEnv, deskDiamondCall, deskWorld 5⟩, ⟨deskEnv, deskDiamondCall, deskDeposited⟩]

theorem deskHistory : History deskEnv.toNetwork (deskWorld 5) deskLog
    (deskDiamondCall.invoke deskEnv deskDeposited).world := by
  have hfirst : History deskEnv.toNetwork (deskWorld 5) _ deskTraded :=
    History.start.call deskEnv rfl deskDiamondCall
  exact (hfirst.outside deskDeposited deskDeposited_raised).call deskEnv rfl deskDiamondCall

theorem custody_desk :
    (∀ entry ∈ deskLog, entry.Safe) ∧ ∀ token,
      (deskWorld 5).ledger.balance token deskEnv.contract ≤
        (deskDiamondCall.invoke deskEnv deskDeposited).world.ledger.balance token
          deskEnv.contract :=
  custody deskHistory

end WowmaxStellar
