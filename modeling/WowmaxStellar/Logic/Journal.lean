import WowmaxStellar.Lib.Flow
import WowmaxStellar.Logic.Leg

/-!
# Journals: the executor between the pull and the payout

Once the input is pulled, all a run does until the payout is to read balances and to
run legs. `Journal` is the relation of the states it can be in, with the legs it
completed; `Halted` is where it can be when it panics. Everything said of runs is
said of journals first.

* `Journal.covered` — the executor holds, over the untouched balances, at least what
  the legs leave on the books;
* `Journal.balance_eq` — its balances exactly;
* `Journal.moments`, `Halted.moments` — no moment is below the untouched balances;
* `Journal.runHop_post`, `Journal.runFill_post` — hops and fills extend the journal.
-/

namespace WowmaxStellar

open Runs Flow

variable {V : Type}

/-- What a run is judged against: its environment and deadline, the balances it must
not touch, and whether it executes a plan, each edge of which is checked and measured
on its own. -/
structure Scope (V : Type) where
  env : Env V
  deadline : UInt64
  base : Address → Int
  plan : Prop

/-- The executor holds `amount` of `token` on top of the untouched balances. -/
def Scope.Covers (scope : Scope V) (token : Address) (amount : Int) (ledger : Ledger) : Prop :=
  ∀ t, scope.base t + (if t = token then amount else 0) ≤ ledger.balance t scope.env.contract

/-- No ledger the trace passed through is below the untouched balances. -/
def Scope.MomentsAbove (scope : Scope V) (trace : List Event) : Prop :=
  ∀ event ∈ trace, ∀ moment ∈ event.moments, ∀ t,
    scope.base t ≤ moment.balance t scope.env.contract

/-- The states between pull and payout, with the legs completed since `s0`. -/
inductive Journal (scope : Scope V) (s0 : State V) : List Leg → State V → Prop
  | start : Journal scope s0 [] s0
  | read {legs : List Leg} {s : State V} (token : Address) (init : Journal scope s0 legs s) :
      Journal scope s0 legs (s.served (.balance token scope.env.contract))
  | leg {legs : List Leg} {s s' : State V} {leg : Leg} (init : Journal scope s0 legs s)
      (checked : scope.plan → leg.hop.Routed ∧ 0 < leg.out) (amount_pos : 0 < leg.amount)
      (covered : scope.Covers leg.hop.tokenIn leg.amount s.ledger)
      (ran : leg.Ran scope.env scope.deadline s s') : Journal scope s0 (legs ++ [leg]) s'

/-- Where a run can be when it panics: between two legs or in the middle of one. The
edges called so far come with it. -/
inductive Halted (scope : Scope V) (s0 : State V) : List Hop → State V → Prop
  | between {legs : List Leg} {s s' : State V} (journal : Journal scope s0 legs s)
      (trace : s'.trace = s.trace) : Halted scope s0 (legs.map Leg.hop) s'
  | during {legs : List Leg} {s s' : State V} {hop : Hop} {amount : Int} {events : List Event}
      (journal : Journal scope s0 legs s) (routed : scope.plan → hop.Routed)
      (amount_pos : 0 < amount)
      (covered : scope.Covers hop.tokenIn amount s.ledger)
      (legEvents : LegEvents scope.env scope.deadline hop amount s.ledger events)
      (trace : s'.trace = s.trace ++ events) : Halted scope s0 (legs.map Leg.hop ++ [hop]) s'

/-- The leg as a move of the books. -/
def Leg.move (leg : Leg) : Move Address :=
  ⟨leg.hop.tokenIn, leg.amount, leg.hop.tokenOut, leg.out⟩

/-- What a venue delivered of a token that is neither the input nor the output of its
edge. -/
def sideDelivery (contract : Address) (hop : Hop) (record : VenueRecord) (t : Address) : Int :=
  if t = hop.tokenIn ∨ t = hop.tokenOut then 0
  else record.after.balance t contract - record.before.balance t contract

/-- What the record of a completed leg shows of it. -/
structure Leg.Settled (scope : Scope V) (leg : Leg) : Prop where
  checked : scope.plan → leg.hop.Routed ∧ 0 < leg.out
  amount_pos : 0 < leg.amount
  out_nonneg : 0 ≤ leg.out
  auths : leg.record.auths =
    [⟨leg.hop.tokenIn, scope.env.contract, leg.hop.pullTarget, leg.amount⟩]
  taken : leg.record.after.balance leg.hop.tokenIn scope.env.contract =
    leg.record.before.balance leg.hop.tokenIn scope.env.contract - leg.amount
  delivered : leg.record.after.balance leg.hop.tokenOut scope.env.contract =
    leg.record.before.balance leg.hop.tokenOut scope.env.contract + leg.out
  raised : ∀ t, t ≠ leg.hop.tokenIn → leg.record.before.balance t scope.env.contract ≤
    leg.record.after.balance t scope.env.contract
  settled : ∃ outMin venues outcome, leg.hop.settle scope.env leg.amount outMin scope.deadline
    venues leg.record.before = .ok outcome ∧ outcome.1 = leg.record.after

/-- A leg takes its input and takes nothing of its output, so the two tokens differ. -/
theorem Leg.Settled.distinct {scope : Scope V} {leg : Leg} (h : leg.Settled scope) :
    leg.hop.tokenIn ≠ leg.hop.tokenOut := by
  intro heq
  have htaken := h.taken
  have hdelivered := h.delivered
  have hamount := h.amount_pos
  have hout := h.out_nonneg
  rw [← heq] at hdelivered
  omega

theorem Leg.Settled.sideDelivery_nonneg {scope : Scope V} {leg : Leg} (h : leg.Settled scope)
    (t : Address) : 0 ≤ sideDelivery scope.env.contract leg.hop leg.record t := by
  unfold sideDelivery
  split
  · exact le_rfl
  · rename_i hne
    have := h.raised t fun heq => hne (.inl heq)
    omega

section Journal

variable {scope : Scope V} {s0 s : State V} {legs : List Leg}

theorem Journal.settled (h : Journal scope s0 legs s) : ∀ leg ∈ legs, leg.Settled scope := by
  induction h with
  | start => simp
  | read token init ih => exact ih
  | leg init checked amount_pos covered ran ih =>
      intro leg hmem
      rcases List.mem_append.mp hmem with hmem | hmem
      · exact ih leg hmem
      · rw [List.mem_singleton.mp hmem]
        obtain ⟨outMin, handed⟩ := ran.handed
        exact
          { checked := checked
            amount_pos := amount_pos
            out_nonneg := ran.out_nonneg
            auths := handed.auths
            taken := by rw [ran.after, handed.before, ran.taken]
            delivered := by rw [ran.after, handed.before, ran.delivered]
            raised := by
              intro t hne
              rw [ran.after, handed.before]
              exact ran.raised t hne
            settled := by
              obtain ⟨outMin', outcome, hsettle, hledger⟩ := ran.settled
              rw [ran.after, handed.before]
              exact ⟨outMin', _, outcome, hsettle, hledger⟩ }

/-- The venue calls of the trace are the records of the legs. -/
theorem Journal.records (h : Journal scope s0 legs s) :
    venueRecords s.trace = venueRecords s0.trace ++ legs.map Leg.record := by
  induction h with
  | start => simp
  | read token init ih =>
      rw [State.served_trace, venueRecords_append, ih]
      exact List.append_nil _
  | leg init checked amount_pos covered ran ih =>
      rw [ran.trace, venueRecords_append, ih, List.map_append, List.append_assoc]
      rfl

/-- The executor's balances in full: where they started, what the books say, and what
venues delivered on the side. -/
theorem Journal.balance_eq (h : Journal scope s0 legs s) (t : Address) :
    s.ledger.balance t scope.env.contract =
      holding (fun t => s0.ledger.balance t scope.env.contract) (legs.map Leg.move) t +
        (legs.map fun leg => sideDelivery scope.env.contract leg.hop leg.record t).sum := by
  induction h with
  | start => simp
  | read token init ih =>
      rw [State.served_ledger]
      exact ih
  | leg init checked amount_pos covered ran ih =>
      rename_i legs s s' leg
      obtain ⟨outMin, handed⟩ := ran.handed
      have hsettled := (Journal.leg init checked amount_pos covered ran).settled leg (by simp)
      have hdistinct := hsettled.distinct
      have hstep : s'.ledger.balance t scope.env.contract =
          s.ledger.balance t scope.env.contract +
            (if leg.move.dst = t then leg.move.gained else 0) -
            (if leg.move.src = t then leg.move.spent else 0) +
            sideDelivery scope.env.contract leg.hop leg.record t := by
        unfold sideDelivery
        show _ = _ + (if leg.hop.tokenOut = t then leg.out else 0) -
          (if leg.hop.tokenIn = t then leg.amount else 0) + _
        rw [ran.after, handed.before]
        -- of its two tokens a leg moves what it measured; the rest is delivered on the side
        by_cases hin : t = leg.hop.tokenIn
        · subst hin
          rw [if_neg hdistinct.symm, if_pos rfl, if_pos (.inl rfl), ran.taken]
          omega
        · by_cases hout : t = leg.hop.tokenOut
          · subst hout
            rw [if_pos rfl, if_neg hdistinct, if_pos (.inr rfl), ran.delivered]
            omega
          · rw [if_neg (Ne.symm hout), if_neg (Ne.symm hin), if_neg (by tauto)]
            omega
      rw [List.map_append, List.map_append, List.sum_append, List.map_singleton,
        List.map_singleton, List.sum_singleton, holding_move, hstep, ih]
      omega

/-- What the books say is there. -/
theorem Journal.covered {start : Address → Int} (h : Journal scope s0 legs s)
    (hstart : ∀ t, scope.base t + start t ≤ s0.ledger.balance t scope.env.contract)
    (t : Address) :
    scope.base t + holding start (legs.map Leg.move) t ≤
      s.ledger.balance t scope.env.contract := by
  have hbalance := h.balance_eq t
  have hside : 0 ≤ (legs.map fun leg =>
      sideDelivery scope.env.contract leg.hop leg.record t).sum := by
    refine List.sum_nonneg ?_
    intro x hx
    obtain ⟨leg, hleg, rfl⟩ := List.mem_map.mp hx
    exact (h.settled leg hleg).sideDelivery_nonneg t
  have hstart := hstart t
  unfold holding at hbalance ⊢
  beta_reduce at hbalance
  omega

/-- Between two legs the executor has at least the untouched balances. -/
theorem Journal.above (h : Journal scope s0 legs s)
    (h0 : ∀ t, scope.base t ≤ s0.ledger.balance t scope.env.contract) (t : Address) :
    scope.base t ≤ s.ledger.balance t scope.env.contract := by
  induction h with
  | start => exact h0 t
  | read token init ih => exact ih
  | leg init checked amount_pos covered ran ih =>
      rename_i leg
      have hcover := covered t
      by_cases hin : t = leg.hop.tokenIn
      · subst hin
        rw [if_pos rfl] at hcover
        rw [ran.taken]
        omega
      · have hraised := ran.raised t hin
        rw [if_neg hin] at hcover
        omega

theorem Hop.Handed.moments {hop : Hop} {amount : Int} {ledger : Ledger} {record : VenueRecord}
    (h : hop.Handed scope.env scope.deadline amount ledger record)
    (hcovered : scope.Covers hop.tokenIn amount ledger) :
    ∀ moment ∈ record.moments, ∀ t, scope.base t ≤ moment.balance t scope.env.contract := by
  intro moment hmem t
  obtain ⟨outMin, handed⟩ := h
  have hfloor := handed.floor moment hmem t
  have hcover := hcovered t
  omega

theorem LegEvents.moments {hop : Hop} {amount : Int} {ledger : Ledger} {events : List Event}
    (h : LegEvents scope.env scope.deadline hop amount ledger events)
    (hcovered : scope.Covers hop.tokenIn amount ledger) : scope.MomentsAbove events := by
  intro event hmem moment hmoment
  cases h with
  | called handed =>
      have := handed.moments hcovered moment
      simp only [List.mem_cons, List.not_mem_nil, or_false] at hmem
      rcases hmem with rfl | rfl <;> simp_all [Event.moments]
  | checked handed =>
      have := handed.moments hcovered moment
      simp only [List.mem_cons, List.not_mem_nil, or_false] at hmem
      rcases hmem with rfl | rfl | rfl <;> simp_all [Event.moments]
  | measured handed =>
      have := handed.moments hcovered moment
      simp only [List.mem_cons, List.not_mem_nil, or_false] at hmem
      rcases hmem with rfl | rfl | rfl | rfl <;> simp_all [Event.moments]

theorem Scope.MomentsAbove.append {left right : List Event} (hl : scope.MomentsAbove left)
    (hr : scope.MomentsAbove right) : scope.MomentsAbove (left ++ right) := by
  intro event hmem
  rcases List.mem_append.mp hmem with hmem | hmem
  · exact hl event hmem
  · exact hr event hmem

theorem Journal.moments (h : Journal scope s0 legs s) (h0 : scope.MomentsAbove s0.trace) :
    scope.MomentsAbove s.trace := by
  induction h with
  | start => exact h0
  | read token init ih =>
      refine ih.append ?_
      intro event hmem moment hmoment
      rw [List.mem_singleton.mp hmem] at hmoment
      cases hmoment
  | leg init checked amount_pos covered ran ih =>
      rw [ran.trace]
      exact ih.append ((LegEvents.measured ran.handed).moments covered)

theorem Halted.moments {hops : List Hop} (h : Halted scope s0 hops s)
    (h0 : scope.MomentsAbove s0.trace) : scope.MomentsAbove s.trace := by
  cases h with
  | between journal trace =>
      rw [trace]
      exact journal.moments h0
  | during journal routed amount_pos covered legEvents trace =>
      rw [trace]
      exact (journal.moments h0).append (legEvents.moments covered)

end Journal

/-! ## Extending a journal -/

section Extend

variable {scope : Scope V} {s0 s : State V} {legs : List Leg} {hop : Hop} {amount : Int}
  {srcBefore outBefore : Int} {site : Guard}

/-- A leg extends the journal, or the run halts in it. The gain it returns is counted
from `outBefore`. -/
theorem Journal.measuredLeg_post {outMin : Option Int} (h : Journal scope s0 legs s) (hop : Hop)
    (hrouted : scope.plan → hop.Routed)
    (hmeasured : scope.plan → outBefore = s.ledger.balance hop.tokenOut scope.env.contract)
    (hpos : 0 < amount) (hdistinct : hop.tokenIn ≠ hop.tokenOut)
    (hcovered : scope.Covers hop.tokenIn amount s.ledger)
    (hsrc : srcBefore = s.ledger.balance hop.tokenIn scope.env.contract)
    (hout : 0 ≤ outBefore ∧ outBefore ≤ i128Max) :
    Post (measuredLeg scope.env hop amount outMin scope.deadline srcBefore outBefore site) s
      (fun gain s' => 0 < gain ∧
        gain = s'.ledger.balance hop.tokenOut scope.env.contract - outBefore ∧
        ∃ out record, (outBefore = s.ledger.balance hop.tokenOut scope.env.contract →
          out = gain) ∧ Journal scope s0 (legs ++ [⟨hop, amount, out, record⟩]) s')
      (fun panic s' => LegPanic site panic ∧
        Halted scope s0 (legs.map Leg.hop ++ [hop]) s') := by
  refine (WowmaxStellar.measuredLeg_post hpos.le hdistinct hsrc hout).mono ?_ ?_
  · rintro gain s' ⟨hgain, heq, out, record, ran⟩
    have hsame : outBefore = s.ledger.balance hop.tokenOut scope.env.contract → out = gain := by
      intro hbefore
      have hdelivered := ran.delivered
      simp only at hdelivered
      omega
    refine ⟨hgain, heq, out, record, hsame, .leg h ?_ hpos hcovered ran⟩
    intro hplan
    exact ⟨hrouted hplan, by rw [hsame (hmeasured hplan)]; exact hgain⟩
  · rintro panic s' ⟨hpanic, events, htrace, hevents⟩
    exact ⟨hpanic, .during h hrouted hpos hcovered hevents htrace⟩

/-- The panics of an edge of a plan. -/
def EdgePanic (site : Guard) (panic : Panic) : Prop :=
  LegPanic site panic ∨ ∃ guard, EdgeGuard guard ∧ panic = .guard guard

/-- An edge of a plan extends the journal by a leg, or the run halts. -/
theorem Journal.measuredEdge_post (h : Journal scope s0 legs s)
    (hdistinct : hop.tokenIn ≠ hop.tokenOut)
    (hcovered : 0 < amount → scope.Covers hop.tokenIn amount s.ledger)
    (hsrc : srcBefore = s.ledger.balance hop.tokenIn scope.env.contract)
    (hout : outBefore = s.ledger.balance hop.tokenOut scope.env.contract) :
    Post (measuredEdge scope.env scope.deadline hop amount srcBefore outBefore site) s
      (fun out s' => 0 < out ∧ ∃ record, Journal scope s0 (legs ++ [⟨hop, amount, out, record⟩]) s')
      (fun panic s' => EdgePanic site panic ∧
        ∃ hops, hops <+: legs.map Leg.hop ++ [hop] ∧ Halted scope s0 hops s') := by
  rcases measuredEdge_cases scope.env scope.deadline hop amount srcBefore outBefore site with
    ⟨hpos, hrouted, heq⟩ | ⟨_, guard, hguard, hrun⟩
  · rw [heq]
    refine (h.measuredLeg_post hop (fun _ => hrouted) (fun _ => hout) hpos hdistinct (hcovered hpos)
      hsrc (hout ▸ s.ledger.balance_bounds _ _)).mono ?_ ?_
    · rintro gain s' ⟨hgain, _, out, record, hsame, hjournal⟩
      rw [hsame hout] at hjournal
      exact ⟨hgain, record, hjournal⟩
    · exact fun panic s' hpanic => ⟨.inl hpanic.1, _, List.prefix_rfl, hpanic.2⟩
  · refine .of_error (hrun s) ⟨.inr ⟨guard, hguard, rfl⟩, _, ?_, .between h rfl⟩
    exact List.prefix_append _ _

theorem Journal.runHop_post (h : Journal scope s0 legs s)
    (hdistinct : hop.tokenIn ≠ hop.tokenOut)
    (hcovered : 0 < amount → scope.Covers hop.tokenIn amount s.ledger) :
    Post (runHop scope.env scope.deadline hop amount) s
      (fun out s' => 0 < out ∧ ∃ record, Journal scope s0 (legs ++ [⟨hop, amount, out, record⟩]) s')
      (fun panic s' => EdgePanic .hopNoOutput panic ∧
        ∃ hops, hops <+: legs.map Leg.hop ++ [hop] ∧ Halted scope s0 hops s') := by
  rw [runHop_eq]
  refine post_balance_bind (post_balance_bind ?_)
  exact ((h.read hop.tokenOut).read hop.tokenIn).measuredEdge_post hdistinct hcovered rfl rfl

theorem Journal.runFill_post {stageToken : Address} {fill : Fill}
    (h : Journal scope s0 legs s) (hdistinct : stageToken ≠ fill.tokenOut)
    (hcovered : 0 < amount → scope.Covers stageToken amount s.ledger) :
    Post (runFill scope.env scope.deadline stageToken fill amount) s
      (fun out s' => 0 < out ∧ ∃ record,
        Journal scope s0 (legs ++ [⟨fill.toHop stageToken, amount, out, record⟩]) s')
      (fun panic s' => EdgePanic .fillNoOutput panic ∧
        ∃ hops, hops <+: legs.map Leg.hop ++ [fill.toHop stageToken] ∧
          Halted scope s0 hops s') := by
  rw [runFill_eq]
  refine post_balance_bind (post_balance_bind ?_)
  exact ((h.read stageToken).read fill.tokenOut).measuredEdge_post hdistinct hcovered rfl rfl

end Extend

end WowmaxStellar
