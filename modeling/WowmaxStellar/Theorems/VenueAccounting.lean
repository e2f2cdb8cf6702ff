import WowmaxStellar.Theorems.Custody
import WowmaxStellar.Logic.Desk

/-!
# Venue calls against the accounting around them

Whatever the entry point and whatever the venues answer, a venue call is preceded by
exactly one authorisation: for the token whose consumption is read next, to the pull
target of the edge, for the amount of the call itself. The routing data inside the call
is another matter: the plan executors check it on every edge, the single-purpose entry
points pass it on as they got it.
-/

namespace WowmaxStellar

open Runs

variable {V : Type}

/-- The amount a venue call names. -/
def VenueCall.amount : VenueCall → Int
  | .swapExactTokensForTokens _ amountIn .. => amountIn
  | .swapChained _ _ _ _ inAmount _ => inAmount
  | .swap _ _ _ offerAmount .. => offerAmount

/-- Where the venue behind a call of `hop` pulls its input to. -/
def VenueCall.pullsTo (hop : Hop) : VenueCall → Address
  | .swapExactTokensForTokens .. => hop.pool
  | .swapChained router .. => router
  | .swap pool .. => pool

/-- The routing data of a call agrees with the tokens measured around it. -/
def VenueCall.RoutingAgrees (tokenIn tokenOut : Address) : VenueCall → Prop
  | .swapExactTokensForTokens _ _ _ path _ _ =>
      path.val.head? = some tokenIn ∧ path.val.getLast? = some tokenOut
  | .swapChained _ _ chain _ _ _ => ∀ step ∈ chain,
      step.1.val = [tokenIn, tokenOut] ∨ step.1.val = [tokenOut, tokenIn]
  | .swap .. => True

/-- The routing data of an edge agrees with its tokens. -/
def Hop.RoutingAgrees (hop : Hop) : Prop :=
  (hop.venue = 0 →
    hop.soroswapPath.val.head? = some hop.tokenIn ∧
      hop.soroswapPath.val.getLast? = some hop.tokenOut) ∧
  (hop.venue = 1 → hop.aquaPoolTokens.val = [hop.tokenIn, hop.tokenOut] ∨
    hop.aquaPoolTokens.val = [hop.tokenOut, hop.tokenIn])

/-- A venue call of `hop` with what came before and after it in the trace. -/
structure Accounted (env : Env V) (hop : Hop) (pre : List Event) (record : VenueRecord)
    (post : List Event) : Prop where
  authorized : ∃ init amount, 0 < amount ∧ record.call.amount = amount ∧
    pre = init ++ [.authorize [⟨hop.tokenIn, env.contract, hop.pullTarget, amount⟩]] ∧
    ∀ entries, init.getLast? ≠ some (.authorize entries)
  target : hop.pullTarget = record.call.pullsTo hop
  checked : post.take 2 <+:
    [.balance hop.tokenIn env.contract, .balance hop.tokenOut env.contract]

/-- Every venue call of the invocation is accounted for, on the edge it is made for. -/
def CallEntry.CallsAccounted (entry : CallEntry V) : Prop :=
  ∀ pre record post, entry.invocation.trace = pre ++ .invoke record :: post →
    ∃ hop, entry.call.edges[(venueRecords pre).length]? = some hop ∧
      Accounted entry.env hop pre record post

/-- … and its routing data agrees with the tokens measured around it. -/
def CallEntry.CallsAgree (entry : CallEntry V) : Prop :=
  ∀ pre record post, entry.invocation.trace = pre ++ .invoke record :: post →
    ∃ hop, entry.call.edges[(venueRecords pre).length]? = some hop ∧
      Accounted entry.env hop pre record post ∧
      record.call.RoutingAgrees hop.tokenIn hop.tokenOut

section Calls

variable {env : Env V} {hop : Hop} {amount : Int} {outMin : Option Int} {deadline : UInt64}

theorem Hop.call_amount (h0 : 0 ≤ amount) (hmax : amount ≤ i128Max) :
    (hop.call env amount outMin deadline).amount = amount := by
  unfold Hop.call
  split
  · rfl
  · split
    · exact asU128_of_nonneg h0 hmax
    · rfl

theorem Hop.call_pullsTo :
    hop.pullTarget = (hop.call env amount outMin deadline).pullsTo hop := by
  unfold Hop.call Hop.pullTarget
  by_cases h0 : hop.venue = 0
  · rw [if_pos h0, if_neg (by rw [h0]; decide)]
    rfl
  · rw [if_neg h0]
    split <;> rfl

theorem Hop.call_routingAgrees :
    (hop.call env amount outMin deadline).RoutingAgrees hop.tokenIn hop.tokenOut ↔
      hop.RoutingAgrees := by
  unfold Hop.call Hop.RoutingAgrees
  by_cases h0 : hop.venue = 0
  · rw [if_pos h0]
    simp [VenueCall.RoutingAgrees, h0]
  · rw [if_neg h0]
    by_cases h1 : hop.venue = 1
    · rw [if_pos h1]
      simp [VenueCall.RoutingAgrees, h1]
    · rw [if_neg h1]
      simp [VenueCall.RoutingAgrees, h0, h1]

end Calls

/-! ## Reading a trace -/

section Trace

variable {trace pre post tail : List Event} {record : VenueRecord}

/-- A venue call in an extended trace is an old one or one of the extension. -/
theorem invoke_append_cases (h : trace ++ tail = pre ++ .invoke record :: post) :
    (∃ rest, trace = pre ++ .invoke record :: rest ∧ post = rest ++ tail) ∨
      ∃ mid, pre = trace ++ mid ∧ tail = mid ++ .invoke record :: post := by
  rcases List.append_eq_append_iff.mp h with ⟨mid, hpre, htail⟩ | ⟨mid, htrace, htail⟩
  · exact .inr ⟨mid, hpre, htail⟩
  · cases mid with
    | nil =>
        rw [List.nil_append] at htail
        rw [List.append_nil] at htrace
        exact .inr ⟨[], by rw [htrace, List.append_nil], htail.symm⟩
    | cons event rest =>
        rw [List.cons_append] at htail
        injection htail with hevent hpost
        subst hevent
        exact .inl ⟨rest, htrace, hpost⟩

/-- The events of a leg hold one venue call, right after its authorisation. -/
theorem LegEvents.invoke {env : Env V} {deadline : UInt64} {hop : Hop} {amount : Int}
    {ledger : Ledger} {mid : List Event}
    (h : LegEvents env deadline hop amount ledger tail)
    (hsplit : tail = mid ++ .invoke record :: post) :
    mid = [.authorize record.auths] ∧ hop.Handed env deadline amount ledger record ∧
      post.take 2 <+:
        [.balance hop.tokenIn env.contract, .balance hop.tokenOut env.contract] := by
  have hmid : ∀ {r : VenueRecord} (rest : List Event),
      (∀ r', .invoke r' ∉ rest) →
      [Event.authorize r.auths, .invoke r] ++ rest = mid ++ .invoke record :: post →
      mid = [.authorize r.auths] ∧ record = r ∧ post = rest := by
    intro r rest hrest heq
    rcases mid with _ | ⟨first, _ | ⟨second, mid⟩⟩
    · simp at heq
    · simp only [List.cons_append, List.nil_append, List.cons.injEq, Event.invoke.injEq] at heq
      exact ⟨by rw [heq.1], heq.2.1.symm, heq.2.2.symm⟩
    · simp only [List.cons_append, List.nil_append, List.cons.injEq] at heq
      refine absurd ?_ (hrest record)
      rw [heq.2.2]
      simp
  cases h with
  | called handed =>
      obtain ⟨rfl, rfl, rfl⟩ := hmid [] (by simp) hsplit
      exact ⟨rfl, handed, List.nil_prefix⟩
  | checked handed =>
      obtain ⟨rfl, rfl, rfl⟩ := hmid [_] (by simp) hsplit
      exact ⟨rfl, handed, ⟨[_], rfl⟩⟩
  | measured handed =>
      obtain ⟨rfl, rfl, rfl⟩ := hmid [_, _] (by simp) hsplit
      exact ⟨rfl, handed, List.prefix_rfl⟩

end Trace

section Journals

variable {scope : Scope V} {s0 s : State V} {legs : List Leg}

/-- Between two legs no authorisation is open. -/
theorem Journal.last_event (h : Journal scope s0 legs s) (h0 : Quiet scope s0)
    (entries : List TransferAuth) : s.trace.getLast? ≠ some (.authorize entries) := by
  cases h with
  | start =>
      intro hlast
      rcases h0.events _ (List.mem_of_getLast? hlast) with ⟨_, _, h⟩ | ⟨_, _, _, _, _, _, h⟩ <;>
        cases h
  | read token init =>
      rw [State.served_trace, List.getLast?_append]
      simp
  | leg init checked amount_pos covered ran =>
      rw [ran.trace, List.getLast?_append]
      simp

/-- The venue call of a leg that starts where a journal ends. -/
theorem LegEvents.accounted {hop : Hop} {amount : Int} {tail mid post : List Event}
    {record : VenueRecord} (hjournal : Journal scope s0 legs s) (h0 : Quiet scope s0)
    (hbase : ∀ t, 0 ≤ scope.base t) (hpos : 0 < amount)
    (hcovered : scope.Covers hop.tokenIn amount s.ledger)
    (h : LegEvents scope.env scope.deadline hop amount s.ledger tail)
    (hsplit : tail = mid ++ .invoke record :: post) :
    (venueRecords (s.trace ++ mid)).length = legs.length ∧
      hop.Handed scope.env scope.deadline amount s.ledger record ∧
      Accounted scope.env hop (s.trace ++ mid) record post := by
  obtain ⟨rfl, ⟨outMin, handed⟩, hpost⟩ := h.invoke hsplit
  have hmax : amount ≤ i128Max := by
    have hcover := hcovered hop.tokenIn
    have hnonneg := hbase hop.tokenIn
    have hle := s.ledger.le_max hop.tokenIn scope.env.contract
    rw [if_pos rfl] at hcover
    omega
  refine ⟨?_, ⟨outMin, handed⟩, ?_⟩
  · rw [venueRecords_append, hjournal.records, h0.no_records, List.nil_append]
    simp [venueRecords, Event.record?]
  · exact
      { authorized := by
          refine ⟨s.trace, amount, hpos, ?_, by rw [handed.auths], hjournal.last_event h0⟩
          rw [handed.call]
          exact Hop.call_amount hpos.le hmax
        target := by rw [handed.call]; exact Hop.call_pullsTo
        checked := hpost }

/-- What holds of every venue call of a run on `hops`. -/
def TraceAccounted (scope : Scope V) (hops : List Hop) (trace : List Event)
    (checked : List Event → Hop → Prop) : Prop :=
  ∀ pre record post, trace = pre ++ .invoke record :: post →
    ∃ hop amount ledger, hops[(venueRecords pre).length]? = some hop ∧
      (scope.plan → hop.Routed) ∧
      hop.Handed scope.env scope.deadline amount ledger record ∧
      Accounted scope.env hop pre record post ∧ checked post hop

/-- The two readings that follow a completed leg. -/
def LegReadings (contract : Address) (post : List Event) (hop : Hop) : Prop :=
  post.take 2 = [.balance hop.tokenIn contract, .balance hop.tokenOut contract]

/-- Readings stay where they are when the trace grows. -/
theorem TraceAccounted.append {hops : List Hop} {trace : List Event} (more : List Hop)
    (tail : List Event) (h : TraceAccounted scope hops trace (LegReadings scope.env.contract))
    {pre rest : List Event} {record : VenueRecord}
    (htrace : trace = pre ++ .invoke record :: rest) :
    ∃ hop amount ledger, (hops ++ more)[(venueRecords pre).length]? = some hop ∧
      (scope.plan → hop.Routed) ∧
      hop.Handed scope.env scope.deadline amount ledger record ∧
      Accounted scope.env hop pre record (rest ++ tail) ∧
      LegReadings scope.env.contract (rest ++ tail) hop := by
  obtain ⟨hop, amount, ledger, hhop, hrouted, handed, haccounted, hread⟩ :=
    h pre record rest htrace
  have hlength : 2 ≤ rest.length := by
    have := congrArg List.length hread
    simp only [List.length_take, List.length_cons, List.length_nil] at this
    omega
  have hkeep : LegReadings scope.env.contract (rest ++ tail) hop := by
    unfold LegReadings at hread ⊢
    rw [List.take_append_of_le_length hlength, hread]
  refine ⟨hop, amount, ledger, ?_, hrouted, handed, ?_, hkeep⟩
  · rw [List.getElem?_append_left (List.getElem?_eq_some_iff.mp hhop).1]
    exact hhop
  · exact ⟨haccounted.authorized, haccounted.target, ⟨[], (List.append_nil _).trans hkeep⟩⟩

theorem Journal.accounted (h : Journal scope s0 legs s) (h0 : Quiet scope s0)
    (hbase : ∀ t, 0 ≤ scope.base t) :
    TraceAccounted scope (legs.map Leg.hop) s.trace (LegReadings scope.env.contract) := by
  induction h with
  | start =>
      intro pre record post htrace
      have hnone := h0.no_records
      rw [htrace] at hnone
      simp [venueRecords, Event.record?] at hnone
  | read token init ih =>
      intro pre record post htrace
      rcases invoke_append_cases htrace with ⟨rest, hold, rfl⟩ | ⟨mid, _, hnew⟩
      · have := ih.append [] [.balance token scope.env.contract] hold
        simpa using this
      · rcases mid with _ | ⟨_, _ | _⟩ <;> simp at hnew
  | leg init checked amount_pos covered ran ih =>
      rename_i legs s s' leg
      intro pre record post htrace
      rw [ran.trace] at htrace
      rw [List.map_append, List.map_singleton]
      -- the call is one of the legs before, or this leg's own
      rcases invoke_append_cases htrace with ⟨rest, hold, rfl⟩ | ⟨mid, rfl, hnew⟩
      · exact ih.append [leg.hop] _ hold
      · have hevents : LegEvents scope.env scope.deadline leg.hop leg.amount s.ledger _ :=
          .measured ran.handed
        obtain ⟨hcount, handed, haccounted⟩ :=
          LegEvents.accounted init h0 hbase amount_pos covered hevents hnew
        refine ⟨leg.hop, leg.amount, s.ledger, ?_, fun hplan => (checked hplan).1, handed,
          haccounted, ?_⟩
        · rw [hcount, List.getElem?_append_right (by simp)]
          simp
        · obtain ⟨hmid, _, _⟩ := hevents.invoke hnew
          rw [hmid] at hnew
          simp only [List.cons_append, List.nil_append, List.cons.injEq] at hnew
          unfold LegReadings
          rw [← hnew.2.2]
          rfl

theorem Halted.accounted {hops : List Hop} (h : Halted scope s0 hops s) (h0 : Quiet scope s0)
    (hbase : ∀ t, 0 ≤ scope.base t) :
    TraceAccounted scope hops s.trace fun _ _ => True := by
  cases h with
  | between journal trace =>
      intro pre record post htrace
      rw [trace] at htrace
      obtain ⟨hop, amount, ledger, hhop, hrouted, handed, haccounted, _⟩ :=
        journal.accounted h0 hbase pre record post htrace
      exact ⟨hop, amount, ledger, hhop, hrouted, handed, haccounted, trivial⟩
  | during journal routed amount_pos covered legEvents trace =>
      rename_i hop amount _
      intro pre record post htrace
      rw [trace] at htrace
      rcases invoke_append_cases htrace with ⟨rest, hold, rfl⟩ | ⟨mid, rfl, hnew⟩
      · obtain ⟨hop, amount, ledger, hhop, hrouted, handed, haccounted, _⟩ :=
          (journal.accounted h0 hbase).append [_] _ hold
        exact ⟨hop, amount, ledger, hhop, hrouted, handed, haccounted, trivial⟩
      · obtain ⟨hcount, handed, haccounted⟩ :=
          legEvents.accounted journal h0 hbase amount_pos covered hnew
        refine ⟨hop, amount, _, ?_, routed, handed, haccounted, trivial⟩
        rw [hcount, List.getElem?_append_right (by simp)]
        simp

theorem Completed.accounted {env : Env V} {call : EntryCall} {world : World V} {s' : State V}
    {out : Int} (h : Completed env call world s0 legs s out s') :
    TraceAccounted (call.scope env world) call.edges s'.trace fun _ _ => True := by
  intro pre record post htrace
  rw [h.trace] at htrace
  rcases invoke_append_cases htrace with ⟨rest, hold, rfl⟩ | ⟨mid, _, hnew⟩
  · obtain ⟨hop, amount, ledger, hhop, hrouted, handed, haccounted, _⟩ :=
      (h.journal.accounted h.pulled.quiet fun t => world.ledger.nonneg t _).append [] _ hold
    rw [List.append_nil, h.hops] at hhop
    exact ⟨hop, amount, ledger, hhop, hrouted, handed, haccounted, trivial⟩
  · rcases mid with _ | ⟨_, _ | _⟩ <;> simp at hnew

end Journals

/-- A routed edge has agreeing routing data. -/
theorem Hop.Routed.agrees {hop : Hop} (h : hop.Routed) : hop.RoutingAgrees := by
  rcases h with ⟨h0, hpath⟩ | ⟨h1, htokens⟩ | h2
  · refine ⟨fun _ => by rw [hpath]; exact ⟨rfl, rfl⟩, fun h1 => ?_⟩
    rw [h0] at h1
    exact absurd h1 (by decide)
  · refine ⟨fun h0 => ?_, fun _ => htokens⟩
    rw [h1] at h0
    exact absurd h0 (by decide)
  · refine ⟨fun h0 => ?_, fun h1 => ?_⟩
    · rw [h2] at h0
      exact absurd h0 (by decide)
    · rw [h2] at h1
      exact absurd h1 (by decide)

/-- Every invocation, returned or panicked. -/
theorem CallEntry.traceAccounted (entry : CallEntry V) :
    TraceAccounted (entry.call.scope entry.env entry.before) entry.call.edges
      entry.invocation.trace fun _ _ => True := by
  have hpost := entry.call.run_post entry.env entry.before
  cases hrun : entry.call.run entry.env entry.before.start with
  | ok out s' =>
      obtain ⟨s0, legs, s, hcompleted⟩ := hpost.ok hrun
      have htrace : entry.invocation.trace = s'.trace :=
        congrArg Invocation.trace (EntryCall.invoke_of_ok hrun)
      rw [htrace]
      exact hcompleted.accounted
  | error panic s' =>
      obtain ⟨s0, hops, hquiet, hinit, hhalted⟩ := hpost.error hrun
      have htrace : entry.invocation.trace = s'.trace :=
        congrArg Invocation.trace (EntryCall.invoke_of_error hrun)
      rw [htrace]
      intro pre record post hsplit
      obtain ⟨hop, amount, ledger, hhop, hrest⟩ :=
        hhalted.accounted hquiet (fun t => entry.before.ledger.nonneg t _) pre record post hsplit
      refine ⟨hop, amount, ledger, ?_, hrest⟩
      obtain ⟨more, hmore⟩ := hinit
      rw [← hmore, List.getElem?_append_left (List.getElem?_eq_some_iff.mp hhop).1]
      exact hhop

/-- The trace up to any of its venue calls. -/
theorem split_at_record {trace : List Event} {i : Nat} (h : i < (venueRecords trace).length) :
    ∃ pre record post, trace = pre ++ .invoke record :: post ∧ (venueRecords pre).length = i := by
  induction trace generalizing i with
  | nil => simp at h
  | cons event rest ih =>
      cases hrecord : event.record? with
      | none =>
          have hskip : venueRecords (event :: rest) = venueRecords rest := by
            simp [venueRecords, hrecord]
          rw [hskip] at h
          obtain ⟨pre, record, post, hsplit, hcount⟩ := ih h
          refine ⟨event :: pre, record, post, by rw [hsplit, List.cons_append], ?_⟩
          simpa [venueRecords, hrecord] using hcount
      | some first =>
          obtain rfl : event = .invoke first := by
            cases event <;> simp_all [Event.record?]
          cases i with
          | zero => exact ⟨[], first, rest, rfl, rfl⟩
          | succ i =>
              have hcons : venueRecords (.invoke first :: rest) = first :: venueRecords rest := rfl
              rw [hcons, List.length_cons] at h
              obtain ⟨pre, record, post, hsplit, hcount⟩ := ih (Nat.lt_of_succ_lt_succ h)
              refine ⟨.invoke first :: pre, record, post, by rw [hsplit, List.cons_append], ?_⟩
              simpa [venueRecords, Event.record?] using hcount

/-- The edges whose venue the invocation called. -/
def CallEntry.calledEdges (entry : CallEntry V) : List Hop :=
  entry.call.edges.take (venueRecords entry.invocation.trace).length

theorem CallEntry.callsAccounted (entry : CallEntry V) : entry.CallsAccounted := by
  intro pre record post hsplit
  obtain ⟨hop, _, _, hhop, _, _, haccounted, _⟩ := entry.traceAccounted pre record post hsplit
  exact ⟨hop, hhop, haccounted⟩

theorem CallEntry.callsAgree_of_edges {entry : CallEntry V}
    (h : ∀ hop ∈ entry.calledEdges, hop.RoutingAgrees) : entry.CallsAgree := by
  intro pre record post hsplit
  obtain ⟨hop, amount, ledger, hhop, _, ⟨outMin, handed⟩, haccounted, _⟩ :=
    entry.traceAccounted pre record post hsplit
  refine ⟨hop, hhop, haccounted, ?_⟩
  rw [handed.call, Hop.call_routingAgrees]
  refine h hop (List.mem_of_getElem? (i := (venueRecords pre).length) ?_)
  unfold CallEntry.calledEdges
  rw [List.getElem?_take_of_lt, hhop]
  rw [hsplit, venueRecords_append]
  simp [venueRecords, Event.record?]

theorem CallEntry.edges_agree {entry : CallEntry V} (h : entry.CallsAgree) :
    ∀ hop ∈ entry.calledEdges, hop.RoutingAgrees := by
  intro hop hmem
  obtain ⟨i, hi, hget⟩ := List.mem_iff_getElem.mp hmem
  unfold CallEntry.calledEdges at hi hget
  rw [List.length_take] at hi
  obtain ⟨pre, record, post, hsplit, rfl⟩ :=
    split_at_record (show i < (venueRecords entry.invocation.trace).length by omega)
  obtain ⟨hop', hhop', _, hagrees⟩ := h pre record post hsplit
  obtain ⟨hop'', _, _, hhop'', _, ⟨outMin, handed⟩, _, _⟩ :=
    entry.traceAccounted pre record post hsplit
  rw [List.getElem_take] at hget
  have hat : entry.call.edges[(venueRecords pre).length]? = some hop :=
    List.getElem?_eq_some_iff.mpr ⟨by omega, hget⟩
  obtain rfl : hop' = hop := Option.some.inj (hhop'.symm.trans hat)
  obtain rfl : hop'' = hop' := Option.some.inj (hhop''.symm.trans hat)
  rwa [handed.call, Hop.call_routingAgrees] at hagrees

/-- The plan executors check every edge before they call it. -/
theorem CallEntry.called_agree_of_plan {entry : CallEntry V} (hplan : entry.call.IsPlan) :
    entry.CallsAgree := by
  intro pre record post hsplit
  obtain ⟨hop, amount, ledger, hhop, hrouted, ⟨outMin, handed⟩, haccounted, _⟩ :=
    entry.traceAccounted pre record post hsplit
  refine ⟨hop, hhop, haccounted, ?_⟩
  rw [handed.call, Hop.call_routingAgrees]
  exact (hrouted hplan).agrees

/-- **Venue calls.** Every venue call is authorised and measured as it should be. Its
routing data agrees with the tokens measured around it in every call of the plan
executors, and otherwise exactly when the routing data of each edge called agrees with the
edge. -/
theorem venue_calls_match (entry : CallEntry V) :
    entry.CallsAccounted ∧ (entry.call.IsPlan → entry.CallsAgree) ∧
      (entry.CallsAgree ↔ ∀ hop ∈ entry.calledEdges, hop.RoutingAgrees) :=
  ⟨entry.callsAccounted, entry.called_agree_of_plan,
    entry.edges_agree, entry.callsAgree_of_edges⟩

/-- `swap_soroswap` from token 10 to token 13 with a path that starts at 12. -/
def mislabelled : CallEntry (Address → Nat) where
  env := deskEnv
  call := .swapSoroswap ⟨1⟩ ⟨30⟩ ⟨20⟩ ⟨10⟩ ⟨13⟩ (.ofUInt32 100) (.ofUInt32 90)
    (.pair ⟨12⟩ ⟨13⟩) 0
  before := deskWorld 0

/-- Token 10 is authorised and measured, and the router is asked to sell token 12. -/
theorem mislabelled_disagrees :
    mislabelled.invocation.result = .ok 100 ∧ ¬ mislabelled.CallsAgree := by
  refine ⟨by decide +kernel, fun hagree => ?_⟩
  have hcalled : (venueRecords mislabelled.invocation.trace).length = 1 := by decide +kernel
  have hmem : Hop.soroswap ⟨30⟩ ⟨20⟩ ⟨10⟩ ⟨13⟩ (.pair ⟨12⟩ ⟨13⟩) ∈ mislabelled.calledEdges := by
    unfold CallEntry.calledEdges
    rw [hcalled]
    exact List.mem_cons_self
  have hhead := ((CallEntry.edges_agree hagree _ hmem).1 rfl).1
  exact absurd hhead (by decide)

end WowmaxStellar
