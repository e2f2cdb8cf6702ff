import WowmaxStellar.Theorems.Provenance

/-!
# Flow conservation in `swap_merge`

What a successful run handed to venues and what it measured back are read off its venue
calls, one for each edge of the plan. Token by token the two sides balance, stage by
stage everything accrued goes out, and when no token is staged twice the stage list is
a topological order of the tokens it passes through.
-/

namespace WowmaxStellar

open Runs Flow

variable {V : Type}

/-- An edge and the record of its venue call as a move: what the executor authorised of
the input, and by how much the call raised its balance of the output. -/
def edgeMove (contract : Address) (hop : Hop) (record : VenueRecord) : Move Address where
  src := hop.tokenIn
  spent := pending record.auths hop.tokenIn
  dst := hop.tokenOut
  gained := record.after.balance hop.tokenOut contract -
    record.before.balance hop.tokenOut contract

/-- The total handed to venues out of `t`. -/
def handedOut (records : List VenueRecord) (t : Address) : Int :=
  (records.map fun record => pending record.auths t).sum

/-- The total of the measured outputs of the edges into `t`. -/
def measuredInto (contract : Address) (edges : List Hop) (records : List VenueRecord)
    (t : Address) : Int :=
  gainedOf ((edges.zip records).map fun call => edgeMove contract call.1 call.2) t

/-- The venue calls of a run, stage by stage. -/
def stageBatches (contract : Address) : List Stage → List VenueRecord → List (Batch Address)
  | [], _ => []
  | stage :: rest, records =>
      ⟨stage.token, (stage.edges.zip (records.take stage.edges.length)).map fun call =>
          edgeMove contract call.1 call.2⟩ ::
        stageBatches contract rest (records.drop stage.edges.length)

/-- The flow equations of a run of `swap_merge` with the venue calls `records`. -/
structure FlowConserved (env : Env V) (args : MergeArgs) (world : World V)
    (records : List VenueRecord) : Prop where
  /-- One venue call for each edge. -/
  calls : records.length = (mergeEdges args.stages.val).length
  /-- What goes out of a token is what was pulled in and measured into it. -/
  conserved : ∀ t, t ≠ args.tokenOut → handedOut records t =
    args.call.opening t + measuredInto env.contract (mergeEdges args.stages.val) records t
  /-- The tracked output is what came into `token_out` less what went out of it. -/
  tracked : ∀ start s, mergeStages env args args.stages.len world.start = .ok start s →
    start.2.amount args.tokenOut =
      measuredInto env.contract (mergeEdges args.stages.val) records args.tokenOut -
        handedOut records args.tokenOut
  /-- A stage hands out what accrued in its token since the last stage of that token. -/
  stagewise : ∀ before batch after,
    stageBatches env.contract args.stages.val records = before ++ batch :: after →
    spentOf batch.moves batch.src = accrued args.call.opening before batch.src
  /-- When no token is staged twice, producers come before the stage of their token. -/
  ordered : (args.stages.val.map Stage.token).Nodup →
    ∀ (i j : Nat) (stage producer : Stage) (fill : Fill),
    args.stages.val[i]? = some stage → stage.token ≠ args.tokenOut →
    args.stages.val[j]? = some producer → fill ∈ producer.fills.val →
    fill.tokenOut = stage.token → j < i
  /-- … and that stage splits everything that ever came into its token. -/
  pooled : (args.stages.val.map Stage.token).Nodup →
    ∀ (i : Nat) (stage : Stage) (batch : Batch Address),
    args.stages.val[i]? = some stage → stage.token ≠ args.tokenOut →
    (stageBatches env.contract args.stages.val records)[i]? = some batch →
    spentOf batch.moves stage.token = args.call.opening stage.token +
      measuredInto env.contract (mergeEdges args.stages.val) records stage.token

section Reading

variable {scope : Scope V} {legs : List Leg} {runs : List StageRun}

/-- A settled leg, read off its record. -/
theorem Leg.Settled.edgeMove {leg : Leg} (h : leg.Settled scope) :
    edgeMove scope.env.contract leg.hop leg.record = leg.move := by
  have hdelivered := h.delivered
  unfold WowmaxStellar.edgeMove Leg.move
  rw [h.auths, pending_singleton, if_pos rfl, hdelivered]
  congr 1
  omega

theorem zip_legs (legs : List Leg) :
    (legs.map Leg.hop).zip (legs.map Leg.record) = legs.map fun leg => (leg.hop, leg.record) :=
  List.zip_map' ..

theorem moves_of_legs (hsettled : ∀ leg ∈ legs, leg.Settled scope) :
    ((legs.map Leg.hop).zip (legs.map Leg.record)).map
      (fun call => edgeMove scope.env.contract call.1 call.2) = legs.map Leg.move := by
  rw [zip_legs, List.map_map]
  exact List.map_congr_left fun leg hleg => (hsettled leg hleg).edgeMove

theorem handedOut_of_legs (hsettled : ∀ leg ∈ legs, leg.Settled scope) (t : Address) :
    handedOut (legs.map Leg.record) t = spentOf (legs.map Leg.move) t := by
  unfold handedOut spentOf
  rw [List.map_map, List.map_map]
  refine congrArg List.sum (List.map_congr_left fun leg hleg => ?_)
  show pending leg.record.auths t = _
  rw [(hsettled leg hleg).auths, pending_singleton]
  rfl

theorem stageBatches_of_runs (hedges : ∀ run ∈ runs, run.legs.map Leg.hop = run.stage.edges)
    (hsettled : ∀ leg ∈ allLegs runs, leg.Settled scope) :
    stageBatches scope.env.contract (runs.map StageRun.stage) ((allLegs runs).map Leg.record) =
      runs.map StageRun.batch := by
  induction runs with
  | nil => rfl
  | cons run rest ih =>
      have hhead := hedges run (List.mem_cons_self ..)
      have hlegs : allLegs (run :: rest) = run.legs ++ allLegs rest := by
        simp [allLegs]
      have hlength : run.stage.edges.length = (run.legs.map Leg.record).length := by
        rw [← hhead, List.length_map, List.length_map]
      rw [hlegs] at hsettled ⊢
      have htail := ih (fun r hr => hedges r (List.mem_cons_of_mem run hr))
        fun leg hleg => hsettled leg (List.mem_append_right _ hleg)
      have hmoves := moves_of_legs fun leg hleg => hsettled leg (List.mem_append_left _ hleg)
      rw [List.map_cons, List.map_append, stageBatches, hlength, List.drop_left, List.take_left,
        htail, List.map_cons]
      congr 1
      unfold StageRun.batch
      rw [← hmoves, hhead]

end Reading

section Proof

variable {env : Env V} {args : MergeArgs} {world : World V} {out : Int}

/-- What a successful run establishes, on its own venue calls. -/
theorem merge_ok_runs
    (h : (args.call.invoke env world).result = .ok out) :
    ∃ start s s0 runs, mergeStages env args args.stages.len world.start = .ok start s ∧
      Pulled env args.call world s0 ∧
      MergeInv (args.call.scope env world) s0 args.call.opening runs args.stages.val start.2 s ∧
      (∀ t, t ≠ args.tokenOut → start.2.amount t = 0) ∧
      venueRecords (args.call.invoke env world).trace = (allLegs runs).map Leg.record := by
  obtain ⟨s', hrun⟩ := EntryCall.invoke_ok h
  obtain ⟨start, s, hstages, hrecords, hzero, -⟩ := swapMerge_returned hrun
  obtain ⟨s0, runs, hpulled, hinv⟩ := (mergeStages_post _).ok hstages
  rw [Vec.take_len] at hinv
  refine ⟨start, s, s0, runs, hstages, hpulled, hinv, hzero, ?_⟩
  rw [EntryCall.invoke_of_ok hrun]
  show venueRecords s'.trace = _
  rw [hrecords, hinv.journal.records, hpulled.quiet.no_records, List.nil_append]

end Proof

section StagedOnce

variable {scope : Scope V} {s0 s : State V} {start : Address → Int} {stages : List Stage}
  {runs before after : List StageRun} {run : StageRun} {avail : Avail}

/-- The run of the stage at `i`; when no token is staged twice the others are of other
tokens. -/
theorem MergeInv.run_at (h : MergeInv scope s0 start runs stages avail s) {i : Nat}
    {stage : Stage} (hi : stages[i]? = some stage) (hnodup : (stages.map Stage.token).Nodup) :
    ∃ before run after, before ++ run :: after = runs ∧ before.length = i ∧ run.stage = stage ∧
      ∀ r ∈ before ++ after, r.batch.src ≠ run.batch.src := by
  rw [← h.stages, List.getElem?_map, Option.map_eq_some_iff] at hi
  obtain ⟨run, hget, hstage⟩ := hi
  obtain ⟨before, after, hsplit, hlength⟩ := exists_split_at hget
  refine ⟨before, run, after, hsplit, hlength, hstage, ?_⟩
  intro r hr heq
  rw [← h.stages, ← hsplit, List.map_map, List.map_append, List.map_cons, List.nodup_middle,
    ← List.map_append] at hnodup
  exact (List.nodup_cons.mp hnodup).1 (List.mem_map.mpr ⟨r, hr, heq⟩)

/-- The run of a stage as a batch among the others. -/
theorem batches_split (hsplit : before ++ run :: after = runs) :
    before.map StageRun.batch ++ run.batch :: after.map StageRun.batch =
      runs.map StageRun.batch := by
  rw [← hsplit, List.map_append, List.map_cons]

/-- A fill of a stage brought something into its output. -/
theorem MergeInv.leg_of_fill (h : MergeInv scope s0 start runs stages avail s) (hrun : run ∈ runs)
    {fill : Fill} (hfill : fill ∈ run.stage.fills.val) :
    ∃ leg ∈ run.legs, leg.move.dst = fill.tokenOut := by
  have hmem : fill.toHop run.stage.token ∈ run.legs.map Leg.hop := by
    rw [h.edges run hrun]
    exact List.mem_map_of_mem hfill
  obtain ⟨leg, hleg, hhop⟩ := List.mem_map.mp hmem
  refine ⟨leg, hleg, ?_⟩
  show leg.hop.tokenOut = _
  rw [hhop]
  rfl

/-- No stage brings in its own token. -/
theorem MergeInv.not_produced_itself (h : MergeInv scope s0 start runs stages avail s)
    (hrun : run ∈ runs) : ∀ leg ∈ run.legs, leg.move.dst ≠ run.batch.src := by
  intro leg hleg
  have houtgoing := h.drained.outgoing run.batch (List.mem_map_of_mem hrun)
  exact (houtgoing leg.move (List.mem_map_of_mem hleg)).2

/-- What a stage behind the last one of a token brought into it would be left over. -/
theorem MergeInv.not_produced_later (h : MergeInv scope s0 start runs stages avail s)
    (hplan : scope.plan) (hsplit : before ++ run :: after = runs)
    (hothers : ∀ r ∈ before ++ after, r.batch.src ≠ run.batch.src)
    (hzero : avail.amount run.batch.src = 0) :
    ∀ r ∈ after, ∀ leg ∈ r.legs, leg.move.dst ≠ run.batch.src := by
  intro r hr leg hleg
  refine h.drained.no_late_gain (batches_split hsplit) ?_ ?_ ?_ leg.move ?_
  · intro batch hbatch
    obtain ⟨r', hr', rfl⟩ := List.mem_map.mp hbatch
    exact hothers r' (List.mem_append_right _ hr')
  · rw [allMoves_batches, ← h.books]
    exact hzero
  · intro move hmove
    rw [allMoves_batches] at hmove
    obtain ⟨late, hlate, rfl⟩ := List.mem_map.mp hmove
    obtain ⟨r', hr', hlate⟩ := List.mem_flatMap.mp hlate
    have hmem : r' ∈ runs := by
      rw [← hsplit]
      exact List.mem_append_right _ (List.mem_cons_of_mem _ hr')
    have hsettled := h.journal.settled late (List.mem_flatMap.mpr ⟨r', hmem, hlate⟩)
    exact (hsettled.checked hplan).2
  · rw [allMoves_batches]
    exact List.mem_map_of_mem (List.mem_flatMap.mpr ⟨r, hr, hleg⟩)

/-- The producers of a token come before its only stage. -/
theorem MergeInv.produced_before (h : MergeInv scope s0 start runs stages avail s)
    (hplan : scope.plan) (hnodup : (stages.map Stage.token).Nodup) {i j : Nat}
    {stage producer : Stage} {fill : Fill}
    (hi : stages[i]? = some stage) (hzero : avail.amount stage.token = 0)
    (hj : stages[j]? = some producer) (hfill : fill ∈ producer.fills.val)
    (htoken : fill.tokenOut = stage.token) : j < i := by
  obtain ⟨before, run, after, hsplit, rfl, rfl, hothers⟩ := h.run_at hi hnodup
  rw [← h.stages, List.getElem?_map, Option.map_eq_some_iff] at hj
  obtain ⟨r, hr, rfl⟩ := hj
  have hmem : r ∈ runs := List.mem_of_getElem? hr
  obtain ⟨leg, hleg, hdst⟩ := h.leg_of_fill hmem hfill
  rw [htoken] at hdst
  by_contra hle
  rcases Nat.eq_or_lt_of_le (Nat.le_of_not_lt hle) with heq | hlt
  · rw [← heq, ← hsplit, List.getElem?_append_right le_rfl, Nat.sub_self] at hr
    cases hr
    exact h.not_produced_itself hmem leg hleg hdst
  · have hafter : r ∈ after := by
      rw [← hsplit, List.getElem?_append_right hlt.le] at hr
      obtain ⟨d, hd⟩ : ∃ d, j - before.length = d + 1 := ⟨j - before.length - 1, by omega⟩
      rw [hd, List.getElem?_cons_succ] at hr
      exact List.mem_of_getElem? hr
    exact h.not_produced_later hplan hsplit hothers hzero r hafter leg hleg hdst

/-- The only stage of a token spends all that is spent of it. -/
theorem MergeInv.spent_once (h : MergeInv scope s0 start runs stages avail s)
    (hnodup : (stages.map Stage.token).Nodup) {i : Nat} {stage : Stage} {batch : Batch Address}
    (hi : stages[i]? = some stage) (hbatch : (runs.map StageRun.batch)[i]? = some batch) :
    spentOf ((allLegs runs).map Leg.move) stage.token = spentOf batch.moves stage.token := by
  obtain ⟨before, run, after, hsplit, rfl, rfl, hothers⟩ := h.run_at hi hnodup
  have hbatches := batches_split hsplit
  rw [← hbatches, List.getElem?_append_right (by rw [List.length_map]), List.length_map,
    Nat.sub_self] at hbatch
  cases hbatch
  have hspent := h.drained.spent_once hbatches fun batch hbatch => by
    rw [← List.map_append] at hbatch
    obtain ⟨r, hr, rfl⟩ := List.mem_map.mp hbatch
    exact hothers r hr
  rw [allMoves_batches] at hspent
  exact hspent

end StagedOnce

/-- **Flow conservation.** The equations hold of every call of `swap_merge` that
returns, from any world and whatever the venues did. -/
theorem flow_conservation {env : Env V} {args : MergeArgs} {world : World V} {out : Int}
    (h : (args.call.invoke env world).result = .ok out) :
    FlowConserved env args world (venueRecords (args.call.invoke env world).trace) := by
  obtain ⟨start, s, s0, runs, hrun, hpulled, hinv, hzero, hrecords⟩ := merge_ok_runs h
  have hsettled := hinv.journal.settled
  have hedges := hinv.hops
  have hmoves : ∀ t, measuredInto env.contract (mergeEdges args.stages.val)
      ((allLegs runs).map Leg.record) t = gainedOf ((allLegs runs).map Leg.move) t := by
    intro t
    unfold measuredInto
    rw [← hedges]
    exact congrArg (gainedOf · t) (moves_of_legs hsettled)
  have hhanded := handedOut_of_legs hsettled
  have hbatches : stageBatches env.contract args.stages.val ((allLegs runs).map Leg.record) =
      runs.map StageRun.batch := by
    rw [← hinv.stages]
    exact stageBatches_of_runs hinv.edges hsettled
  have hconserved : ∀ t, start.2.amount t = args.call.opening t +
      gainedOf ((allLegs runs).map Leg.move) t - spentOf ((allLegs runs).map Leg.move) t :=
    hinv.books
  rw [hrecords]
  refine
    { calls := by rw [List.length_map, ← hedges, List.length_map]
      conserved := ?_
      tracked := ?_
      stagewise := ?_
      ordered := ?_
      pooled := ?_ }
  · intro t hne
    have hbooks := hconserved t
    have hspent := hzero t hne
    rw [hhanded, hmoves]
    omega
  · intro start' s' hrun'
    rw [hrun] at hrun'
    cases hrun'
    have hbooks := hconserved args.tokenOut
    have hopening : args.call.opening args.tokenOut = 0 := hpulled.opening_tokenOut
    rw [hhanded, hmoves]
    omega
  · intro before batch after hsplit
    rw [hbatches] at hsplit
    exact hinv.drained.spent_eq_accrued hsplit.symm
  · intro hnodup i j stage producer fill hi hne hj hfill htoken
    exact hinv.produced_before trivial hnodup hi (hzero _ hne) hj hfill htoken
  · intro hnodup i stage batch hi hne hbatch
    rw [hbatches] at hbatch
    have hbooks := hconserved stage.token
    have hspent := hzero _ hne
    rw [← hinv.spent_once hnodup hi hbatch, hmoves]
    omega

/-- The diamond at the desks. -/
theorem flow_conservation_desk : FlowConserved deskEnv deskArgs (deskWorld 5)
    (venueRecords (deskArgs.call.invoke deskEnv (deskWorld 5)).trace) :=
  flow_conservation deskArgs_returns

end WowmaxStellar
