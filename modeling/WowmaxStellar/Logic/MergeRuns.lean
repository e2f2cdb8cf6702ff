import WowmaxStellar.Logic.Journal
import WowmaxStellar.Logic.Shares

/-!
# Runs of `swap_merge`

The availability map is the books of the run: what was pulled in, plus what the legs
delivered, minus what they were handed.

* `fillStep_post`, `stageStep_post` — one fill, one stage;
* `stageLoop_post` — any number of stages;
* `deadEndCheck_eq` — what the dead-end check checks.
-/

namespace WowmaxStellar

open Runs Flow Split

variable {V : Type}

/-- Panics that no run reaches. -/
def Unreached (panic : Panic) : Prop :=
  panic = .overflow .add ∨ panic = .overflow .sub ∨ panic = .guard .accountingMismatch ∨
    panic = .guard .noOutput

/-- A run that panics halts somewhere along its edges, with one of the panics that do
occur. -/
def Stopped (scope : Scope V) (s0 : State V) (edges : List Hop) (panic : Panic)
    (s : State V) : Prop :=
  ¬ Unreached panic ∧ ∃ hops, hops <+: edges ∧ Halted scope s0 hops s

theorem Stopped.mono {scope : Scope V} {s0 s : State V} {edges edges' : List Hop}
    {panic : Panic} (h : Stopped scope s0 edges panic s) (hedges : edges <+: edges') :
    Stopped scope s0 edges' panic s := by
  obtain ⟨hpanic, hops, hhops, hhalted⟩ := h
  exact ⟨hpanic, hops, hhops.trans hedges, hhalted⟩

theorem Journal.stopped {scope : Scope V} {s0 s : State V} {legs : List Leg} {panic : Panic}
    {edges : List Hop} (h : Journal scope s0 legs s) (hpanic : ¬ Unreached panic)
    (hedges : legs.map Leg.hop <+: edges) : Stopped scope s0 edges panic s :=
  ⟨hpanic, _, hedges, .between h rfl⟩

theorem EdgePanic.reached {site : Guard} {panic : Panic} (h : EdgePanic site panic)
    (hsite : site = .hopNoOutput ∨ site = .fillNoOutput) : ¬ Unreached panic := by
  unfold Unreached
  rcases h with ((rfl | ⟨e, rfl⟩) | rfl | rfl) | ⟨guard, hguard, rfl⟩
  · simp
  · simp
  · simp
  · rcases hsite with rfl | rfl <;> simp
  · rintro (h | h | h | h) <;> cases h <;> exact absurd hguard (by decide)

/-- A run starts with `start` on the books and balances that are not its own. -/
structure Scope.Opened (scope : Scope V) (start : Address → Int) (s0 : State V) : Prop where
  base_nonneg : ∀ t, 0 ≤ scope.base t
  held : ∀ t, scope.base t + start t ≤ s0.ledger.balance t scope.env.contract

/-- The state of a stage on `stage.token` once the fills `done` are through: `legs` are
theirs, `before` is the map the stage started with. -/
structure FillInv (scope : Scope V) (s0 : State V) (earlier : List Leg) (stage : Stage)
    (before : Avail) (legs : List Leg) (done : List Fill) (acc : Int × Avail) (s : State V) :
    Prop where
  journal : Journal scope s0 (earlier ++ legs) s
  hops : legs.map Leg.hop = done.map (Fill.toHop stage.token)
  books : ∀ t, acc.2.amount t = holding before.amount (legs.map Leg.move) t
  nonneg : ∀ t, 0 ≤ acc.2.amount t
  some_pos : ∃ t, 0 < acc.2.amount t
  running : Allocated (before.amount stage.token) (weights (stage.fills.val.map Fill.parts))
    (weights (done.map Fill.parts)) acc.1
  left : acc.2.amount stage.token = before.amount stage.token - acc.1

section FillStep

variable {scope : Scope V} {s0 s : State V} {start : Address → Int} {earlier legs : List Leg}
  {stage : Stage} {before : Avail} {done rest : List Fill} {fill : Fill} {acc : Int × Avail}

/-- What the map shows is on the executor's account, over the untouched balances. -/
theorem FillInv.held (h : FillInv scope s0 earlier stage before legs done acc s)
    (hopened : scope.Opened start s0)
    (hbefore : ∀ t, before.amount t = holding start (earlier.map Leg.move) t) (t : Address) :
    scope.base t + acc.2.amount t ≤ s.ledger.balance t scope.env.contract := by
  have hcovered := h.journal.covered hopened.held t
  rw [List.map_append, holding_append] at hcovered
  have hbooks := h.books t
  rw [show before.amount = holding start (earlier.map Leg.move) from funext hbefore] at hbooks
  omega

/-- A fill is covered by what the map shows of the stage token. -/
theorem FillInv.covers (h : FillInv scope s0 earlier stage before legs done acc s)
    (hopened : scope.Opened start s0)
    (hbefore : ∀ t, before.amount t = holding start (earlier.map Leg.move) t) {amount : Int}
    (hle : acc.1 + amount ≤ before.amount stage.token) :
    scope.Covers stage.token amount s.ledger := by
  intro t
  have hnonneg := h.nonneg t
  have hheld := h.held hopened hbefore t
  have hleft := h.left
  by_cases ht : t = stage.token
  · subst ht
    rw [if_pos rfl]
    omega
  · rw [if_neg ht]
    omega

/-- A funded stage before its first fill. -/
theorem FillInv.initial (hjournal : Journal scope s0 earlier s)
    (hnonneg : ∀ t, 0 ≤ before.amount t) (hbal : 0 < before.amount stage.token)
    (htotal : 0 < (weights (stage.fills.val.map Fill.parts)).sum) :
    FillInv scope s0 earlier stage before [] [] (0, before) s where
  journal := by
    rw [List.append_nil]
    exact hjournal
  hops := rfl
  books t := by rw [List.map_nil, holding_nil]
  nonneg := hnonneg
  some_pos := ⟨stage.token, hbal⟩
  running := Allocated.start (weights_ne_nil htotal)
  left := (Int.sub_zero _).symm

theorem creditAvail_eq {avail : Avail} {stageToken tokenOut : Address} {fillIn produced : Int}
    (hne : tokenOut ≠ stageToken) (hsub : InI128 (avail.amount stageToken - fillIn))
    (hadd : InI128 (avail.amount tokenOut + produced)) :
    (creditAvail avail stageToken tokenOut fillIn produced : Exec V Avail) =
      pure ((avail.assign stageToken (avail.amount stageToken - fillIn)).assign tokenOut
        (avail.amount tokenOut + produced)) := by
  unfold creditAvail checkedSub checkedAdd
  rw [checked_of_inI128 hsub, pure_bind]
  simp only [Avail.amount_assign_ne hne]
  rw [checked_of_inI128 hadd, pure_bind]

/-- The map of a fill is updated, or one of its two operations overflows. -/
theorem creditAvail_cases (avail : Avail) {stageToken tokenOut : Address} (fillIn produced : Int)
    (hne : tokenOut ≠ stageToken) :
    (creditAvail avail stageToken tokenOut fillIn produced : Exec V Avail) =
        pure ((avail.assign stageToken (avail.amount stageToken - fillIn)).assign tokenOut
          (avail.amount tokenOut + produced)) ∨
      ∃ panic, Unreached panic ∧
        (creditAvail avail stageToken tokenOut fillIn produced : Exec V Avail) =
          throw panic := by
  by_cases hsub : InI128 (avail.amount stageToken - fillIn)
  · by_cases hadd : InI128 (avail.amount tokenOut + produced)
    · exact .inl (creditAvail_eq hne hsub hadd)
    · refine .inr ⟨.overflow .add, .inl rfl, ?_⟩
      unfold creditAvail checkedSub checkedAdd
      rw [checked_of_inI128 hsub, pure_bind]
      simp only [Avail.amount_assign_ne hne]
      rw [checked_of_not_inI128 hadd]
      rfl
  · refine .inr ⟨.overflow .sub, .inr (.inl rfl), ?_⟩
    unfold creditAvail checkedSub
    rw [checked_of_not_inI128 hsub]
    rfl

/-- The map after a fill, in terms of the map before it. -/
theorem Avail.amount_credited {avail : Avail} {src dst : Address} {spent gained : Int}
    (hne : dst ≠ src) (t : Address) :
    ((avail.assign src (avail.amount src - spent)).assign dst
        (avail.amount dst + gained)).amount t =
      avail.amount t + (if dst = t then gained else 0) - (if src = t then spent else 0) := by
  by_cases hdst : t = dst
  · subst hdst
    rw [Avail.amount_assign_self, if_pos rfl, if_neg hne.symm]
    omega
  · rw [Avail.amount_assign_ne hdst, if_neg (Ne.symm hdst)]
    by_cases hsrc : t = src
    · subst hsrc
      rw [Avail.amount_assign_self, if_pos rfl]
      omega
    · rw [Avail.amount_assign_ne hsrc, if_neg (Ne.symm hsrc)]
      omega

/-- A fill gets a share of the stage's balance, unless the computation overflows. -/
theorem fillStep_eq {bal : Int}
    (halloc : Allocated bal (weights (stage.fills.val.map Fill.parts))
      (weights (done.map Fill.parts)) acc.1)
    (hbal : 0 < bal ∧ bal ≤ i128Max)
    (htotal : 0 < (weights (stage.fills.val.map Fill.parts)).sum)
    (hsplit : done ++ fill :: rest = stage.fills.val) :
    ∃ share, share = branch bal (weights (stage.fills.val.map Fill.parts)) done.length
        fill.parts.toNat acc.1 ∧ acc.1 + share ≤ bal ∧
      Allocated bal (weights (stage.fills.val.map Fill.parts))
        (weights ((done ++ [fill]).map Fill.parts)) (acc.1 + share) ∧
      ∀ (env : Env V) (deadline : UInt64),
        fillStep env deadline stage.token bal (weights (stage.fills.val.map Fill.parts)).sum
            stage.fills.len done.length fill acc =
          if BranchOverflows bal stage.fills.len done.length fill.parts then throw (.overflow .mul)
          else (do
            panicIf (fill.tokenOut = stage.token) .degenerateFill
            panicIf (share ≤ 0) .fillNotPositive
            let produced ← runFill env deadline stage.token fill share
            let avail ← creditAvail acc.2 stage.token fill.tokenOut share produced
            pure (acc.1 + share, avail)) := by
  obtain ⟨-, hle, hnext⟩ := allocated_branch_map halloc hsplit hbal.1.le htotal
  refine ⟨_, rfl, hle, hnext, fun env deadline => ?_⟩
  unfold fillStep Vec.len
  rw [branch_bind_map_eq halloc hsplit hbal.1.le hbal.2 htotal]

/-- The books after one more leg out of the stage's token. -/
theorem FillInv.books_snoc (h : FillInv scope s0 earlier stage before legs done acc s)
    {leg : Leg} (hsrc : leg.hop.tokenIn = stage.token) (t : Address) :
    holding before.amount ((legs ++ [leg]).map Leg.move) t =
      acc.2.amount t + (if leg.hop.tokenOut = t then leg.out else 0) -
        (if stage.token = t then leg.amount else 0) := by
  rw [List.map_append, List.map_singleton, holding_move, ← h.books t, ← hsrc]
  rfl

/-- What a leg brought in is held, so the map takes it up without an overflow. -/
theorem FillInv.credit_fits (h : FillInv scope s0 earlier stage before legs done acc s)
    (hopened : scope.Opened start s0)
    (hbefore : ∀ t, before.amount t = holding start (earlier.map Leg.move) t) {leg : Leg}
    {s' : State V} (hsrc : leg.hop.tokenIn = stage.token) (hne : leg.hop.tokenOut ≠ stage.token)
    (hjournal : Journal scope s0 (earlier ++ (legs ++ [leg])) s') (hout : 0 < leg.out) :
    InI128 (acc.2.amount leg.hop.tokenOut + leg.out) := by
  have hcovered := hjournal.covered hopened.held leg.hop.tokenOut
  rw [List.map_append, holding_append,
    show holding start (earlier.map Leg.move) = before.amount from (funext hbefore).symm,
    h.books_snoc hsrc, if_pos rfl, if_neg (Ne.symm hne)] at hcovered
  have hmax := s'.ledger.le_max leg.hop.tokenOut scope.env.contract
  have hbase := hopened.base_nonneg leg.hop.tokenOut
  have hnonneg := h.nonneg leg.hop.tokenOut
  unfold InI128 i128Min
  omega

/-- The state of the stage after one more fill. -/
theorem FillInv.snoc (h : FillInv scope s0 earlier stage before legs done acc s) {leg : Leg}
    {s' : State V} (hhop : leg.hop = fill.toHop stage.token) (hne : fill.tokenOut ≠ stage.token)
    (hjournal : Journal scope s0 (earlier ++ (legs ++ [leg])) s') (hout : 0 < leg.out)
    (hle : acc.1 + leg.amount ≤ before.amount stage.token)
    (hnext : Allocated (before.amount stage.token) (weights (stage.fills.val.map Fill.parts))
      (weights ((done ++ [fill]).map Fill.parts)) (acc.1 + leg.amount)) :
    FillInv scope s0 earlier stage before (legs ++ [leg]) (done ++ [fill])
      (acc.1 + leg.amount, (acc.2.assign stage.token (acc.2.amount stage.token - leg.amount)).assign
        fill.tokenOut (acc.2.amount fill.tokenOut + leg.out)) s' := by
  have hleft := h.left
  have hsrc : leg.hop.tokenIn = stage.token := by rw [hhop, Fill.toHop_tokenIn]
  have hdst : leg.hop.tokenOut = fill.tokenOut := by rw [hhop, Fill.toHop_tokenOut]
  exact
    { journal := hjournal
      hops := by
        rw [List.map_append, List.map_append, h.hops, List.map_singleton, List.map_singleton, hhop]
      books := fun t => by rw [h.books_snoc hsrc, Avail.amount_credited hne, hdst]
      nonneg := by
        intro t
        have hnonneg := h.nonneg t
        rw [Avail.amount_credited hne]
        by_cases ht : stage.token = t
        · subst ht
          rw [if_pos rfl, if_neg hne]
          omega
        · rw [if_neg ht]
          split <;> omega
      some_pos := by
        refine ⟨fill.tokenOut, ?_⟩
        have hnonneg := h.nonneg fill.tokenOut
        rw [Avail.amount_assign_self]
        omega
      running := hnext
      left := by
        rw [Avail.amount_credited hne, if_pos rfl, if_neg hne]
        omega }

theorem fillStep_post (hopened : scope.Opened start s0)
    (hbefore : ∀ t, before.amount t = holding start (earlier.map Leg.move) t)
    (hbal : 0 < before.amount stage.token ∧ before.amount stage.token ≤ i128Max)
    (htotal : 0 < (weights (stage.fills.val.map Fill.parts)).sum)
    (hsplit : done ++ fill :: rest = stage.fills.val)
    (h : FillInv scope s0 earlier stage before legs done acc s) :
    Post (fillStep scope.env scope.deadline stage.token (before.amount stage.token)
        (weights (stage.fills.val.map Fill.parts)).sum stage.fills.len done.length fill acc) s
      (fun acc' s' => ∃ leg,
        FillInv scope s0 earlier stage before (legs ++ [leg]) (done ++ [fill]) acc' s')
      (Stopped scope s0 (earlier.map Leg.hop ++ (done ++ [fill]).map (Fill.toHop stage.token)))
    := by
  have hhops : (earlier ++ legs).map Leg.hop =
      earlier.map Leg.hop ++ done.map (Fill.toHop stage.token) := by
    rw [List.map_append, h.hops]
  have hedges : earlier.map Leg.hop ++ (done ++ [fill]).map (Fill.toHop stage.token) =
      (earlier ++ legs).map Leg.hop ++ [fill.toHop stage.token] := by
    rw [hhops, List.map_append, List.map_singleton, List.append_assoc]
  have hinit : (earlier ++ legs).map Leg.hop <+:
      earlier.map Leg.hop ++ (done ++ [fill]).map (Fill.toHop stage.token) := by
    rw [hedges]
    exact List.prefix_append _ _
  obtain ⟨fillIn, _, hle, hnext, heq⟩ := fillStep_eq h.running hbal htotal hsplit
  rw [heq]
  -- a check that fails here fails in front of the venue call
  refine .ite (fun _ => .throw (h.journal.stopped (by simp [Unreached]) hinit)) fun _ => ?_
  refine post_panicIf_bind
    (fun _ => h.journal.stopped (by simp [Unreached]) hinit) fun hne => ?_
  refine post_panicIf_bind
    (fun _ => h.journal.stopped (by simp [Unreached]) hinit) fun hpos => ?_
  have hcovers := h.covers hopened hbefore hle
  refine (h.journal.runFill_post (Ne.symm hne) fun _ => hcovers).bind_mono ?_ ?_
  · rintro panic s' ⟨hpanic, hops, hhops', hhalted⟩
    exact ⟨hpanic.reached (.inr rfl), hops, by rw [hedges]; exact hhops', hhalted⟩
  rintro produced s' ⟨hproduced, record, hjournal⟩
  let leg : Leg := ⟨fill.toHop stage.token, fillIn, produced, record⟩
  have hjournal' : Journal scope s0 (earlier ++ (legs ++ [leg])) s' := by
    rw [← List.append_assoc]
    exact hjournal
  have hadd : InI128 (acc.2.amount leg.hop.tokenOut + leg.out) :=
    h.credit_fits hopened hbefore rfl hne hjournal' hproduced
  have hleft := h.left
  have hnonneg := h.running.nonneg
  have hsub : InI128 (acc.2.amount stage.token - fillIn) := by
    unfold InI128 i128Min
    omega
  rw [creditAvail_eq hne hsub hadd, pure_bind]
  exact .pure ⟨leg, h.snoc rfl hne hjournal' hproduced hle hnext⟩

/-- A stage, stopped after any number of its fills. -/
theorem fillLoop_post {fills : List Fill} (hfills : fills <+: stage.fills.val)
    (hopened : scope.Opened start s0)
    (hjournal : Journal scope s0 earlier s)
    (hbefore : ∀ t, before.amount t = holding start (earlier.map Leg.move) t)
    (hnonneg : ∀ t, 0 ≤ before.amount t)
    (hbal : 0 < before.amount stage.token ∧ before.amount stage.token ≤ i128Max)
    (htotal : 0 < (weights (stage.fills.val.map Fill.parts)).sum) :
    Post (loop (fillStep scope.env scope.deadline stage.token (before.amount stage.token)
        (weights (stage.fills.val.map Fill.parts)).sum stage.fills.len) 0 fills (0, before)) s
      (fun acc' s' => ∃ legs, FillInv scope s0 earlier stage before legs fills acc' s')
      (Stopped scope s0 (earlier.map Leg.hop ++ stage.edges)) := by
  refine Post.loop_upTo
    (I := fun done acc s => ∃ legs, FillInv scope s0 earlier stage before legs done acc s)
    hfills ?_ ?_
  · rintro done fill rest hsplit acc s' ⟨legs, hinv⟩
    refine (fillStep_post hopened hbefore hbal htotal hsplit hinv).mono ?_ ?_
    · rintro acc' s'' ⟨leg, hinv'⟩
      exact ⟨legs ++ [leg], hinv'⟩
    · intro panic s'' hstopped
      refine hstopped.mono (List.prefix_append_right_inj _ |>.mpr ?_)
      refine List.IsPrefix.map _ ⟨rest, ?_⟩
      rw [← hsplit, List.append_assoc, List.singleton_append]
  · exact ⟨[], .initial hjournal hnonneg hbal.1 htotal⟩

end FillStep

/-! ## Stages -/

/-- A completed stage with its legs. -/
structure StageRun where
  stage : Stage
  legs : List Leg

/-- The stage as a batch of the books. -/
def StageRun.batch (run : StageRun) : Batch Address :=
  ⟨run.stage.token, run.legs.map Leg.move⟩

/-- The legs of completed stages, in the order in which they ran. -/
def allLegs (runs : List StageRun) : List Leg := runs.flatMap StageRun.legs

@[simp] theorem allLegs_append (left right : List StageRun) :
    allLegs (left ++ right) = allLegs left ++ allLegs right := List.flatMap_append

@[simp] theorem allLegs_singleton (run : StageRun) : allLegs [run] = run.legs := by
  simp [allLegs]

theorem allMoves_batches (runs : List StageRun) :
    allMoves (runs.map StageRun.batch) = (allLegs runs).map Leg.move := by
  unfold allMoves allLegs
  rw [List.flatMap_map, List.map_flatMap]
  rfl

/-- The state of a run once the stages `done` are through. -/
structure MergeInv (scope : Scope V) (s0 : State V) (start : Address → Int)
    (runs : List StageRun) (done : List Stage) (avail : Avail) (s : State V) : Prop where
  journal : Journal scope s0 (allLegs runs) s
  stages : runs.map StageRun.stage = done
  edges : ∀ run ∈ runs, run.legs.map Leg.hop = run.stage.edges
  books : ∀ t, avail.amount t = holding start ((allLegs runs).map Leg.move) t
  nonneg : ∀ t, 0 ≤ avail.amount t
  some_pos : ∃ t, 0 < avail.amount t
  drained : Drained start (runs.map StageRun.batch)

section Stages

variable {scope : Scope V} {s0 s : State V} {start : Address → Int} {runs : List StageRun}
  {done rest : List Stage} {stage : Stage} {avail : Avail}

theorem MergeInv.hops (h : MergeInv scope s0 start runs done avail s) :
    (allLegs runs).map Leg.hop = mergeEdges done := by
  have hflat : ∀ runs : List StageRun,
      (∀ run ∈ runs, run.legs.map Leg.hop = run.stage.edges) →
      (allLegs runs).map Leg.hop = mergeEdges (runs.map StageRun.stage) := by
    intro runs
    induction runs with
    | nil =>
        intro _
        rfl
    | cons run rest ih =>
        intro hedges
        have hrest := ih fun r hr => hedges r (List.mem_cons_of_mem run hr)
        have hhead := hedges run (List.mem_cons_self ..)
        unfold allLegs mergeEdges at *
        rw [List.map_cons, List.flatMap_cons, List.flatMap_cons, List.map_append, hrest, hhead]
  rw [hflat runs h.edges, h.stages]

theorem MergeInv.held (h : MergeInv scope s0 start runs done avail s)
    (hopened : scope.Opened start s0) (t : Address) :
    scope.base t + avail.amount t ≤ s.ledger.balance t scope.env.contract := by
  rw [h.books]
  exact h.journal.covered hopened.held t

theorem MergeInv.le_max (h : MergeInv scope s0 start runs done avail s)
    (hopened : scope.Opened start s0) (t : Address) : avail.amount t ≤ i128Max := by
  have hheld := h.held hopened t
  have hbase := hopened.base_nonneg t
  have hmax := s.ledger.le_max t scope.env.contract
  omega

/-- A stage's header passes on a funded stage with fills and positive total parts. -/
theorem post_stageHeader {bal : Int} {Q : Int → State V → Prop} {E : Panic → State V → Prop}
    (hfail : ∀ site, site ∈ [Guard.stageNoBalance, .emptyStage, .stagePartsZero] →
      E (.guard site) s)
    (hpass : 0 < bal → 0 < (weights (stage.fills.val.map Fill.parts)).sum →
      Q (weights (stage.fills.val.map Fill.parts)).sum s) :
    Post (stageHeader stage bal) s Q E := by
  have hlength : (stage.fills.val.map Fill.parts).length < 2 ^ 32 := by
    rw [List.length_map]
    exact stage.fills.property
  unfold stageHeader
  refine post_panicIf_bind (fun _ => hfail _ (by simp)) fun hbal => ?_
  refine post_panicIf_bind (fun _ => hfail _ (by simp)) fun _ => ?_
  rw [sumParts_eq _ hlength, pure_bind]
  refine post_panicIf_bind (fun _ => hfail _ (by simp)) fun htotal => ?_
  exact .pure (hpass (by omega) (by omega))

/-- A stage whose fills are all through has handed out what its token had. -/
theorem FillInv.drained {legs : List Leg} {acc : Int × Avail}
    (h : FillInv scope s0 (allLegs runs) stage avail legs stage.fills.val acc s) :
    acc.2.amount stage.token = 0 ∧ (StageRun.batch ⟨stage, legs⟩).Outgoing ∧
      spentOf (legs.map Leg.move) stage.token = avail.amount stage.token := by
  have hzero : acc.2.amount stage.token = 0 := by
    rw [h.left, h.running.full rfl]
    omega
  have hout : (StageRun.batch ⟨stage, legs⟩).Outgoing := by
    intro move hmove
    obtain ⟨leg, hleg, rfl⟩ := List.mem_map.mp hmove
    have hsrc : leg.hop.tokenIn = stage.token := by
      have hmem : leg.hop ∈ stage.fills.val.map (Fill.toHop stage.token) := by
        rw [← h.hops]
        exact List.mem_map_of_mem hleg
      obtain ⟨fill, _, hfill⟩ := List.mem_map.mp hmem
      rw [← hfill]
      rfl
    have hdistinct := (h.journal.settled leg (List.mem_append_right _ hleg)).distinct
    refine ⟨hsrc, ?_⟩
    show leg.hop.tokenOut ≠ stage.token
    rw [← hsrc]
    exact hdistinct.symm
  refine ⟨hzero, hout, ?_⟩
  have hbooks := h.books stage.token
  have hgained := hout.gainedOf_src
  unfold holding at hbooks
  simp only [StageRun.batch] at hgained
  omega

theorem stageStep_post (hopened : scope.Opened start s0)
    (h : MergeInv scope s0 start runs done avail s) :
    Post (stageStep scope.env scope.deadline stage avail) s
      (fun avail' s' => ∃ run, MergeInv scope s0 start (runs ++ [run]) (done ++ [stage]) avail' s')
      (Stopped scope s0 (mergeEdges (done ++ [stage]))) := by
  have hedges : mergeEdges (done ++ [stage]) = (allLegs runs).map Leg.hop ++ stage.edges := by
    rw [h.hops]
    simp [mergeEdges]
  unfold stageStep
  refine Post.bind (P := fun totalParts s' => s' = s ∧ 0 < avail.amount stage.token ∧
    0 < (weights (stage.fills.val.map Fill.parts)).sum ∧
    totalParts = (weights (stage.fills.val.map Fill.parts)).sum) (post_stageHeader ?_ ?_) ?_
  · intro site hsite
    refine h.journal.stopped ?_ ?_
    · unfold Unreached
      rintro (hs | hs | hs | hs) <;> cases hs <;> exact absurd hsite (by decide)
    · rw [hedges]
      exact List.prefix_append _ _
  · exact fun hbal htotal => ⟨rfl, hbal, htotal, rfl⟩
  rintro _ s' ⟨rfl, hbal, htotal, rfl⟩
  refine (fillLoop_post List.prefix_rfl hopened h.journal h.books h.nonneg
    ⟨hbal, h.le_max hopened _⟩ htotal).bind_mono ?_ ?_
  · intro panic s'' hstopped
    rw [hedges]
    exact hstopped
  rintro acc s'' ⟨legs, hinv⟩
  -- the last fill took the remainder, so the stage's token is drained
  obtain ⟨_, houtgoing, hspent⟩ := hinv.drained
  refine .pure ⟨⟨stage, legs⟩, ?_⟩
  exact
    { journal := by
        rw [allLegs_append, allLegs_singleton]
        exact hinv.journal
      stages := by rw [List.map_append, h.stages, List.map_singleton]
      edges := by
        intro run hrun
        rcases List.mem_append.mp hrun with hrun | hrun
        · exact h.edges run hrun
        · rw [List.mem_singleton.mp hrun]
          exact hinv.hops
      books := by
        intro t
        rw [allLegs_append, allLegs_singleton, List.map_append, holding_append, hinv.books t]
        rw [show avail.amount = holding start ((allLegs runs).map Leg.move) from funext h.books]
      nonneg := hinv.nonneg
      some_pos := hinv.some_pos
      drained := by
        rw [List.map_append, List.map_singleton]
        refine h.drained.snoc houtgoing ?_
        rw [allMoves_batches, ← h.books]
        exact hspent }

/-- The stage that was through last has nothing left on the books. -/
theorem MergeInv.last_zero (h : MergeInv scope s0 start runs (done ++ [stage]) avail s) :
    avail.amount stage.token = 0 := by
  rcases List.eq_nil_or_concat runs with rfl | ⟨init, last, rfl⟩
  · have hstages := h.stages
    simp at hstages
  · rw [List.concat_eq_append] at h
    have hstages := h.stages
    rw [List.map_append, List.map_singleton] at hstages
    have hlast : last.stage = stage := by
      have := (List.append_inj' hstages rfl).2
      simpa using this
    obtain ⟨houtgoing, hdrains⟩ := h.drained (init.map StageRun.batch) last.batch []
      (by rw [List.map_append, List.map_singleton])
    have hsrc : last.batch.src = stage.token := by rw [← hlast]; rfl
    have hgained := houtgoing.gainedOf_src
    rw [hsrc] at hdrains hgained
    rw [h.books, ← allMoves_batches, List.map_append, allMoves_append, List.map_singleton,
      allMoves_singleton, holding_append]
    unfold holding at hdrains ⊢
    omega

/-- The stage loop, stopped after any number of stages. -/
theorem stageLoop_post {stages done : List Stage} (hdone : done <+: stages)
    (hopened : scope.Opened start s0)
    (h : MergeInv scope s0 start [] [] avail s) :
    Post (loop (fun _ => stageStep scope.env scope.deadline) 0 done avail) s
      (fun avail' s' => ∃ runs, MergeInv scope s0 start runs done avail' s')
      (Stopped scope s0 (mergeEdges stages)) := by
  refine Post.loop_upTo
    (I := fun done avail s => ∃ runs, MergeInv scope s0 start runs done avail s) hdone ?_ ⟨[], h⟩
  rintro before stage rest hsplit avail' s' ⟨runs, hinv⟩
  refine (stageStep_post hopened hinv).mono ?_ ?_
  · rintro avail'' s'' ⟨run, hinv'⟩
    exact ⟨runs ++ [run], hinv'⟩
  · intro panic s'' hstopped
    refine hstopped.mono ⟨mergeEdges rest, ?_⟩
    rw [← hsplit]
    simp [mergeEdges]

/-- The dead-end check passes when nothing but `tokenOut` is left on the books. -/
theorem deadEndCheck_post (tokenOut : Address) (avail : Avail) :
    Post (deadEndCheck tokenOut avail) s
      (fun _ s' => s' = s ∧ ∀ t, t ≠ tokenOut → avail.amount t = 0)
      (fun panic s' => s' = s ∧ panic = .guard .unconsumedBalance) := by
  unfold deadEndCheck
  have hkeys : Post (loop (fun _ k _ => panicIf (k ≠ tokenOut ∧ avail.amount k ≠ 0)
      .unconsumedBalance) 0 avail.keys ()) s
      (fun _ s' => s' = s ∧ ∀ k ∈ avail.keys, k ≠ tokenOut → avail.amount k = 0)
      (fun panic s' => s' = s ∧ panic = .guard .unconsumedBalance) := by
    refine Post.loop
      (I := fun done _ s' => s' = s ∧ ∀ k ∈ done, k ≠ tokenOut → avail.amount k = 0) ?_
      ⟨rfl, by simp⟩
    rintro done k rest _ ⟨⟩ s' ⟨rfl, hdone⟩
    refine post_panicIf (fun _ => ⟨rfl, rfl⟩) fun hk => ⟨rfl, ?_⟩
    intro x hx hne
    rcases List.mem_append.mp hx with hx | hx
    · exact hdone x hx hne
    · rw [List.mem_singleton.mp hx] at hne ⊢
      exact not_not.mp fun hzero => hk ⟨hne, hzero⟩
  refine hkeys.mono ?_ fun _ _ h => h
  rintro ⟨⟩ s' ⟨rfl, hall⟩
  refine ⟨rfl, fun t hne => ?_⟩
  by_cases ht : t ∈ avail.keys
  · exact hall t ht hne
  · exact Avail.amount_of_not_mem ht

theorem deadEndCheck_eq {tokenOut : Address} {avail : Avail}
    (h : ∀ t, t ≠ tokenOut → avail.amount t = 0) :
    (deadEndCheck tokenOut avail : Exec V Unit) = pure () := by
  have hkeys : ∀ keys i, (loop (fun _ k _ => panicIf (k ≠ tokenOut ∧ avail.amount k ≠ 0)
      .unconsumedBalance) i keys () : Exec V Unit) = pure () := by
    intro keys
    induction keys with
    | nil => exact fun i => rfl
    | cons k rest ih =>
        intro i
        rw [loop_cons, panicIf_of_not fun hk => hk.2 (h k hk.1), pure_bind]
        exact ih (i + 1)
  exact hkeys avail.keys 0

end Stages

end WowmaxStellar
