import WowmaxStellar.Logic.MergeRuns

/-!
# Live tokens

Which tokens a stage list has something of can be told from the plan alone: a stage uses its
token up and brings in what its fills buy. A static check follows the tokens that are live,
and makes the checks on fills that the executor makes when it comes to them.

* `Fill.wellFormed_iff` — the checks on a fill, in the terms of its edge;
* `staticCheck_iff` — the check, stage by stage;
* `MergeInv.mem_live_iff` — the live tokens are those that the map shows something of.
-/

namespace WowmaxStellar

open Flow Networks Split

variable {V : Type}

/-- The checks on a fill of a stage on `token`. -/
def Fill.WellFormed (token : Address) (fill : Fill) : Prop :=
  fill.tokenOut ≠ token ∧ fill.venue ≤ 2 ∧
    (fill.venue = 0 → fill.soroswapPath.val = [token, fill.tokenOut]) ∧
    (fill.venue = 1 → fill.aquaPoolTokens.val = [token, fill.tokenOut] ∨
      fill.aquaPoolTokens.val = [fill.tokenOut, token])

instance (token : Address) (fill : Fill) : Decidable (fill.WellFormed token) :=
  inferInstanceAs (Decidable (_ ∧ _ ∧ (_ → _) ∧ (_ → _)))

/-- The checks on a stage that comes when the tokens `live` are there. -/
def Stage.WellFormed (live : Finset Address) (stage : Stage) : Prop :=
  stage.token ∈ live ∧ stage.fills.len ≠ 0 ∧ (∃ fill ∈ stage.fills.val, fill.parts ≠ 0) ∧
    ∀ fill ∈ stage.fills.val, fill.WellFormed stage.token

instance (live : Finset Address) (stage : Stage) : Decidable (stage.WellFormed live) :=
  inferInstanceAs (Decidable (_ ∧ _ ∧ (∃ fill ∈ _, _) ∧ ∀ fill ∈ _, _))

/-- A stage uses up its token and brings in what its fills buy. -/
def stageWiring : Wiring Stage Address where
  src := Stage.token
  outs stage := (stage.fills.val.map Fill.tokenOut).toFinset

/-- The stage's token goes, what its fills buy comes. -/
def Stage.advance (live : Finset Address) (stage : Stage) : Finset Address :=
  stageWiring.advance live stage

/-- The static check of a stage list: every stage is well formed, and in the end `tokenOut`
alone is live. -/
def staticCheck (tokenOut : Address) : Finset Address → List Stage → Prop
  | live, [] => live = {tokenOut}
  | live, stage :: rest => stage.WellFormed live ∧ staticCheck tokenOut (stage.advance live) rest

instance staticCheck.decidable (tokenOut : Address) :
    ∀ (live : Finset Address) (stages : List Stage), Decidable (staticCheck tokenOut live stages)
  | live, [] => inferInstanceAs (Decidable (live = {tokenOut}))
  | live, stage :: rest =>
      have := staticCheck.decidable tokenOut (stage.advance live) rest
      inferInstanceAs (Decidable (stage.WellFormed live ∧ _))

/-- The tokens that are live once some stages are through. -/
def liveAfter (live : Finset Address) (stages : List Stage) : Finset Address :=
  stageWiring.liveAfter live stages

theorem staticCheck_iff {tokenOut : Address} {live : Finset Address} {stages : List Stage} :
    staticCheck tokenOut live stages ↔
      (∀ done stage rest, done ++ stage :: rest = stages →
        stage.WellFormed (liveAfter live done)) ∧ liveAfter live stages = {tokenOut} := by
  induction stages generalizing live with
  | nil =>
      constructor
      · intro h
        refine ⟨?_, h⟩
        intro done stage rest hsplit
        simp at hsplit
      · exact fun h => h.2
  | cons head tail ih =>
      unfold staticCheck
      rw [ih]
      constructor
      · rintro ⟨hhead, htail, hend⟩
        refine ⟨?_, hend⟩
        intro done stage rest hsplit
        cases done with
        | nil =>
            obtain ⟨rfl, rfl⟩ := List.cons.inj hsplit
            exact hhead
        | cons first done =>
            obtain ⟨rfl, htail_split⟩ := List.cons.inj hsplit
            exact htail done stage rest htail_split
      · rintro ⟨hstages, hend⟩
        refine ⟨hstages [] head tail rfl, ?_, hend⟩
        intro done stage rest hsplit
        exact hstages (head :: done) stage rest (by rw [← hsplit]; rfl)

theorem Fill.wellFormed_iff {token : Address} {fill : Fill} :
    fill.WellFormed token ↔ fill.tokenOut ≠ token ∧ (fill.toHop token).Routed := by
  refine and_congr_right fun _ => ?_
  show _ ↔ (fill.venue = 0 ∧ _) ∨ (fill.venue = 1 ∧ _) ∨ fill.venue = 2
  constructor
  · rintro ⟨hvenue, hsoroswap, haqua⟩
    have hcases : fill.venue = 0 ∨ fill.venue = 1 ∨ fill.venue = 2 := by
      rw [UInt32.le_iff_toNat_le] at hvenue
      simp only [← UInt32.toNat_inj] at hvenue ⊢
      simp at hvenue ⊢
      omega
    rcases hcases with h | h | h
    · exact .inl ⟨h, hsoroswap h⟩
    · exact .inr (.inl ⟨h, haqua h⟩)
    · exact .inr (.inr h)
  · rintro (⟨h, hpath⟩ | ⟨h, hpair⟩ | h)
    · rw [h]
      exact ⟨by decide, fun _ => hpath, fun habsurd => absurd habsurd (by decide)⟩
    · rw [h]
      exact ⟨by decide, fun habsurd => absurd habsurd (by decide), fun _ => hpair⟩
    · rw [h]
      exact ⟨by decide, fun habsurd => absurd habsurd (by decide),
        fun habsurd => absurd habsurd (by decide)⟩

/-- Some part is not zero exactly when the total is positive. -/
theorem sum_weights_pos_iff (fills : List Fill) :
    0 < (weights (fills.map Fill.parts)).sum ↔ ∃ fill ∈ fills, fill.parts ≠ 0 := by
  have hpart : ∀ parts : UInt32, (parts.toNat : Int) = 0 ↔ parts = 0 := by
    intro parts
    rw [← UInt32.toNat_inj]
    exact Int.natCast_eq_zero
  have hnonneg : ∀ fills : List Fill, 0 ≤ (weights (fills.map Fill.parts)).sum := fun fills =>
    List.sum_nonneg (weights_nonneg _)
  induction fills with
  | nil => simp [weights]
  | cons fill rest ih =>
      have hsum : (weights ((fill :: rest).map Fill.parts)).sum =
          (fill.parts.toNat : Int) + (weights (rest.map Fill.parts)).sum := by
        simp [weights]
      have hrest := hnonneg rest
      have hfill := hpart fill.parts
      rw [hsum]
      simp only [List.mem_cons, exists_eq_or_imp, ← ih, ne_eq, ← hfill]
      omega

section Run

variable {scope : Scope V} {s0 s : State V} {start : Address → Int} {runs : List StageRun}
  {done : List Stage} {avail : Avail}

/-- The tokens funded by the batches of some stages are those live after the stages. -/
theorem funded_batches (live : Finset Address)
    (hedges : ∀ run ∈ runs, run.legs.map Leg.hop = run.stage.edges) :
    funded live (runs.map StageRun.batch) = liveAfter live (runs.map StageRun.stage) := by
  have hkeys : ∀ run ∈ runs, batchWiring.src run.batch = stageWiring.src run.stage ∧
      batchWiring.outs run.batch = stageWiring.outs run.stage := by
    intro run hrun
    have hbought : run.batch.moves.map Move.dst = run.stage.fills.val.map Fill.tokenOut := by
      show (run.legs.map Leg.move).map Move.dst = _
      rw [List.map_map, show Move.dst ∘ Leg.move = Hop.tokenOut ∘ Leg.hop from rfl,
        ← List.map_map, hedges run hrun, Stage.edges, List.map_map]
      rfl
    refine ⟨rfl, ?_⟩
    show (run.batch.moves.map Move.dst).toFinset = _
    rw [hbought]
    rfl
  exact Wiring.liveAfter_map_eq hkeys live

/-- The live tokens are those that the map shows something of. -/
theorem MergeInv.mem_live_iff {live : Finset Address}
    (h : MergeInv scope s0 start runs done avail s) (hplan : scope.plan)
    (hstart : ∀ t, 0 ≤ start t) (hlive : ∀ t, t ∈ live ↔ 0 < start t) (t : Address) :
    t ∈ liveAfter live done ↔ 0 < avail.amount t := by
  have hpos : ∀ move ∈ allMoves (runs.map StageRun.batch), 0 < move.gained := by
    rw [allMoves_batches]
    intro move hmove
    obtain ⟨leg, hleg, rfl⟩ := List.mem_map.mp hmove
    exact ((h.journal.settled leg hleg).checked hplan).2
  have hfunded := (h.drained.mem_funded_iff hpos hstart hlive t).2
  rw [funded_batches live h.edges, h.stages, allMoves_batches, ← h.books] at hfunded
  exact hfunded

end Run

end WowmaxStellar
