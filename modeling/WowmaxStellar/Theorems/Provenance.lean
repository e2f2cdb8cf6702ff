import WowmaxStellar.Logic.Calls
import WowmaxStellar.Logic.Desk

/-!
# Provenance in `swap_merge`

The availability map is a lower bound of what the call brought onto the executor's
account, at every point of the two nested loops. The runs up to such a point are
programs of their own: `mergeStages` stops between two stages, `mergeFills` between two
fills, and the program is each of them with `mergeRest` or `stageRest` behind it.
-/

namespace WowmaxStellar

open Runs Flow Split

variable {V : Type}

/-- The arguments of a call of `swap_merge`. -/
structure MergeArgs where
  user : Address
  tokenIn : Address
  tokenOut : Address
  amountIn : I128
  amountOutMin : I128
  deadline : UInt64
  stages : Vec Stage

def MergeArgs.call (args : MergeArgs) : EntryCall :=
  .swapMerge args.user args.tokenIn args.tokenOut args.amountIn args.amountOutMin args.deadline
    args.stages

section Points

variable (env : Env V) (args : MergeArgs)

/-- `swap_merge` up to the point where `k` stages are through: `out_before` and the
map. -/
def mergeStages (k : Nat) : Exec V (Int × Avail) := do
  let outBefore ← mergeEntry env args.user args.tokenIn args.tokenOut args.amountIn
    args.amountOutMin args.deadline args.stages
  let avail ← loop (fun _ => stageStep env args.deadline) 0 (args.stages.val.take k)
    (initialAvail args.tokenIn args.amountIn)
  pure (outBefore, avail)

/-- A stage up to the point where `j` of its fills are through: its total parts, what is
allocated, and the map. -/
def stageFills (stage : Stage) (avail : Avail) (j : Nat) : Exec V (Int × Int × Avail) := do
  let totalParts ← stageHeader stage (avail.amount stage.token)
  let acc ← loop (fillStep env args.deadline stage.token (avail.amount stage.token) totalParts
    stage.fills.len) 0 (stage.fills.val.take j) (0, avail)
  pure (totalParts, acc)

/-- `swap_merge` up to the point where `k` stages and `j` fills of `stage`, the next one,
are through: the map the stage began with, then what `stageFills` returns. -/
def mergeFills (k : Nat) (stage : Stage) (j : Nat) : Exec V (Avail × Int × Int × Avail) := do
  let start ← mergeStages env args k
  let point ← stageFills env args stage start.2 j
  pure (start.2, point)

/-- What comes after that point: the other stages, the final checks and the payout. -/
def mergeRest (k : Nat) (start : Int × Avail) : Exec V Int := do
  let avail ← loop (fun _ => stageStep env args.deadline) (args.stages.val.take k).length
    (args.stages.val.drop k) start.2
  deadEndCheck args.tokenOut avail
  settleMerge env args.user args.tokenOut start.1 args.amountOutMin (avail.amount args.tokenOut)

/-- What comes after a point between two fills: the other fills of the stage. -/
def stageRest (stage : Stage) (avail : Avail) (j : Nat) (point : Int × Int × Avail) :
    Exec V Avail := do
  let acc ← loop (fillStep env args.deadline stage.token (avail.amount stage.token) point.1
    stage.fills.len) (stage.fills.val.take j).length (stage.fills.val.drop j) point.2
  pure acc.2

/-- The whole call is the run up to a stage boundary with the rest behind it. -/
theorem swapMerge_eq_stages (k : Nat) :
    args.call.run env = mergeStages env args k >>= mergeRest env args k := by
  show swapMerge env args.user args.tokenIn args.tokenOut args.amountIn args.amountOutMin
    args.deadline args.stages = _
  unfold swapMerge mergeStages mergeRest
  conv_lhs => rw [← List.take_append_drop k args.stages.val]
  simp only [loop_append, Nat.zero_add, bind_assoc, pure_bind]

/-- Behind the last stage come the final checks and the payout. -/
theorem mergeRest_len (start : Int × Avail) :
    mergeRest env args args.stages.len start = (do
      deadEndCheck args.tokenOut start.2
      settleMerge env args.user args.tokenOut start.1 args.amountOutMin
        (start.2.amount args.tokenOut)) := by
  unfold mergeRest
  rw [Vec.drop_len, loop_nil, pure_bind]

/-- A stage is its run up to a fill boundary with the rest of its fills behind it. -/
theorem stageStep_eq_fills (stage : Stage) (avail : Avail) (j : Nat) :
    stageStep env args.deadline stage avail =
      stageFills env args stage avail j >>= stageRest env args stage avail j := by
  unfold stageStep stageFills stageRest
  conv_lhs => rw [← List.take_append_drop j stage.fills.val]
  simp only [loop_append, Nat.zero_add, bind_assoc, pure_bind]

end Points

/-- At a loop point the map shows, of every token, something between nothing and what
the executor gained since the call began. -/
def Backed (env : Env V) (world : World V) (avail : Avail) (s : State V) : Prop :=
  ∀ t, 0 ≤ avail.amount t ∧ avail.amount t ≤
    s.ledger.balance t env.contract - world.ledger.balance t env.contract

/-- The provenance invariant of `swap_merge` and what follows from it. -/
structure Provenance (env : Env V) (args : MergeArgs) (world : World V) : Prop where
  /-- The call goes through every point between two stages. -/
  through_stages : ∀ k, args.call.run env = mergeStages env args k >>= mergeRest env args k
  /-- A stage goes through every point between two fills. -/
  through_fills : ∀ stage avail j, stageStep env args.deadline stage avail =
    stageFills env args stage avail j >>= stageRest env args stage avail j
  /-- Between two stages. -/
  stages : ∀ k start s, mergeStages env args k world.start = .ok start s →
    Backed env world start.2 s
  /-- Between two fills. -/
  fills : ∀ k stage j avail totalParts allocated now s, args.stages.val[k]? = some stage →
    mergeFills env args k stage j world.start = .ok (avail, totalParts, allocated, now) s →
    Backed env world now s
  /-- A fill spends no more than its token's entry. -/
  spends : ∀ k stage j fill avail totalParts allocated now s fillIn s',
    args.stages.val[k]? = some stage → stage.fills.val[j]? = some fill →
    mergeFills env args k stage j world.start = .ok (avail, totalParts, allocated, now) s →
    branchAmount (avail.amount stage.token) totalParts stage.fills.len j fill.parts allocated s =
      .ok fillIn s' →
    fillIn ≤ now.amount stage.token
  /-- A stage that is through leaves nothing in its token's entry. -/
  finished : ∀ k stage start s, args.stages.val[k]? = some stage →
    mergeStages env args (k + 1) world.start = .ok start s → start.2.amount stage.token = 0
  /-- When the dead-end check passes, the tracked output is positive. -/
  tracked : ∀ start s s', mergeStages env args args.stages.len world.start = .ok start s →
    deadEndCheck args.tokenOut start.2 s = .ok () s' → 0 < start.2.amount args.tokenOut
  /-- No addition overflows, and neither accounting panic is reached. -/
  unreached : ∀ panic s, args.call.run env world.start = .error panic s →
    panic ≠ .overflow .add ∧ panic ≠ .guard .accountingMismatch ∧ panic ≠ .guard .noOutput

section Proof

variable {env : Env V} {args : MergeArgs} {world : World V}

/-- A map that is on the books of an opened run is backed. -/
theorem backed_of_held {avail : Avail} {s : State V}
    (hnonneg : ∀ t, 0 ≤ avail.amount t)
    (hheld : ∀ t, (args.call.scope env world).base t + avail.amount t ≤
      s.ledger.balance t (args.call.scope env world).env.contract) :
    Backed env world avail s := by
  intro t
  have h := hheld t
  simp only [EntryCall.scope] at h
  exact ⟨hnonneg t, by omega⟩

theorem mergeStages_post (k : Nat) :
    Post (mergeStages env args k) world.start
      (fun start s => ∃ s0 runs, Pulled env args.call world s0 ∧
        MergeInv (args.call.scope env world) s0 args.call.opening runs (args.stages.val.take k)
          start.2 s)
      (fun _ _ => True) := by
  unfold mergeStages
  refine mergeEntry_post.bind_mono (fun _ _ _ => trivial) ?_
  rintro outBefore s0 ⟨_, hpulled⟩
  refine (stageLoop_post (List.take_prefix k _) hpulled.opened
    (MergeInv.start hpulled.amount_pos)).bind_mono (fun _ _ _ => trivial) ?_
  rintro avail s ⟨runs, hinv⟩
  exact .pure ⟨s0, runs, hpulled, hinv⟩

/-- Every stage of a `swap_merge` that returned was reached. -/
theorem swapMerge_reaches {args : MergeArgs} {out : Int} {s : State V}
    (h : args.call.run env world.start = .ok out s) (k : Nat) :
    ∃ start s', mergeStages env args k world.start = .ok start s' := by
  rw [swapMerge_eq_stages env args k] at h
  obtain ⟨start, s', hstart, _⟩ := bind_ok_iff.mp h
  exact ⟨start, s', hstart⟩

/-- After the stage loop no venue is called, only `token_out` may be left, and the minimum has
been gained. -/
theorem merge_tail_post {outBefore : Int} {avail : Avail} {s : State V} :
    Post (do
        deadEndCheck args.tokenOut avail
        settleMerge env args.user args.tokenOut outBefore args.amountOutMin
          (avail.amount args.tokenOut)) s
      (fun _ s' => venueRecords s'.trace = venueRecords s.trace ∧
        (∀ t, t ≠ args.tokenOut → avail.amount t = 0) ∧
        (args.amountOutMin : Int) ≤ s.ledger.balance args.tokenOut env.contract - outBefore)
      (fun _ _ => True) := by
  refine (deadEndCheck_post args.tokenOut avail).bind_mono (fun _ _ _ => trivial) ?_
  rintro ⟨⟩ s' ⟨rfl, hzero⟩
  unfold settleMerge
  refine post_balance_bind (post_checked_bind (fun _ => trivial) fun _ => ?_)
  refine post_panicIf_bind (fun _ => trivial) fun _ => ?_
  refine post_panicIf_bind (fun _ => trivial) fun _ => ?_
  refine post_panicIf_bind (fun _ => trivial) fun hmin => ?_
  refine post_transfer_bind (fun _ => trivial) fun ledger _ => .pure ⟨?_, hzero, not_lt.mp hmin⟩
  show venueRecords ((s'.trace ++ [_]) ++ [_]) = _
  rw [venueRecords_append, venueRecords_append]
  simp [venueRecords, Event.record?]

/-- A call that returned went through all stages and then through the rest. -/
theorem swapMerge_returned {out : Int} {s' : State V}
    (h : args.call.run env world.start = .ok out s') :
    ∃ start s, mergeStages env args args.stages.len world.start = .ok start s ∧
      venueRecords s'.trace = venueRecords s.trace ∧
      (∀ t, t ≠ args.tokenOut → start.2.amount t = 0) ∧
      (args.amountOutMin : Int) ≤ s.ledger.balance args.tokenOut env.contract - start.1 := by
  rw [swapMerge_eq_stages env args args.stages.len] at h
  obtain ⟨start, s, hstages, htail⟩ := bind_ok_iff.mp h
  rw [mergeRest_len] at htail
  exact ⟨start, s, hstages, merge_tail_post.ok htail⟩

/-- A call that returned got through the stage behind every point it came to. -/
theorem stageStep_returned {out : Int} {s s' : State V} {k : Nat} {stage : Stage}
    {start : Int × Avail} (h : args.call.run env world.start = .ok out s')
    (hstage : args.stages.val[k]? = some stage)
    (hstart : mergeStages env args k world.start = .ok start s) :
    ∃ avail s1, stageStep env args.deadline stage start.2 s = .ok avail s1 := by
  obtain ⟨hk, hget⟩ := List.getElem?_eq_some_iff.mp hstage
  rw [swapMerge_eq_stages env args k, bind_of_ok hstart] at h
  unfold mergeRest at h
  rw [List.drop_eq_getElem_cons hk, hget, loop_cons] at h
  obtain ⟨_, _, hrest, _⟩ := bind_ok_iff.mp h
  obtain ⟨avail, s1, hstep, _⟩ := bind_ok_iff.mp hrest
  exact ⟨avail, s1, hstep⟩

/-- So it came to every point between two fills. -/
theorem swapMerge_reaches_fill {out : Int} {s' : State V} {k : Nat} {stage : Stage}
    (h : args.call.run env world.start = .ok out s') (hstage : args.stages.val[k]? = some stage)
    (j : Nat) : ∃ point s, mergeFills env args k stage j world.start = .ok point s := by
  obtain ⟨start, s1, hstart⟩ := swapMerge_reaches h k
  obtain ⟨avail, s2, hstep⟩ := stageStep_returned h hstage hstart
  rw [stageStep_eq_fills env args stage start.2 j] at hstep
  obtain ⟨point, s, hpoint, _⟩ := bind_ok_iff.mp hstep
  refine ⟨(start.2, point), s, ?_⟩
  unfold mergeFills
  rw [bind_of_ok hstart, bind_of_ok hpoint]
  rfl

theorem mergeFills_post {k : Nat} {stage : Stage} (j : Nat) :
    Post (mergeFills env args k stage j) world.start
      (fun point s => ∃ s0 runs start legs, Pulled env args.call world s0 ∧
        MergeInv (args.call.scope env world) s0 args.call.opening runs (args.stages.val.take k)
          point.1 start ∧
        0 < (weights (stage.fills.val.map Fill.parts)).sum ∧
        point.2.1 = (weights (stage.fills.val.map Fill.parts)).sum ∧
        0 < point.1.amount stage.token ∧
        FillInv (args.call.scope env world) s0 (allLegs runs) stage point.1 legs
          (stage.fills.val.take j) point.2.2 s)
      (fun _ _ => True) := by
  unfold mergeFills stageFills
  refine (mergeStages_post k).bind ?_
  rintro ⟨outBefore, avail⟩ s ⟨s0, runs, hpulled, hinv⟩
  rw [bind_assoc]
  refine Post.bind (P := fun totalParts s' => s' = s ∧ 0 < avail.amount stage.token ∧
    0 < (weights (stage.fills.val.map Fill.parts)).sum ∧
    totalParts = (weights (stage.fills.val.map Fill.parts)).sum)
    (post_stageHeader (fun _ _ => trivial) fun hbal htotal => ⟨rfl, hbal, htotal, rfl⟩) ?_
  rintro _ s' ⟨rfl, hbal, htotal, rfl⟩
  rw [bind_assoc]
  refine (fillLoop_post (List.take_prefix j _) hpulled.opened hinv.journal hinv.books
    hinv.nonneg ⟨hbal, hinv.le_max hpulled.opened _⟩ htotal).bind_mono (fun _ _ _ => trivial) ?_
  rintro acc s'' ⟨legs, hfill⟩
  exact .pure ⟨s0, runs, _, legs, hpulled, hinv, htotal, rfl, hbal, hfill⟩

end Proof

/-- **Provenance.** The invariant holds of every call of `swap_merge`, from any world and
whatever the venues do. -/
theorem provenance (env : Env V) (args : MergeArgs) (world : World V) :
    Provenance env args world where
  through_stages := swapMerge_eq_stages env args
  through_fills := stageStep_eq_fills env args
  stages k start s hrun := by
    obtain ⟨s0, runs, hpulled, hinv⟩ := (mergeStages_post k).ok hrun
    exact backed_of_held hinv.nonneg (hinv.held hpulled.opened)
  fills k stage j avail totalParts allocated now s _ hrun := by
    obtain ⟨s0, runs, s1, legs, hpulled, hinv, _, _, _, hfill⟩ := (mergeFills_post j).ok hrun
    exact backed_of_held hfill.nonneg (hfill.held hpulled.opened hinv.books)
  spends k stage j fill avail totalParts allocated now s fillIn s' _ hfillAt hrun hshare := by
    obtain ⟨s0, runs, s1, legs, _, _, htotal, hparts, hbal, hfill⟩ := (mergeFills_post j).ok hrun
    simp only at hparts hbal hfill
    obtain ⟨hj, hget⟩ := List.getElem?_eq_some_iff.mp hfillAt
    have hlength : (stage.fills.val.take j).length = j := by
      rw [List.length_take]
      omega
    have hsplit : stage.fills.val.take j ++ fill :: stage.fills.val.drop (j + 1) =
        stage.fills.val := by
      rw [← hget, ← List.drop_eq_getElem_cons hj, List.take_append_drop]
    -- the share fits into what is not allocated, and that is what the map still shows
    obtain ⟨-, hle, -⟩ := allocated_branch_map hfill.running hsplit hbal.le htotal
    rw [hparts, show stage.fills.len = (stage.fills.val.map Fill.parts).length from
      (List.length_map _).symm] at hshare
    have hvalue := branchAmount_ok hshare
    have hleft := hfill.left
    rw [hlength, ← hvalue] at hle
    simp only at hleft hle
    omega
  finished k stage start s hstage hrun := by
    obtain ⟨s0, runs, _, hinv⟩ := (mergeStages_post (k + 1)).ok hrun
    rw [List.take_succ_eq_append_getElem (List.getElem?_eq_some_iff.mp hstage).1,
      (List.getElem?_eq_some_iff.mp hstage).2] at hinv
    exact hinv.last_zero
  tracked start s s' hrun hcheck := by
    obtain ⟨s0, runs, _, hinv⟩ := (mergeStages_post _).ok hrun
    obtain ⟨_, hzero⟩ := (deadEndCheck_post args.tokenOut start.2).ok hcheck
    obtain ⟨t, ht⟩ := hinv.some_pos
    by_cases hne : t = args.tokenOut
    · rw [← hne]
      exact ht
    · have := hzero t hne
      omega
  unreached panic s hrun := by
    have hnot : ¬ Unreached panic := (swapMerge_post.error hrun).1
    unfold Unreached at hnot
    tauto

/-- The diamond at the desks. -/
def deskArgs : MergeArgs :=
  ⟨⟨1⟩, ⟨10⟩, ⟨13⟩, .ofUInt32 100, .ofUInt32 90, 0, deskStages⟩

theorem deskArgs_returns : (deskArgs.call.invoke deskEnv (deskWorld 5)).result = .ok 100 := by
  decide +kernel

/-- Its loops come to the point behind the first stage, and to the one behind its first fill. -/
theorem provenance_desk :
    (∃ start s, mergeStages deskEnv deskArgs 1 (deskWorld 5).start = .ok start s ∧
      Backed deskEnv (deskWorld 5) start.2 s ∧ start.2.amount ⟨10⟩ = 0) ∧
    ∃ point s, mergeFills deskEnv deskArgs 0 deskSplit 1 (deskWorld 5).start = .ok point s ∧
      Backed deskEnv (deskWorld 5) point.2.2.2 s := by
  obtain ⟨out, hrun⟩ := EntryCall.invoke_ok deskArgs_returns
  obtain ⟨start, s, hstart⟩ := swapMerge_reaches hrun 1
  obtain ⟨point, s', hpoint⟩ := swapMerge_reaches_fill hrun (show _[0]? = some deskSplit from rfl) 1
  have hprovenance := provenance deskEnv deskArgs (deskWorld 5)
  exact ⟨⟨start, s, hstart, hprovenance.stages 1 start s hstart,
      hprovenance.finished 0 deskSplit start s rfl hstart⟩,
    point, s', hpoint, hprovenance.fills 0 deskSplit 1 _ _ _ _ s' rfl hpoint⟩

end WowmaxStellar
