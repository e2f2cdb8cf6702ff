import WowmaxStellar.Logic.Desk
import WowmaxStellar.Logic.Served
import WowmaxStellar.Theorems.Provenance

/-!
# Zero-weight branches

A branch with zero parts is a malformed plan and should revert. What both executors test is
the computed share, and the last branch gets what rounding down leaves of the others: a
zero-weight branch is rejected everywhere but at the end of its list, and there it is rejected
exactly when nothing is left over for it.

* `parts_verdict` — one split;
* `zero_weight_rejected_iff` — both executors;
* `zero_weight_accepted` — a plan that gets through.
-/

namespace WowmaxStellar

open Runs Split

variable {V : Type}

/-- Every strand has a weight. -/
def SwapArgs.Weighted (args : SwapArgs) : Prop := ∀ strand ∈ args.plan.val, 0 < strand.parts

/-- The input leaves nothing over for a last strand without a weight. -/
def SwapArgs.Earned (args : SwapArgs) : Prop :=
  RemainderEarned args.amountIn (weights (args.plan.val.map Strand.parts))

/-- Every fill has a weight. -/
def MergeArgs.Weighted (args : MergeArgs) : Prop :=
  ∀ stage ∈ args.stages.val, ∀ fill ∈ stage.fills.val, 0 < fill.parts

/-- What a stage finds of its token leaves nothing over for a last fill without a weight. -/
def MergeArgs.Earned (env : Env V) (args : MergeArgs) (world : World V) : Prop :=
  ∀ k stage start s, args.stages.val[k]? = some stage →
    mergeStages env args k world.start = .ok start s →
    RemainderEarned (start.2.amount stage.token) (weights (stage.fills.val.map Fill.parts))

section Parts

variable {amount : Int} {parts : List UInt32}

theorem weight_pos_iff (parts : List UInt32) :
    (∀ w ∈ weights parts, 0 < w) ↔ ∀ p ∈ parts, 0 < p := by
  unfold weights
  rw [List.forall_mem_map]
  have hpart : ∀ p : UInt32, 0 < (p.toNat : Int) ↔ 0 < p := by
    intro p
    rw [UInt32.lt_iff_toNat_lt]
    exact Int.natCast_pos
  simp only [hpart]

/-- A split without empty shares. -/
theorem parts_verdict (h0 : 0 ≤ amount) (htotal : 0 < (weights parts).sum)
    (hshares : ∀ share ∈ shares amount (weights parts), 0 < share) :
    (∀ p ∈ parts, 0 < p) ↔ RemainderEarned amount (weights parts) := by
  rw [← weight_pos_iff]
  exact weights_pos_iff h0 htotal (weights_nonneg parts) hshares

end Parts

section Calls

variable {env : Env V} {world : World V}

/-- The shares of a `swap` that returned. -/
theorem swap_shares_pos {args : SwapArgs} {out : Int} {s : State V}
    (h : args.call.run env world.start = .ok out s) :
    0 < (args.amountIn : Int) ∧ 0 < (weights (args.plan.val.map Strand.parts)).sum ∧
      ∀ share ∈ shares args.amountIn (weights (args.plan.val.map Strand.parts)), 0 < share := by
  have hlength : (args.plan.val.map Strand.parts).length < 2 ^ 32 := by
    rw [List.length_map]
    exact args.plan.property
  suffices hpost : Post (args.call.run env) world.start
      (fun _ _ => 0 < (args.amountIn : Int) ∧ 0 < (weights (args.plan.val.map Strand.parts)).sum ∧
        ∀ share ∈ shares args.amountIn (weights (args.plan.val.map Strand.parts)), 0 < share)
      (fun _ _ => True) from hpost.ok h
  show Post (swap env args.user args.tokenIn args.tokenOut args.amountIn args.amountOutMin
    args.deadline args.plan) _ _ _
  unfold swap
  refine post_entryChecks_bind (fun _ _ => trivial) fun _ hamount _ _ _ => ?_
  refine post_panicIf_bind (fun _ => trivial) fun _ => ?_
  refine post_balance_bind (post_transfer_bind (fun _ => trivial) fun _ _ => ?_)
  rw [sumParts_eq _ hlength, pure_bind]
  refine post_panicIf_bind (fun _ => trivial) fun htotal => ?_
  refine (strandLoop_shares_pos ⟨hamount, args.amountIn.property.2⟩ (by omega)).bind ?_
  intro _ _ hshares
  exact .intro (fun _ _ _ => ⟨hamount, by omega, hshares⟩) fun _ _ _ => trivial

/-- The shares of a stage of a `swap_merge` that returned. -/
theorem stage_shares_pos {args : MergeArgs} {out : Int} {s s' : State V} {k : Nat} {stage : Stage}
    {start : Int × Avail} (h : args.call.run env world.start = .ok out s')
    (hstage : args.stages.val[k]? = some stage)
    (hstart : mergeStages env args k world.start = .ok start s) :
    0 < start.2.amount stage.token ∧ 0 < (weights (stage.fills.val.map Fill.parts)).sum ∧
      ∀ share ∈ shares (start.2.amount stage.token) (weights (stage.fills.val.map Fill.parts)),
        0 < share := by
  obtain ⟨s0, runs, hpulled, hinv⟩ := (mergeStages_post k).ok hstart
  have hmax := hinv.le_max hpulled.opened stage.token
  obtain ⟨_, _, hstep⟩ := stageStep_returned h hstage hstart
  suffices hpost : Post (stageStep env args.deadline stage start.2) s
      (fun _ _ => 0 < start.2.amount stage.token ∧
        0 < (weights (stage.fills.val.map Fill.parts)).sum ∧
        ∀ share ∈ shares (start.2.amount stage.token) (weights (stage.fills.val.map Fill.parts)),
          0 < share)
      (fun _ _ => True) from hpost.ok hstep
  unfold stageStep
  refine Post.bind (P := fun totalParts _ => 0 < start.2.amount stage.token ∧
    0 < (weights (stage.fills.val.map Fill.parts)).sum ∧
    totalParts = (weights (stage.fills.val.map Fill.parts)).sum)
    (post_stageHeader (fun _ _ => trivial) fun hbal htotal => ⟨hbal, htotal, rfl⟩) ?_
  rintro _ s1 ⟨hbal, htotal, rfl⟩
  refine (fillLoop_shares_pos start.2 ⟨hbal, hmax⟩ htotal).bind ?_
  intro _ _ hshares
  exact .pure ⟨hbal, htotal, hshares⟩

end Calls

/-- **When zero-weight branches are rejected.** In a call that returned, every branch has a
weight exactly when no split left something over for a last branch without one. -/
theorem zero_weight_rejected_iff (env : Env V) (world : World V) :
    (∀ (args : SwapArgs) (out : Int), (args.call.invoke env world).result = .ok out →
        (args.Weighted ↔ args.Earned)) ∧
      ∀ (args : MergeArgs) (out : Int), (args.call.invoke env world).result = .ok out →
        (args.Weighted ↔ args.Earned env world) := by
  constructor
  · intro args out hresult
    obtain ⟨s, hrun⟩ := EntryCall.invoke_ok hresult
    obtain ⟨hamount, htotal, hshares⟩ := swap_shares_pos hrun
    have hverdict := parts_verdict hamount.le htotal hshares
    rw [List.forall_mem_map] at hverdict
    exact hverdict
  · intro args out hresult
    obtain ⟨s, hrun⟩ := EntryCall.invoke_ok hresult
    constructor
    · intro hweighted k stage start s' hstage hstart
      obtain ⟨hbal, htotal, hshares⟩ := stage_shares_pos hrun hstage hstart
      rw [← parts_verdict hbal.le htotal hshares, List.forall_mem_map]
      exact hweighted stage (List.mem_of_getElem? hstage)
    · intro hearned stage hmem
      obtain ⟨k, hstage⟩ := List.mem_iff_getElem?.mp hmem
      obtain ⟨start, s', hstart⟩ := swapMerge_reaches hrun k
      obtain ⟨hbal, htotal, hshares⟩ := stage_shares_pos hrun hstage hstart
      have hverdict := parts_verdict hbal.le htotal hshares
      rw [List.forall_mem_map] at hverdict
      exact hverdict.mpr (hearned k stage start s' hstage hstart)

/-- 101 units of token 10 for token 13, over the fills of one stage. -/
def deskFills (first second third : UInt32) : MergeArgs where
  user := ⟨1⟩
  tokenIn := ⟨10⟩
  tokenOut := ⟨13⟩
  amountIn := .ofUInt32 101
  amountOutMin := .ofUInt32 90
  deadline := 0
  stages := .single ⟨⟨10⟩, ⟨[(deskHop 20 10 13).toFill first, (deskHop 21 10 13).toFill second,
    (deskHop 22 10 13).toFill third], by simp⟩⟩

/-- 101 units over two strands of one hop. -/
def deskStrands (first second : UInt32) : SwapArgs where
  user := ⟨1⟩
  tokenIn := ⟨10⟩
  tokenOut := ⟨13⟩
  amountIn := .ofUInt32 101
  amountOutMin := .ofUInt32 90
  deadline := 0
  plan := ⟨[⟨first, .single (deskHop 20 10 13)⟩, ⟨second, .single (deskHop 21 10 13)⟩], by simp⟩

theorem zero_weight_rejected_iff_desk :
    ((deskStrands 1 2).Weighted ↔ (deskStrands 1 2).Earned) ∧
      ((deskFills 1 1 2).Weighted ↔ (deskFills 1 1 2).Earned deskEnv (deskWorld 0)) := by
  have hswap : ((deskStrands 1 2).call.invoke deskEnv (deskWorld 0)).result = .ok 101 := by
    decide +kernel
  have hmerge : ((deskFills 1 1 2).call.invoke deskEnv (deskWorld 0)).result = .ok 101 := by
    decide +kernel
  obtain ⟨hstrands, hfills⟩ := zero_weight_rejected_iff deskEnv (deskWorld 0)
  exact ⟨hstrands (deskStrands 1 2) 101 hswap, hfills (deskFills 1 1 2) 101 hmerge⟩

/-- Halves of an odd amount leave one unit for a third fill without a weight. -/
theorem zero_weight_accepted :
    ((deskFills 1 1 0).call.invoke deskEnv (deskWorld 0)).result = .ok 101 ∧
      ¬ (deskFills 1 1 0).Weighted := by
  refine ⟨by decide +kernel, fun hweighted => ?_⟩
  have hlast := hweighted _ (List.mem_singleton_self _) ((deskHop 22 10 13).toFill 0) (by simp)
  exact absurd hlast (by decide)

end WowmaxStellar
