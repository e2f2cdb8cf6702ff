import WowmaxStellar.Logic.Agreement
import WowmaxStellar.Logic.Desk

/-!
# The order of the stages

A planner may list the stages of a `swap_merge` in any topological order. With honest
venues, a stage for each token at most and no pool in two stages, all these orders come
to the same: the same result, the same balances, the same pools.
-/

namespace WowmaxStellar

open Runs Dataflow

/-- No fill delivers a token that was staged before. -/
def InOrder (stages : List Stage) : Prop :=
  stages.Pairwise fun earlier later => ∀ fill ∈ later.fills.val, fill.tokenOut ≠ earlier.token

/-- No two stages trade on the same pool. -/
def Pools.Separate {ι P : Type} (pools : Pools ι P) (stages : List Stage) : Prop :=
  stages.Pairwise fun stage stage' => ∀ hop ∈ stage.edges, ∀ hop' ∈ stage'.edges,
    pools.pool hop ≠ pools.pool hop'

section Payout

variable {V α β : Type} {env : Env V} {s t : State V}

/-- The payout sees the world only. -/
theorem settleMerge_lockstep {user tokenOut : Address} {outBefore amountOutMin trackedOut : Int}
    (hworld : s.world = t.world) :
    Lockstep Overflowed (fun _ _ _ _ => True) (fun out out' s t => out = out' ∧ s.world = t.world)
      (settleMerge env user tokenOut outBefore amountOutMin trackedOut s)
      (settleMerge env user tokenOut outBefore amountOutMin trackedOut t) := by
  have hledger : s.ledger = t.ledger := congrArg World.ledger hworld
  unfold settleMerge
  refine lockstep_balance_bind (lockstep_checkedSub_bind (by rw [hledger]) trivial fun _ => ?_)
  rw [hledger]
  refine lockstep_panicIf_bind Iff.rfl trivial fun _ _ => ?_
  refine lockstep_panicIf_bind Iff.rfl trivial fun _ _ => ?_
  refine lockstep_panicIf_bind Iff.rfl trivial fun _ _ => ?_
  exact lockstep_transfer_bind (s := s.served _) (t := t.served _) hworld
    fun s' t' hsame => ⟨rfl, hsame⟩

end Payout

section Orders

variable {ι P : Type} [DecidableEq ι] {pools : Pools ι P} {env : Env (ι → P)} {deadline : UInt64}
  {ready : (ι → P) → Ledger → Prop} {stages stages' : Vec Stage}

/-- Both orders of the stages are the same run of the dataflow. -/
theorem Pools.run_reordered (pools : Pools ι P) (hperm : stages.val.Perm stages'.val)
    (hheads : (stages.val.map Stage.token).Nodup) (hpools : pools.Separate stages.val)
    (horder : InOrder stages.val) (horder' : InOrder stages'.val)
    (store : Store Address ι P (Address → Address → Int)) :
    pools.net.run stages.val store = pools.net.run stages'.val store := by
  have htopological : ∀ stages : List Stage, InOrder stages → pools.net.Topological stages := by
    intro stages horder
    refine horder.imp ?_
    rintro earlier later hnot ⟨fill, hfill, heq⟩
    exact hnot fill hfill heq
  refine Net.run_perm hperm hheads ?_ (fun stage _ => pools.net_lawful stage)
    (htopological _ horder) (htopological _ horder') store
  refine hpools.imp ?_
  rintro stage stage' hseparate i ⟨hop, hhop, rfl⟩ ⟨hop', hhop', heq⟩
  exact hseparate hop hhop hop' hhop' heq.symm

/-- The stage loops of the two orders, from one state. -/
theorem stageLoop_reordered {scope : Scope (ι → P)} {s0 : State (ι → P)}
    {start : Address → Int} {avail : Avail}
    (hperm : stages.val.Perm stages'.val) (hheads : (stages.val.map Stage.token).Nodup)
    (hpools : pools.Separate stages.val) (horder : InOrder stages.val)
    (horder' : InOrder stages'.val)
    (hhonest : ∀ hop ∈ mergeEdges stages.val, pools.Honest scope.env scope.deadline ready hop)
    (hopened : scope.Opened start s0) (hinv : MergeInv scope s0 start [] [] avail s0)
    (hready : ready s0.venues s0.ledger) :
    Lockstep Overflowed (fun _ _ _ _ => True)
      (fun avail1 avail2 s t => avail1.amount = avail2.amount ∧ s.world = t.world)
      (loop (fun _ => stageStep scope.env scope.deadline) 0 stages.val avail s0)
      (loop (fun _ => stageStep scope.env scope.deadline) 0 stages'.val avail s0) := by
  let store : Store Address ι P (Address → Address → Int) :=
    ⟨avail.amount, s0.venues, s0.ledger.balance⟩
  have hstored : Stored ready avail s0 store := ⟨rfl, rfl, rfl, hready⟩
  have hedges : ∀ hop ∈ mergeEdges stages'.val,
      pools.Honest scope.env scope.deadline ready hop := by
    intro hop hmem
    obtain ⟨stage, hstage, hhop⟩ := List.mem_flatMap.mp hmem
    exact hhonest hop (List.mem_flatMap.mpr ⟨stage, hperm.symm.subset hstage, hhop⟩)
  have htracks := pools.stageLoop hhonest hopened hinv hstored
  have htracks' := pools.stageLoop hedges hopened hinv hstored
  rw [← pools.run_reordered hperm hheads hpools horder horder'] at htracks'
  refine (htracks.lockstep htracks').mono ?_
  rintro avail1 avail2 s t ⟨store', hend, hend'⟩
  refine ⟨hend.avail.trans hend'.avail.symm, ?_⟩
  exact State.world_eq (fun _ _ => by rw [hend.ledger, hend'.ledger])
    (hend.venues.trans hend'.venues.symm)

/-- The dead-end check sees the amounts only. -/
theorem deadEndCheck_lockstep {X : Panic → Prop} (tokenOut : Address) {avail1 avail2 : Avail}
    (hamount : avail1.amount = avail2.amount) (s t : State V) :
    Lockstep X (fun _ _ _ _ => True) (fun _ _ s' t' => s' = s ∧ t' = t)
      (deadEndCheck tokenOut avail1 s) (deadEndCheck tokenOut avail2 t) := by
  by_cases hzero : ∀ x, x ≠ tokenOut → avail1.amount x = 0
  · rw [deadEndCheck_eq hzero, deadEndCheck_eq fun x hx => by rw [← hamount]; exact hzero x hx]
    exact ⟨rfl, rfl⟩
  · -- the check fails on both maps
    have hfails : ∀ (avail : Avail) (s : State V), avail.amount = avail1.amount →
        ∃ panic s', deadEndCheck tokenOut avail s = .error panic s' := by
      intro avail s heq
      cases hrun : deadEndCheck tokenOut avail s with
      | ok u s' =>
          rw [← heq] at hzero
          exact absurd ((deadEndCheck_post tokenOut avail).ok hrun).2 hzero
      | error panic s' => exact ⟨panic, s', rfl⟩
    obtain ⟨panic, s', hrun⟩ := hfails avail1 s rfl
    obtain ⟨panic', t', hrun'⟩ := hfails avail2 t hamount.symm
    rw [hrun, hrun']
    exact .inr (.inr trivial)

variable {user tokenIn : Address} {amountIn : I128} {world : World (ι → P)}

/-- The runs of the two orders. -/
theorem swapMerge_reordered (tokenOut : Address) (amountOutMin : I128)
    (hperm : stages.val.Perm stages'.val) (hheads : (stages.val.map Stage.token).Nodup)
    (hpools : pools.Separate stages.val) (horder : InOrder stages.val)
    (horder' : InOrder stages'.val)
    (hhonest : ∀ hop ∈ mergeEdges stages.val, pools.Honest env deadline ready hop)
    (hready : ∀ ledger, world.ledger.transfer tokenIn user env.contract amountIn = .ok ledger →
      ready world.venues ledger) :
    Lockstep Overflowed (fun _ _ _ _ => True) (fun out out' s t => out = out' ∧ s.world = t.world)
      (EntryCall.run env (.swapMerge user tokenIn tokenOut amountIn amountOutMin deadline stages)
        world.start)
      (EntryCall.run env (.swapMerge user tokenIn tokenOut amountIn amountOutMin deadline stages')
        world.start) := by
  -- the entry looks at the number of stages only
  have hentry : mergeEntry env user tokenIn tokenOut amountIn amountOutMin deadline stages' =
      mergeEntry env user tokenIn tokenOut amountIn amountOutMin deadline stages := by
    unfold mergeEntry
    rw [show stages'.len = stages.len from hperm.length_eq.symm]
  show Lockstep _ _ _
    (swapMerge env user tokenIn tokenOut amountIn amountOutMin deadline stages world.start)
    (swapMerge env user tokenIn tokenOut amountIn amountOutMin deadline stages' world.start)
  unfold swapMerge
  rw [hentry]
  refine mergeEntry_post.ran.lockstep_bind ?_
  rintro _ s0 ⟨hrun, rfl, hpulled⟩
  let call : EntryCall := .swapMerge user tokenIn tokenOut amountIn amountOutMin deadline stages
  have hopened : (call.scope env world).Opened _ _ := hpulled.opened
  have hready0 : ready s0.venues s0.ledger := by
    rw [mergeEntry_venues hrun]
    exact hready _ hpulled.transfer
  refine (stageLoop_reordered hperm hheads hpools horder horder' hhonest hopened
    (.start hpulled.amount_pos) hready0).bind ?_
  rintro avail1 avail2 s t - - ⟨hamount, hworld⟩
  refine (deadEndCheck_lockstep tokenOut hamount s t).bind ?_
  rintro _ _ _ _ - - ⟨rfl, rfl⟩
  rw [hamount]
  exact settleMerge_lockstep hworld

end Orders

/-- **Order of the stages.** If `swap_merge` returns on one topological order of some
stages, it returns the same on every other one and leaves the same world, unless a balance
overflows there. -/
theorem stage_order_irrelevant {ι P : Type} [DecidableEq ι] (pools : Pools ι P)
    (ready : (ι → P) → Ledger → Prop) (env : Env (ι → P)) (world : World (ι → P))
    (user tokenIn tokenOut : Address) (amountIn amountOutMin : I128) (deadline : UInt64)
    (stages stages' : Vec Stage) (out : Int)
    (hhonest : ∀ hop ∈ mergeEdges stages.val, pools.Honest env deadline ready hop)
    (hready : ∀ ledger, world.ledger.transfer tokenIn user env.contract amountIn = .ok ledger →
      ready world.venues ledger)
    (hheads : (stages.val.map Stage.token).Nodup) (hpools : pools.Separate stages.val)
    (hperm : stages.val.Perm stages'.val) (horder : InOrder stages.val)
    (horder' : InOrder stages'.val)
    (hok : (EntryCall.invoke env (.swapMerge user tokenIn tokenOut amountIn amountOutMin deadline
      stages) world).result = .ok out)
    (hfits : (EntryCall.invoke env (.swapMerge user tokenIn tokenOut amountIn amountOutMin deadline
      stages') world).result ≠ .error (.host .balanceOverflow)) :
    (EntryCall.invoke env (.swapMerge user tokenIn tokenOut amountIn amountOutMin deadline stages')
        world).result = .ok out ∧
      (EntryCall.invoke env (.swapMerge user tokenIn tokenOut amountIn amountOutMin deadline
          stages') world).world =
        (EntryCall.invoke env (.swapMerge user tokenIn tokenOut amountIn amountOutMin deadline
          stages) world).world := by
  have hlockstep := swapMerge_reordered tokenOut amountOutMin hperm hheads hpools horder horder'
    hhonest hready
  -- the first order is known to return
  have hfits₀ : (EntryCall.invoke env (.swapMerge user tokenIn tokenOut amountIn amountOutMin
      deadline stages) world).result ≠ .error (.host .balanceOverflow) := by
    rw [hok]
    exact nofun
  obtain ⟨hresult, hworld, -⟩ := invoke_of_lockstep hlockstep (fun _ _ _ _ hsame => hsame)
    (EntryCall.not_overflowed hfits₀) (EntryCall.not_overflowed hfits)
  exact ⟨(hresult out).mp hok, hworld.symm⟩

/-- The two legs of the diamond may come in either order. -/
theorem stage_order_irrelevant_desk :
    ((deskMerge ⟨[deskSplit, deskRight, deskLeft], by decide⟩).invoke deskEnv
        (deskWorld 0)).result = .ok 100 ∧
      ((deskMerge ⟨[deskSplit, deskRight, deskLeft], by decide⟩).invoke deskEnv
          (deskWorld 0)).world =
        ((deskMerge ⟨[deskSplit, deskLeft, deskRight], by decide⟩).invoke deskEnv
          (deskWorld 0)).world := by
  have hdesks : ∀ hop ∈ mergeEdges [deskSplit, deskLeft, deskRight], hop.AtDesk := by
    intro hop hmem
    simp only [mergeEdges, Stage.edges, deskSplit, deskLeft, deskRight, List.flatMap_cons,
      List.flatMap_nil, Vec.single_val, List.map_cons, List.map_nil, List.cons_append,
      List.nil_append, List.mem_cons, List.not_mem_nil, or_false] at hmem
    rcases hmem with rfl | rfl | rfl | rfl <;> exact deskHop_atDesk (by decide) (by decide)
  refine stage_order_irrelevant deskPools (fun _ _ => True) deskEnv (deskWorld 0) _ _ _ _ _ _ _ _ _
    (fun hop hmem => desk_honest (hdesks hop hmem)) (fun _ _ => trivial) ?_ ?_ ?_ ?_ ?_ ?_ ?_
  · decide
  · show List.Pairwise _ [deskSplit, deskLeft, deskRight]
    unfold deskPools
    decide
  · exact .cons _ (.swap ..)
  · show List.Pairwise _ [deskSplit, deskLeft, deskRight]
    decide
  · show List.Pairwise _ [deskSplit, deskRight, deskLeft]
    decide
  · decide +kernel
  · decide +kernel

end WowmaxStellar
