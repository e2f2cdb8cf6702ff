import WowmaxStellar.Theorems.FillOrder
import WowmaxStellar.Theorems.PlanCheck
import WowmaxStellar.Theorems.StageOrder

/-!
# Which plans `swap_merge` executes

A planner has a set of stages, one for each token that is traded on, and must list them. What
can be executed at all are the networks from the input to the output without a cycle, and of
their lists the topological orders, of which there always is one.

* `staticCheck_iff_network` — the static check, in terms of the network;
* `plans_are_networks` — what `swap_merge` makes of the lists of a set of stages.
-/

namespace WowmaxStellar

open Runs Networks

/-- What can be checked on a stage by itself. -/
def Stage.Sound (stage : Stage) : Prop :=
  stage.fills.len ≠ 0 ∧ (∃ fill ∈ stage.fills.val, fill.parts ≠ 0) ∧
    ∀ fill ∈ stage.fills.val, fill.WellFormed stage.token

/-- Sound stages that lead from `tokenIn` to `tokenOut`. -/
structure RouteNetwork (tokenIn tokenOut : Address) (stages : List Stage) : Prop where
  sound : ∀ stage ∈ stages, stage.Sound
  network : stageWiring.Network tokenIn tokenOut stages

section Check

variable {tokenIn tokenOut : Address} {stages order : List Stage}

theorem RouteNetwork.perm (h : RouteNetwork tokenIn tokenOut stages) (hperm : stages.Perm order) :
    RouteNetwork tokenIn tokenOut order where
  sound stage hmem := h.sound stage (hperm.symm.subset hmem)
  network := h.network.perm hperm

theorem inOrder_iff : InOrder stages ↔ stageWiring.Topological stages := by
  refine List.Pairwise.iff fun earlier later => ?_
  simp [stageWiring]

theorem Stage.Sound.outs_nonempty {stage : Stage} (h : stage.Sound) :
    (stageWiring.outs stage).Nonempty := by
  obtain ⟨-, ⟨fill, hfill, -⟩, -⟩ := h
  exact ⟨fill.tokenOut, List.mem_toFinset.mpr (List.mem_map_of_mem hfill)⟩

/-- Stage by stage the static check looks for the token and checks the stage by itself. -/
theorem staticCheck_iff_scheduled :
    staticCheck tokenOut {tokenIn} stages ↔
      (∀ stage ∈ stages, stage.Sound) ∧ stageWiring.Scheduled tokenIn tokenOut stages := by
  rw [staticCheck_iff]
  constructor
  · rintro ⟨hwell, hend⟩
    refine ⟨?_, fun done stage rest hsplit => (hwell done stage rest hsplit).1, hend⟩
    intro stage hmem
    obtain ⟨done, rest, hsplit⟩ := List.append_of_mem hmem
    exact (hwell done stage rest hsplit.symm).2
  · rintro ⟨hsound, hfed, hend⟩
    refine ⟨?_, hend⟩
    rintro done stage rest rfl
    exact ⟨hfed done stage rest rfl, hsound stage (by simp)⟩

theorem staticCheck_iff_network (hheads : (stages.map Stage.token).Nodup)
    (hkept : ∀ stage ∈ stages, stage.token ≠ tokenOut) (hne : tokenIn ≠ tokenOut) :
    staticCheck tokenOut {tokenIn} stages ↔
      RouteNetwork tokenIn tokenOut stages ∧ InOrder stages := by
  rw [staticCheck_iff_scheduled, inOrder_iff]
  constructor
  · rintro ⟨hsound, hscheduled⟩
    obtain ⟨hnetwork, horder⟩ := (Wiring.scheduled_iff hheads hkept hne
      fun stage hmem => (hsound stage hmem).outs_nonempty).mp hscheduled
    exact ⟨⟨hsound, hnetwork⟩, horder⟩
  · rintro ⟨⟨hsound, hnetwork⟩, horder⟩
    refine ⟨hsound, ?_⟩
    exact hnetwork.scheduled horder hheads hkept fun stage hmem => (hsound stage hmem).outs_nonempty

end Check

/-- Venues that deliver and tokens that refuse nothing, for a call that is admitted. -/
structure MergeArgs.WellServed {V : Type} (env : Env V) (ready : V → Ledger → Prop)
    (args : MergeArgs) (world : World V) : Prop where
  standard : env.Standard
  admitted : args.Admitted env world
  delivers : ∀ hop ∈ mergeEdges args.stages.val, hop.Routed → hop.tokenIn ≠ hop.tokenOut →
    hop.Delivers env args.deadline ready
  ready : ∀ ledger, world.ledger.transfer args.tokenIn args.user env.contract args.amountIn =
    .ok ledger → ready world.venues ledger

/-- What `swap_merge` makes of the lists of some stages: only a network can be executed, and
only in a topological order, of which there is one; and there, nothing but the amounts can
stop it. -/
structure MergeArgs.ExecutesNetworks (args : MergeArgs) : Prop where
  accepted : ∀ {V : Type} (env : Env V) (world : World V) (order : Vec Stage) (out : Int),
    order.val.Perm args.stages.val →
    ((args.withStages order).call.invoke env world).result = .ok out →
    RouteNetwork args.tokenIn args.tokenOut args.stages.val ∧ InOrder order.val
  ordered : RouteNetwork args.tokenIn args.tokenOut args.stages.val →
    ∃ order : Vec Stage, order.val.Perm args.stages.val ∧ InOrder order.val
  executed : RouteNetwork args.tokenIn args.tokenOut args.stages.val →
    ∀ {V : Type} (env : Env V) (ready : V → Ledger → Prop) (world : World V) (order : Vec Stage),
      order.val.Perm args.stages.val → InOrder order.val →
      (args.withStages order).WellServed env ready world →
      ((args.withStages order).call.invoke env world).result ≠ .error (.host .balanceOverflow) →
      ((∃ out, ((args.withStages order).call.invoke env world).result = .ok out) ↔
        (args.withStages order).SharesPositive env world ∧
          (args.withStages order).MinimumMet env world)

section Orders

variable {V : Type} {env : Env V} {world : World V} {args : MergeArgs}

/-- A call that returned has listed a network in a topological order. -/
theorem network_of_returned {out : Int} {s : State V}
    (hrun : args.call.run env world.start = .ok out s)
    (hheads : (args.stages.val.map Stage.token).Nodup)
    (hkept : ∀ stage ∈ args.stages.val, stage.token ≠ args.tokenOut) :
    RouteNetwork args.tokenIn args.tokenOut args.stages.val ∧ InOrder args.stages.val := by
  obtain ⟨hcheck, -, -⟩ := checked_of_returned hrun
  obtain ⟨s0, legs, s1, hcompleted⟩ := (args.call.run_post env world).ok hrun
  have hne : args.tokenIn ≠ args.tokenOut := hcompleted.pulled.distinct
  exact (staticCheck_iff_network hheads hkept hne).mp hcheck

/-- A network in a topological order goes through exactly when its amounts come out. -/
theorem network_returns_iff {ready : V → Ledger → Prop}
    (hheads : (args.stages.val.map Stage.token).Nodup)
    (hkept : ∀ stage ∈ args.stages.val, stage.token ≠ args.tokenOut)
    (hnetwork : RouteNetwork args.tokenIn args.tokenOut args.stages.val)
    (horder : InOrder args.stages.val) (hserved : args.WellServed env ready world)
    (hfits : (args.call.invoke env world).result ≠ .error (.host .balanceOverflow)) :
    (∃ out, (args.call.invoke env world).result = .ok out) ↔
      args.SharesPositive env world ∧ args.MinimumMet env world := by
  constructor
  · rintro ⟨out, hresult⟩
    obtain ⟨s, hrun⟩ := EntryCall.invoke_ok hresult
    exact (checked_of_returned hrun).2
  · rintro ⟨hshares, hminimum⟩
    have hcheck := (staticCheck_iff_network hheads hkept hserved.admitted.distinct).mpr
      ⟨hnetwork, horder⟩
    have hgoes := run_goes_on hserved.standard hserved.admitted hserved.delivers hserved.ready
      hcheck hshares hminimum
    cases hrun : args.call.run env world.start with
    | ok out s => exact ⟨out, congrArg Invocation.result (EntryCall.invoke_of_ok hrun)⟩
    | error panic s => exact absurd (hgoes.error hrun) (EntryCall.not_overflowed hfits panic s hrun)

end Orders

/-- **Plans are networks.** Of some stages, none of which trades on the output and no two on
one token, `swap_merge` executes the networks, in their topological orders. -/
theorem plans_are_networks (args : MergeArgs) (hheads : (args.stages.val.map Stage.token).Nodup)
    (hkept : ∀ stage ∈ args.stages.val, stage.token ≠ args.tokenOut) : args.ExecutesNetworks where
  accepted := by
    intro V env world order out hperm hresult
    obtain ⟨s, hrun⟩ := EntryCall.invoke_ok hresult
    have hheads' : (order.val.map Stage.token).Nodup := (hperm.map _).nodup_iff.mpr hheads
    obtain ⟨hnetwork, horder⟩ := network_of_returned hrun hheads' fun stage hmem =>
      hkept stage (hperm.subset hmem)
    exact ⟨hnetwork.perm hperm, horder⟩
  ordered := by
    intro hnetwork
    obtain ⟨order, hperm, horder⟩ := Wiring.exists_topological hnetwork.network.acyclic
    have hlength : order.length < 2 ^ 32 := by
      rw [hperm.length_eq]
      exact args.stages.property
    exact ⟨⟨order, hlength⟩, hperm, inOrder_iff.mpr horder⟩
  executed := by
    intro hnetwork V env ready world order hperm horder hserved hfits
    have hheads' : (order.val.map Stage.token).Nodup := (hperm.map _).nodup_iff.mpr hheads
    exact network_returns_iff hheads' (fun stage hmem => hkept stage (hperm.subset hmem))
      (hnetwork.perm hperm.symm) horder hserved hfits

/-- The diamond of the desks, listed the wrong way round. -/
def deskDiamond : MergeArgs :=
  ⟨⟨1⟩, ⟨10⟩, ⟨13⟩, .ofUInt32 100, .ofUInt32 90, 0, ⟨[deskRight, deskLeft, deskSplit], by decide⟩⟩

theorem deskStages_served :
    (deskDiamond.withStages deskStages).WellServed deskEnv (fun _ _ => True) (deskWorld 0) where
  standard _ _ _ _ _ _ := rfl
  admitted :=
    { signed := by decide
      amount_pos := by decide
      min_nonneg := by decide
      distinct := by decide
      in_time := by decide
      stages := by decide
      held := by decide }
  delivers := by
    intro hop hmem _ _
    have hedges : mergeEdges (deskDiamond.withStages deskStages).stages.val = [deskHop 20 10 11,
      deskHop 21 10 12, deskHop 22 11 13, deskHop 23 12 13] := rfl
    rw [hedges] at hmem
    simp only [List.mem_cons, List.not_mem_nil, or_false] at hmem
    rcases hmem with rfl | rfl | rfl | rfl <;>
      exact (deskHop_atDesk (by decide) (by decide)).delivers _
  ready _ _ := trivial

/-- It goes through the right way round, so it is a network; networks can be listed in order, and
then only the amounts count. -/
theorem plans_are_networks_desk :
    (RouteNetwork ⟨10⟩ ⟨13⟩ deskDiamond.stages.val ∧ InOrder deskStages.val) ∧
      (∃ order : Vec Stage, order.val.Perm deskDiamond.stages.val ∧ InOrder order.val) ∧
      ((∃ out, ((deskDiamond.withStages deskStages).call.invoke deskEnv (deskWorld 0)).result =
          .ok out) ↔
        (deskDiamond.withStages deskStages).SharesPositive deskEnv (deskWorld 0) ∧
          (deskDiamond.withStages deskStages).MinimumMet deskEnv (deskWorld 0)) := by
  have hplans := plans_are_networks deskDiamond (by decide) (by decide)
  have hperm : deskStages.val.Perm deskDiamond.stages.val := (List.reverse_perm deskStages.val).symm
  have hresult : ((deskDiamond.withStages deskStages).call.invoke deskEnv (deskWorld 0)).result =
      .ok 100 := by decide +kernel
  obtain ⟨hnetwork, horder⟩ := hplans.accepted deskEnv (deskWorld 0) deskStages 100 hperm hresult
  refine ⟨⟨hnetwork, horder⟩, hplans.ordered hnetwork, ?_⟩
  apply hplans.executed hnetwork deskEnv (fun _ _ => True) (deskWorld 0) deskStages hperm horder
    deskStages_served
  rw [hresult]
  exact nofun

end WowmaxStellar
