import WowmaxStellar.Logic.Fans

/-!
# The order of the fills

The fills of a stage trade one after the other on what their stage held when it began. With
honest venues, standard tokens and no pool in two fills of a stage their order does not matter,
as long as the last one, which gets what rounding down leaves of the others, stays where it is
and no balance overflows. Different stages may well trade on the same pools.

* `Pools.portionFill_comm` — two fills that are not the last may be swapped;
* `Pools.stage_reordered`, `Pools.run_fills_reordered` — stages, and lists of stages;
* `fill_order_irrelevant` — the same result and the same world.
-/

namespace WowmaxStellar

open Runs Flow Split Dataflow

/-- The same stage with its fills but the last in another order. -/
structure Stage.Reordered (stage stage' : Stage) : Prop where
  token : stage.token = stage'.token
  perm : stage.fills.val.Perm stage'.fills.val
  last : stage.fills.val.getLast? = stage'.fills.val.getLast?

/-- No two fills of the stage trade on the same pool. -/
def Pools.FillsApart {ι P : Type} (pools : Pools ι P) (stage : Stage) : Prop :=
  stage.fills.val.Pairwise fun fill fill' =>
    pools.pool (fill.toHop stage.token) ≠ pools.pool (fill'.toHop stage.token)

section Stages

variable {ι P : Type} [DecidableEq ι] {pools : Pools ι P} {stage stage' : Stage} {bal : Int}
  {index : Nat}

/-- A fill sees the total of the parts and the number of the fills, not their order. -/
theorem Pools.fill_reordered (h : stage.Reordered stage') :
    pools.fill stage bal = pools.fill stage' bal := by
  have hlen : stage.fills.len = stage'.fills.len := h.perm.length_eq
  have hweights := (h.perm.map Fill.parts).map fun p => (p.toNat : Int)
  have hsum : (weights (stage.fills.val.map Fill.parts)).sum =
      (weights (stage'.fills.val.map Fill.parts)).sum := hweights.sum_eq
  have hcount : (weights (stage.fills.val.map Fill.parts)).length =
      (weights (stage'.fills.val.map Fill.parts)).length := hweights.length_eq
  funext index fill tally
  unfold Pools.fill branch
  rw [h.token, hlen, hsum, hcount]

open Classical in
/-- A fill that is not the last of its stage trades its portion, whatever is allocated. -/
noncomputable def Pools.portionFill (pools : Pools ι P) (stage : Stage) (bal : Int) (fill : Fill)
    (tally : Tally ι P) : Option (Tally ι P) :=
  let hop := fill.toHop stage.token
  let share := portion bal (weights (stage.fills.val.map Fill.parts)).sum fill.parts.toNat
  if ¬ InI128 (bal * fill.parts.toNat) ∨ fill.tokenOut = stage.token then none
  else (pools.trade hop share tally.venues).map fun quote =>
    { allocated := tally.allocated + share
      out := fun t => tally.out t + if t = fill.tokenOut then quote.out else 0
      moves := tally.moves + quote.moves
      venues := Function.update tally.venues (pools.pool hop) quote.next }

theorem Pools.fill_of_not_last (hindex : index ≠ stage.fills.len - 1) :
    pools.fill stage bal index = pools.portionFill stage bal := by
  have hcount : (weights (stage.fills.val.map Fill.parts)).length = stage.fills.len := by
    rw [length_weights, List.length_map]
    rfl
  funext fill tally
  by_cases hstops : ¬ InI128 (bal * fill.parts.toNat) ∨ fill.tokenOut = stage.token
  · have hnone : pools.portionFill stage bal fill tally = none := if_pos hstops
    rw [hnone]
    refine if_pos (hstops.imp (fun hover => ⟨hindex, hover⟩) fun hback => .inl hback)
  · have hgoes : pools.portionFill stage bal fill tally = _ := if_neg hstops
    rw [hgoes]
    refine Pools.fill_eq_trade pools (fun hover => hstops (.inl hover.2))
      (fun hback => hstops (.inr hback)) ?_
    unfold branch
    rw [hcount, if_neg hindex]

/-- A trade depends on its own pool only. -/
theorem Pools.trade_update {hop : Hop} {amount : Int} {venues : ι → P} {i : ι}
    (hpool : pools.pool hop ≠ i) (p : P) :
    pools.trade hop amount (Function.update venues i p) = pools.trade hop amount venues := by
  unfold Pools.trade
  rw [Function.update_of_ne hpool]

/-- Two fills on different pools may be swapped. -/
theorem Pools.portionFill_comm {fill fill' : Fill}
    (hpool : pools.pool (fill.toHop stage.token) ≠ pools.pool (fill'.toHop stage.token))
    (tally : Tally ι P) :
    (pools.portionFill stage bal fill tally).bind (pools.portionFill stage bal fill') =
      (pools.portionFill stage bal fill' tally).bind (pools.portionFill stage bal fill) := by
  unfold Pools.portionFill
  dsimp only
  split
  · simp
  split
  · simp
  simp only [Option.bind_map, Function.comp_def, Pools.trade_update hpool,
    Pools.trade_update hpool.symm]
  cases pools.trade (fill.toHop stage.token) _ tally.venues with
  | none => simp
  | some quote =>
      cases pools.trade (fill'.toHop stage.token) _ tally.venues with
      | none => rfl
      | some quote' =>
          simp only [Option.bind_some, Option.map_some, Option.some.injEq, Tally.mk.injEq]
          refine ⟨by omega, funext fun t => by omega, add_right_comm _ _ _, ?_⟩
          exact Function.update_comm hpool _ _ _

/-- A stage with its fills in another order is the same node. -/
theorem Pools.stage_reordered (h : stage.Reordered stage') (hapart : pools.FillsApart stage) :
    pools.stage stage = pools.stage stage' := by
  have hlen : stage.fills.len = stage'.fills.len := h.perm.length_eq
  have hsum : (weights (stage.fills.val.map Fill.parts)).sum =
      (weights (stage'.fills.val.map Fill.parts)).sum :=
    ((h.perm.map Fill.parts).map _).sum_eq
  funext bal venues
  unfold Pools.stage
  rw [← Pools.fill_reordered h, hlen, hsum]
  congr 2
  rcases List.eq_nil_or_concat stage.fills.val with hnil | ⟨front, final, hfills⟩
  · have hperm := h.perm
    rw [hnil] at hperm
    rw [hnil, List.nil_perm.mp hperm]
  rw [List.concat_eq_append] at hfills
  rcases List.eq_nil_or_concat stage'.fills.val with hnil | ⟨front', final', hfills'⟩
  · have hperm := h.perm
    rw [hfills, hnil] at hperm
    exact absurd (List.perm_nil.mp hperm) (by simp)
  rw [List.concat_eq_append] at hfills'
  have hlast := h.last
  obtain rfl : final = final' := by simpa [hfills, hfills'] using hlast
  have hperm : front.Perm front' := by
    have hall := h.perm
    rw [hfills, hfills'] at hall
    exact (List.perm_append_right_iff [final]).mp hall
  have hcount : stage.fills.len = front.length + 1 := by
    unfold Vec.len
    rw [hfills, List.length_append, List.length_singleton]
  rw [hfills, hfills', walk_append, walk_append, Nat.zero_add, Nat.zero_add, hperm.length_eq]
  congr 1
  -- the fills in front of the last one
  have hsteady : ∀ j, 0 ≤ j → j < 0 + front.length →
      pools.fill stage bal j = pools.portionFill stage bal := by
    intro j _ hj
    exact Pools.fill_of_not_last (by omega)
  have hsteady' : ∀ j, 0 ≤ j → j < 0 + front'.length →
      pools.fill stage bal j = pools.portionFill stage bal := hperm.length_eq ▸ hsteady
  rw [walk_steady hsteady, walk_steady hsteady']
  have hsymm : Std.Symm fun fill fill' : Fill =>
      pools.pool (fill.toHop stage.token) ≠ pools.pool (fill'.toHop stage.token) :=
    ⟨fun _ _ hfar => hfar.symm⟩
  refine walk_perm hperm ?_ 0 _
  intro fill hfill fill' hfill' hne tally
  refine Pools.portionFill_comm (List.Pairwise.forall hapart ?_ ?_ hne) tally
  · rw [hfills]
    exact List.mem_append_left _ hfill
  · rw [hfills]
    exact List.mem_append_left _ hfill'

/-- Lists of stages, each with its fills in another order, are the same dataflow. -/
theorem Pools.run_fills_reordered {stages stages' : List Stage}
    (h : List.Forall₂ Stage.Reordered stages stages')
    (hapart : ∀ stage ∈ stages, pools.FillsApart stage)
    (store : Store Address ι P (Address → Address → Int)) :
    pools.net.run stages store = pools.net.run stages' store := by
  induction h generalizing store with
  | nil => rfl
  | @cons stage stage' rest rest' hstage _ ih =>
      have hnode : pools.net.step stage store = pools.net.step stage' store := by
        have hprocess : pools.net.process stage = pools.net.process stage' :=
          Pools.stage_reordered hstage (hapart stage (List.mem_cons_self ..))
        have hsrc : pools.net.src stage = pools.net.src stage' := hstage.token
        unfold Net.step Net.after
        rw [hprocess, hsrc]
      show (pools.net.step stage store).bind _ = (pools.net.step stage' store).bind _
      rw [hnode]
      exact congrArg _ (funext (ih fun s hs => hapart s (List.mem_cons_of_mem stage hs)))

theorem mergeEdges_reordered {stages stages' : List Stage}
    (h : List.Forall₂ Stage.Reordered stages stages') :
    (mergeEdges stages).Perm (mergeEdges stages') := by
  induction h with
  | nil => exact .nil
  | cons hstage _ ih =>
      refine .append ?_ ih
      unfold Stage.edges
      rw [hstage.token]
      exact hstage.perm.map _

end Stages

/-- The same call with other stages. -/
def MergeArgs.withStages (args : MergeArgs) (stages : Vec Stage) : MergeArgs :=
  { args with stages := stages }

/-- **Order of the fills.** With honest venues and standard tokens, a `swap_merge` in whose stages
the fills but the last are permuted succeeds exactly when the original does, with the same
value, and leaves the same world, unless a balance overflows. -/
theorem fill_order_irrelevant {ι P : Type} [DecidableEq ι] (pools : Pools ι P)
    (ready : (ι → P) → Ledger → Prop) (env : Env (ι → P)) (world : World (ι → P))
    (args : MergeArgs) (stages : Vec Stage) (hstandard : env.Standard)
    (hhonest : ∀ hop ∈ mergeEdges args.stages.val, pools.Honest env args.deadline ready hop)
    (hready : ∀ ledger, world.ledger.transfer args.tokenIn args.user env.contract args.amountIn =
      .ok ledger → ready world.venues ledger)
    (hapart : ∀ stage ∈ args.stages.val, pools.FillsApart stage)
    (horder : List.Forall₂ Stage.Reordered args.stages.val stages.val)
    (hfits : (args.call.invoke env world).result ≠ .error (.host .balanceOverflow))
    (hfits' : ((args.withStages stages).call.invoke env world).result ≠
      .error (.host .balanceOverflow)) :
    (∀ out, (args.call.invoke env world).result = .ok out ↔
        ((args.withStages stages).call.invoke env world).result = .ok out) ∧
      (args.call.invoke env world).world =
        ((args.withStages stages).call.invoke env world).world := by
  refine EntryCall.invoke_of_same_price ⟨rfl, rfl, rfl, rfl, rfl, rfl⟩ trivial trivial hstandard
    hhonest ?_ hready (fun _ => ?_) hfits hfits'
  · intro hop hmem
    exact hhonest hop ((mergeEdges_reordered horder).mem_iff.mpr hmem)
  · show pools.priceMerge _ _ _ args.stages.val _ = pools.priceMerge _ _ _ stages.val _
    unfold Pools.priceMerge
    rw [Pools.run_fills_reordered horder hapart]
    rfl

/-- Token 10 for tokens 11, 12 and 13, the first two fills in either order. -/
def deskSpread (first second : Fill) : Stage :=
  ⟨⟨10⟩, ⟨[first, second, (deskHop 24 10 13).toFill 4], by simp⟩⟩

def deskOver11 : Fill := (deskHop 20 10 11).toFill 1

def deskOver12 : Fill := (deskHop 21 10 12).toFill 2

/-- Tokens 11 and 12 are sold for token 13 afterwards. -/
def deskSpreading (first second : Fill) : MergeArgs :=
  ⟨⟨1⟩, ⟨10⟩, ⟨13⟩, .ofUInt32 100, .ofUInt32 90, 0,
    ⟨[deskSpread first second, deskLeft, deskRight], by simp⟩⟩

theorem fill_order_irrelevant_desk :
    ((deskSpreading deskOver12 deskOver11).call.invoke deskEnv (deskWorld 5)).result = .ok 100 := by
  have hout : ((deskSpreading deskOver11 deskOver12).call.invoke deskEnv (deskWorld 5)).result =
      .ok 100 := by decide +kernel
  have hdesks : ∀ hop ∈ mergeEdges (deskSpreading deskOver11 deskOver12).stages.val,
      hop.AtDesk := by
    have hedges : mergeEdges (deskSpreading deskOver11 deskOver12).stages.val =
      [deskHop 20 10 11, deskHop 21 10 12, deskHop 24 10 13, deskHop 22 11 13,
        deskHop 23 12 13] := rfl
    intro hop hmem
    rw [hedges] at hmem
    simp only [List.mem_cons, List.not_mem_nil, or_false] at hmem
    rcases hmem with rfl | rfl | rfl | rfl | rfl <;> exact deskHop_atDesk (by decide) (by decide)
  refine ((fill_order_irrelevant deskPools (fun _ _ => True) deskEnv (deskWorld 5)
    (deskSpreading deskOver11 deskOver12) (deskSpreading deskOver12 deskOver11).stages
    (fun _ _ _ _ _ _ => rfl) (fun hop hmem => desk_honest (hdesks hop hmem)) (fun _ _ => trivial)
    ?_ ?_ ?_ ?_).1 100).mp hout
  · show ∀ stage ∈ [deskSpread deskOver11 deskOver12, deskLeft, deskRight], _
    unfold Pools.FillsApart deskPools
    decide
  · exact .cons ⟨rfl, .swap .., rfl⟩
      (.cons ⟨rfl, .refl _, rfl⟩ (.cons ⟨rfl, .refl _, rfl⟩ .nil))
  · rw [hout]
    exact nofun
  · decide +kernel

end WowmaxStellar
