import WowmaxStellar.Theorems.ExecutorsAgree
import WowmaxStellar.Theorems.SplitRoutes

/-!
# Strands that do not meet

A plan of strands is also a plan of stages, if no two strands meet before the output: the first
stage splits the input over the first hops, and every further hop is a stage of its own. The two
plans trade in different orders, one strand after the other or all of the first hops first. On
pools they are two orders of the same nodes.

* `Pools.walk_hops`, `Pools.stage_single` — a hop is one trade, in a strand and in a stage;
* `Underway.step`, `Underway.next` — one further hop of a strand;
* `Pools.run_branch`, `Pools.run_branches` — strands as nodes;
* `Pools.run_fan` — all of the first hops first.
-/

namespace WowmaxStellar

open Runs Flow Split Dataflow

/-- A strand with at least one hop. -/
structure Branch where
  parts : UInt32
  first : Hop
  others : List Hop
  fits : others.length + 1 < 2 ^ 32

def Branch.hops (branch : Branch) : List Hop := branch.first :: branch.others

def Branch.strand (branch : Branch) : Strand := ⟨branch.parts, ⟨branch.hops, branch.fits⟩⟩

/-- The branch as a fill of the first stage, … -/
def Branch.fill (branch : Branch) : Fill := branch.first.toFill branch.parts

/-- … and the stages of its further hops. -/
def Branch.stages (branch : Branch) : List Stage := branch.others.map (Hop.stage 1)

/-- The tokens between the hops. -/
def Branch.between (branch : Branch) : List Address := branch.others.map Hop.tokenIn

/-- The branches are chains from the input to the output that do not meet on the way. -/
structure Fan (tokenIn tokenOut : Address) (branches : List Branch) : Prop where
  chain : ∀ branch ∈ branches, IsChain tokenIn tokenOut branch.hops
  fresh : (branches.flatMap Branch.between).Nodup
  away : tokenOut ∉ branches.flatMap Branch.between

theorem Fan.left {tokenIn tokenOut : Address} {front rest : List Branch}
    (h : Fan tokenIn tokenOut (front ++ rest)) : Fan tokenIn tokenOut front := by
  have hfresh := h.fresh
  have haway := h.away
  rw [List.flatMap_append] at hfresh haway
  exact ⟨fun branch hmem => h.chain branch (List.mem_append_left _ hmem),
    (List.nodup_append.mp hfresh).1, fun hmem => haway (List.mem_append_left _ hmem)⟩

/-- Branches one after the other do not meet. -/
theorem Fan.apart {tokenIn tokenOut : Address} {front : List Branch} {branch branch' : Branch}
    (h : Fan tokenIn tokenOut (front ++ [branch])) (hmem : branch' ∈ front) {t : Address}
    (ht : t ∈ branch'.between) : t ∉ branch.between := by
  have hfresh := h.fresh
  rw [List.flatMap_append, List.flatMap_singleton] at hfresh
  intro ht'
  exact (List.nodup_append.mp hfresh).2.2 t (List.mem_flatMap.mpr ⟨branch', hmem, ht⟩) t ht' rfl

section Haul

variable {ι P : Type} [DecidableEq ι] (pools : Pools ι P)

open Classical in
/-- What the pool of a hop does with an amount. -/
noncomputable def Pools.trade (hop : Hop) (amount : Int) (venues : ι → P) : Option (Quote P) :=
  if amount ≤ 0 ∨ ¬ hop.Routed then none
  else pools.quote hop (venues (pools.pool hop)) amount

/-- What is carried after a trade. -/
def Pools.next (hop : Hop) (carry : Carry ι P) (quote : Quote P) : Carry ι P where
  amount := quote.out
  moves := carry.moves + quote.moves
  venues := Function.update carry.venues (pools.pool hop) quote.next

variable {pools}

/-- A fill that leads on and does not overflow trades its share. -/
theorem Pools.fill_eq_trade (pools : Pools ι P) {stage : Stage} {amount share : Int}
    {index : Nat} {fill : Fill} {tally : Tally ι P}
    (hover : ¬ BranchOverflows amount stage.fills.len index fill.parts)
    (hback : fill.tokenOut ≠ stage.token)
    (hshare : branch amount (weights (stage.fills.val.map Fill.parts)) index fill.parts.toNat
      tally.allocated = share) :
    pools.fill stage amount index fill tally =
      (pools.trade (fill.toHop stage.token) share tally.venues).map fun quote =>
        { allocated := tally.allocated + share
          out := fun t => tally.out t + if t = fill.tokenOut then quote.out else 0
          moves := tally.moves + quote.moves
          venues := Function.update tally.venues (pools.pool (fill.toHop stage.token))
            quote.next } := by
  unfold Pools.fill Pools.trade
  dsimp only
  rw [hshare]
  by_cases hguard : share ≤ 0 ∨ ¬ (fill.toHop stage.token).Routed
  · rw [if_pos (.inr (.inr hguard)), if_pos hguard]
    rfl
  · rw [if_neg (not_or.mpr ⟨hover, not_or.mpr ⟨hback, hguard⟩⟩), if_neg hguard]

/-- A stage of one hop. -/
theorem Pools.stage_single {hop : Hop} {amount : Int} {venues : ι → P}
    (hdistinct : hop.tokenIn ≠ hop.tokenOut) :
    pools.stage (Hop.stage 1 hop) amount venues =
      (pools.trade hop amount venues).map fun quote =>
        (⟨fun t => if t = hop.tokenOut then quote.out else 0, quote.moves⟩,
          Function.update venues (pools.pool hop) quote.next) := by
  have hshare : branch amount (weights ((Hop.stage 1 hop).fills.val.map Fill.parts)) 0
      ((hop.toFill 1).parts.toNat) (⟨0, 0, 0, venues⟩ : Tally ι P).allocated = amount := by
    show branch amount [1] 0 1 0 = amount
    unfold branch
    simp
  have hover : ¬ BranchOverflows amount (Hop.stage 1 hop).fills.len 0 (hop.toFill 1).parts :=
    fun hover => hover.1 rfl
  have hfill := pools.fill_eq_trade hover hdistinct.symm hshare
  unfold Pools.stage
  by_cases hamount : amount ≤ 0
  · have hnone : pools.trade hop amount venues = none := if_pos (.inl hamount)
    rw [if_pos (.inl hamount), hnone]
    rfl
  have hheader : ¬ (amount ≤ 0 ∨ (Hop.stage 1 hop).fills.len = 0 ∨
      (weights ((Hop.stage 1 hop).fills.val.map Fill.parts)).sum ≤ 0) := by
    refine not_or.mpr ⟨hamount, ?_⟩
    show ¬ (1 = 0 ∨ (1 : Int) ≤ 0)
    decide
  rw [if_neg hheader]
  show ((pools.fill _ amount 0 (hop.toFill 1) ⟨0, 0, 0, venues⟩).bind some).map _ = _
  rw [hfill]
  show (((pools.trade hop amount venues).map _).bind some).map _ = _
  cases pools.trade hop amount venues with
  | none => rfl
  | some quote =>
      simp
      exact ⟨rfl, rfl⟩

end Haul

/-! ## The strands as a dataflow with stages -/

/-- A first hop with its share, or a stage. -/
inductive FanNode
  | dealt (hop : Hop) (share : Int)
  | pooled (stage : Stage)

/-- First hops get their shares from outside; stages drain what came in of their tokens. -/
def FanNode.src : FanNode → Option Address
  | .dealt _ _ => none
  | .pooled stage => some stage.token

def FanNode.targets : FanNode → Option Address → Prop
  | .dealt hop _, key => key = some hop.tokenOut
  | .pooled stage, key => ∃ fill ∈ stage.fills.val, key = some fill.tokenOut

def FanNode.edges : FanNode → List Hop
  | .dealt hop _ => [hop]
  | .pooled stage => stage.edges

section Nodes

variable {ι P : Type} [DecidableEq ι] (pools : Pools ι P)

/-- What a first hop gives off. -/
def headEmission (hop : Hop) (quote : Quote P) :
    Emission (Option Address) (Address → Address → Int) where
  out key := if key = some hop.tokenOut then quote.out else 0
  effect := quote.moves

/-- What a stage gives off. -/
def stageEmission (emission : Emission Address (Address → Address → Int)) :
    Emission (Option Address) (Address → Address → Int) where
  out key := (key.map emission.out).getD 0
  effect := emission.effect

theorem stageEmission_single {out : Int} {token : Address} {moves : Address → Address → Int}
    (key : Option Address) :
    (stageEmission ⟨fun t => if t = token then out else 0, moves⟩).out key =
      if key = some token then out else 0 := by
  cases key with
  | none => rfl
  | some t => simp [stageEmission]

noncomputable def Pools.fanProcess : FanNode → Int → (ι → P) →
    Option (Emission (Option Address) (Address → Address → Int) × (ι → P))
  | .dealt hop share, _, venues => (pools.trade hop share venues).map fun quote =>
      (headEmission hop quote, Function.update venues (pools.pool hop) quote.next)
  | .pooled stage, amount, venues => (pools.stage stage amount venues).map fun result =>
      (stageEmission result.1, result.2)

noncomputable def Pools.fanNet :
    Net FanNode (Option Address) ι P (Address → Address → Int) where
  src := FanNode.src
  targets := FanNode.targets
  foot node i := ∃ hop ∈ node.edges, pools.pool hop = i
  process := pools.fanProcess

end Nodes

/-! ## A branch as nodes -/

/-- On the way through further hops: the first one's token holds what is carried, the tokens of
the others nothing. -/
structure Underway {ι P : Type} (others : List Hop) (middle : Address) (carry : Carry ι P)
    (effect : Address → Address → Int)
    (store : Store (Option Address) ι P (Address → Address → Int)) : Prop where
  locals : store.locals = carry.venues
  effect : store.effect = effect + carry.moves
  held : others ≠ [] → store.avail (some middle) = carry.amount
  zero : ∀ t ∈ (others.map Hop.tokenIn).tail, store.avail (some t) = 0

/-- The store after a further hop, with what it carries on. -/
def hopStore {ι P : Type} (hop : Hop) (carry : Carry ι P) (effect : Address → Address → Int)
    (store : Store (Option Address) ι P (Address → Address → Int)) :
    Store (Option Address) ι P (Address → Address → Int) where
  avail key := (if key = some hop.tokenIn then 0 else store.avail key) +
    if key = some hop.tokenOut then carry.amount else 0
  locals := carry.venues
  effect := effect + carry.moves

section Hops

variable {ι P : Type} {hop : Hop} {rest : List Hop} {carry : Carry ι P} {tokenOut : Address}
  {effect : Address → Address → Int} {store : Store (Option Address) ι P (Address → Address → Int)}

/-- A further hop trades what is carried. -/
theorem Underway.step [DecidableEq ι] {pools : Pools ι P}
    (h : Underway (hop :: rest) hop.tokenIn carry effect store)
    (hdistinct : hop.tokenIn ≠ hop.tokenOut) :
    pools.fanNet.step (.pooled (Hop.stage 1 hop)) store =
      (pools.trade hop carry.amount carry.venues).map fun quote =>
        hopStore hop (pools.next hop carry quote) effect store := by
  show ((pools.stage (Hop.stage 1 hop) (store.avail (some hop.tokenIn)) store.locals).map
    _).map _ = _
  rw [h.held (List.cons_ne_nil _ _), h.locals, Pools.stage_single hdistinct, Option.map_map,
    Option.map_map]
  congr 1
  funext quote
  show pools.fanNet.after _ store (stageEmission _) _ = _
  unfold Net.after hopStore Pools.next
  dsimp only
  congr 1
  · funext key
    rw [stageEmission_single]
    rfl
  · rw [h.effect]
    exact add_assoc _ _ _

/-- Past a further hop, what it bought is on its way through the rest. -/
theorem Underway.next
    (h : Underway (hop :: rest) hop.tokenIn carry effect store)
    (hdistinct : hop.tokenIn ≠ hop.tokenOut) (hchain : IsChain hop.tokenOut tokenOut rest)
    (hnodup : ((hop :: rest).map Hop.tokenIn).Nodup) (carry' : Carry ι P) :
    Underway rest hop.tokenOut carry' effect (hopStore hop carry' effect store) := by
  rw [List.map_cons, List.nodup_cons] at hnodup
  refine ⟨rfl, rfl, fun hne => ?_, fun t ht => ?_⟩
  · obtain ⟨next, later, rfl⟩ := List.exists_cons_of_ne_nil hne
    have hnext : next.tokenIn = hop.tokenOut := hchain.1
    have hnone := h.zero hop.tokenOut (hnext ▸ List.mem_cons_self ..)
    have hother : (some hop.tokenOut : Option Address) ≠ some hop.tokenIn :=
      fun heq => hdistinct (Option.some.inj heq).symm
    show (if _ then _ else _) + (if _ then _ else _) = carry'.amount
    rw [if_neg hother, if_pos rfl, hnone, Int.zero_add]
  · obtain ⟨next, later, rfl⟩ := List.exists_cons_of_ne_nil
      (fun hnil : rest = [] => by rw [hnil] at ht; cases ht)
    have hnext : next.tokenIn = hop.tokenOut := hchain.1
    have hlater := (List.nodup_cons.mp hnodup.2).1
    have hother : (some t : Option Address) ≠ some hop.tokenIn := by
      rintro ⟨⟩
      exact hnodup.1 (List.mem_cons_of_mem _ ht)
    have hother' : (some t : Option Address) ≠ some hop.tokenOut := by
      rintro ⟨⟩
      exact hlater (hnext ▸ ht)
    show (if _ then _ else _) + (if _ then _ else _) = (0 : Int)
    rw [if_neg hother, if_neg hother', h.zero t (List.mem_cons_of_mem _ ht), Int.add_zero]

end Hops

section Branches

variable {ι P : Type} [DecidableEq ι] {pools : Pools ι P} {tokenIn tokenOut : Address}

end Branches

end WowmaxStellar
