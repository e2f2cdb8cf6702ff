import WowmaxStellar.Logic.Agreement
import WowmaxStellar.Logic.Strands
import WowmaxStellar.Theorems.PlanCheck

/-!
# Pricing a plan

What a plan comes to on honest venues is a matter of the pools alone: `Pools.price` runs it on
their states and knows no ledger. `Pools.quoted` puts the checks of a call around it. The plan
executors track that: they return what is quoted, and leave the pools and the balances as the
trades of the quote do.

* `tracks_entry`, `tracks_payout`, `merge_tail_tracks` — the ends of a call;
* `swapMerge_tracks`, `swap_tracks` — the two executors;
* `EntryCall.tracks` — both of them as one;
* `EntryCall.invoke_of_same_price` — plans with the same price come to the same.
-/

namespace WowmaxStellar

open Runs Flow Split Dataflow

/-! ## Prices -/

/-- What the trades of a plan come to: the pools afterwards, and the change of every balance. -/
structure Outcome (ι P : Type) where
  venues : ι → P
  moves : Address → Address → Int

/-- The strands of a plan, with the shares of `amount`. -/
def dealPlan (amount : Int) (plan : List Strand) : List Dealt :=
  (plan.getLast?.map (dealOut amount plan.dropLast)).getD []

theorem dealPlan_eq (amount : Int) (front : List Strand) (final : Strand) :
    dealPlan amount (front ++ [final]) = dealOut amount front final := by
  unfold dealPlan
  simp

section Prices

variable {ι P : Type}

open Classical in
/-- The outcome of a dataflow that has to end with the output token alone. -/
noncomputable def outcomeIn (tokenOut : Address)
    (store : Store Address ι P (Address → Address → Int)) : Option (Outcome ι P) :=
  if ∀ t, t ≠ tokenOut → store.avail t = 0 then some ⟨store.locals, store.effect⟩ else none

theorem outcomeIn_of {tokenOut : Address} {store : Store Address ι P (Address → Address → Int)}
    (h : ∀ t, t ≠ tokenOut → store.avail t = 0) :
    outcomeIn tokenOut store = some ⟨store.locals, store.effect⟩ := if_pos h

theorem outcomeIn_of_not {tokenOut : Address}
    {store : Store Address ι P (Address → Address → Int)}
    (h : ¬ ∀ t, t ≠ tokenOut → store.avail t = 0) : outcomeIn tokenOut store = none := if_neg h

variable [DecidableEq ι] (pools : Pools ι P)

/-- The stages as a dataflow, from the input token to the output token. -/
noncomputable def Pools.priceMerge (tokenIn tokenOut : Address) (amount : Int)
    (stages : List Stage) (venues : ι → P) : Option (Outcome ι P) :=
  (pools.net.run stages ⟨fun t => if t = tokenIn then amount else 0, venues, 0⟩).bind
    (outcomeIn tokenOut)

/-- The strands as a dataflow in which nobody waits for anybody. -/
noncomputable def Pools.priceSwap (tokenIn tokenOut : Address) (amount : Int)
    (plan : List Strand) (venues : ι → P) : Option (Outcome ι P) :=
  if (weights (plan.map Strand.parts)).sum ≤ 0 then none
  else ((pools.strandNet tokenIn tokenOut amount).run (dealPlan amount plan)
    ⟨0, venues, 0⟩).map fun store => ⟨store.locals, store.effect⟩

/-- The price of a plan. The single-purpose entry points have none. -/
noncomputable def Pools.price (call : EntryCall) (venues : ι → P) : Option (Outcome ι P) :=
  match call with
  | .swap _ tokenIn tokenOut amountIn _ _ plan =>
      pools.priceSwap tokenIn tokenOut amountIn plan.val venues
  | .swapMerge _ tokenIn tokenOut amountIn _ _ stages =>
      pools.priceMerge tokenIn tokenOut amountIn stages.val venues
  | _ => none

/-- The checks in front of a call pass, and the user can pay. -/
structure EntryCall.Admitted {V : Type} (call : EntryCall) (env : Env V) (ledger : Ledger) :
    Prop where
  signed : call.user ∈ env.signers
  amount_pos : 0 < (call.amountIn : Int)
  min_nonneg : 0 ≤ (call.amountOutMin : Int)
  distinct : call.tokenIn ≠ call.tokenOut
  in_time : ¬ (call.deadline ≠ 0 ∧ env.timestamp > call.deadline)
  covered : (call.amountIn : Int) ≤ ledger.balance call.tokenIn call.user

/-- What the trades bring in of the output. -/
def Outcome.gain {ι P : Type} (outcome : Outcome ι P) (contract tokenOut : Address) : Int :=
  outcome.moves tokenOut contract

open Classical in
/-- An outcome that pays, and pays enough. -/
noncomputable def Outcome.paying {ι P : Type} (outcome : Outcome ι P) (contract tokenOut : Address)
    (amountOutMin : Int) : Option (Outcome ι P) :=
  if 0 < outcome.gain contract tokenOut ∧ amountOutMin ≤ outcome.gain contract tokenOut then
    some outcome
  else none

open Classical in
/-- What a call comes to, told from the pools and the user's balance. -/
noncomputable def Pools.quoted (env : Env (ι → P)) (call : EntryCall) (world : World (ι → P)) :
    Option (Outcome ι P) :=
  if call.Admitted env world.ledger then
    (pools.price call world.venues).bind fun outcome =>
      outcome.paying env.contract call.tokenOut call.amountOutMin
  else none

end Prices

/-- The pull of the input. -/
def EntryCall.pull (call : EntryCall) (contract t h : Address) : Int :=
  Ledger.share call.tokenIn contract call.amountIn t h -
    Ledger.share call.tokenIn call.user call.amountIn t h

/-- The payout of the output. -/
def EntryCall.payout (call : EntryCall) (contract : Address) (out : Int) (t h : Address) : Int :=
  Ledger.share call.tokenOut call.user out t h - Ledger.share call.tokenOut contract out t h

/-! ## Where a price comes from -/

section Local

variable {ι P : Type} [DecidableEq ι] {pools : Pools ι P} {call : EntryCall}
  {venues venues' : ι → P} {outcome : Outcome ι P}

theorem strands_dealPlan (amount : Int) (plan : List Strand) :
    (dealPlan amount plan).map Dealt.strand = plan := by
  rcases List.eq_nil_or_concat plan with rfl | ⟨front, final, rfl⟩
  · rfl
  · rw [List.concat_eq_append, dealPlan_eq, strands_dealOut]

/-- The pools a call goes through. -/
def Pools.Touches (pools : Pools ι P) (call : EntryCall) (i : ι) : Prop :=
  ∃ hop ∈ call.edges, pools.pool hop = i

theorem Pools.touches_merge {user tokenIn tokenOut : Address} {amountIn amountOutMin : I128}
    {deadline : UInt64} {stages : Vec Stage} {i : ι} :
    pools.Touches (.swapMerge user tokenIn tokenOut amountIn amountOutMin deadline stages) i ↔
      ∃ stage ∈ stages.val, pools.net.foot stage i := by
  constructor
  · rintro ⟨hop, hhop, hpool⟩
    obtain ⟨stage, hstage, hmem⟩ := List.mem_flatMap.mp hhop
    exact ⟨stage, hstage, hop, hmem, hpool⟩
  · rintro ⟨stage, hstage, hop, hmem, hpool⟩
    exact ⟨hop, List.mem_flatMap.mpr ⟨stage, hstage, hmem⟩, hpool⟩

theorem Pools.touches_swap {user tokenIn tokenOut : Address} {amountIn amountOutMin : I128}
    {deadline : UInt64} {plan : Vec Strand} {i : ι} :
    pools.Touches (.swap user tokenIn tokenOut amountIn amountOutMin deadline plan) i ↔
      ∃ node ∈ dealPlan amountIn plan.val,
        (pools.strandNet tokenIn tokenOut amountIn).foot node i := by
  have hstrands := strands_dealPlan amountIn plan.val
  constructor
  · rintro ⟨hop, hhop, hpool⟩
    obtain ⟨strand, hstrand, hmem⟩ := List.mem_flatMap.mp hhop
    rw [← hstrands] at hstrand
    obtain ⟨node, hnode, rfl⟩ := List.mem_map.mp hstrand
    exact ⟨node, hnode, hop, hmem, hpool⟩
  · rintro ⟨node, hnode, hop, hmem, hpool⟩
    refine ⟨hop, List.mem_flatMap.mpr ⟨node.strand, ?_, hmem⟩, hpool⟩
    rw [← hstrands]
    exact List.mem_map_of_mem hnode

/-- A price leaves the pools of others alone. -/
theorem Pools.price_frame (h : pools.price call venues = some outcome) {i : ι}
    (hi : ¬ pools.Touches call i) : outcome.venues i = venues i := by
  cases call with
  | swap user tokenIn tokenOut amountIn amountOutMin deadline plan =>
      rw [Pools.touches_swap] at hi
      have hprice : pools.priceSwap tokenIn tokenOut amountIn plan.val venues = some outcome := h
      unfold Pools.priceSwap at hprice
      split at hprice
      · cases hprice
      obtain ⟨store, hrun, rfl⟩ := Option.map_eq_some_iff.mp hprice
      exact Net.run_frame (fun node _ => pools.strandNet_lawful _ _ _ node) hrun
        fun node hnode hfoot => hi ⟨node, hnode, hfoot⟩
  | swapMerge user tokenIn tokenOut amountIn amountOutMin deadline stages =>
      rw [Pools.touches_merge] at hi
      have hprice : pools.priceMerge tokenIn tokenOut amountIn stages.val venues =
        some outcome := h
      obtain ⟨store, hrun, hend⟩ := Option.bind_eq_some_iff.mp hprice
      unfold outcomeIn at hend
      split at hend
      · cases hend
        exact Net.run_frame (fun stage _ => pools.net_lawful stage) hrun
          fun stage hstage hfoot => hi ⟨stage, hstage, hfoot⟩
      · cases hend
  | swapSoroswap => cases h
  | swapAqua => cases h
  | swapPhoenix => cases h
  | swapAquaThenSoroswap => cases h

/-- A price depends on the pools the call goes through, and on nothing else. -/
theorem Pools.price_local (h : pools.price call venues = some outcome)
    (hagree : ∀ i, pools.Touches call i → venues i = venues' i) :
    ∃ outcome', pools.price call venues' = some outcome' ∧ outcome'.moves = outcome.moves ∧
      ∀ i, pools.Touches call i → outcome'.venues i = outcome.venues i := by
  cases call with
  | swap user tokenIn tokenOut amountIn amountOutMin deadline plan =>
      have hprice : pools.priceSwap tokenIn tokenOut amountIn plan.val venues = some outcome := h
      unfold Pools.priceSwap at hprice
      split at hprice
      · cases hprice
      rename_i htotal
      obtain ⟨store, hrun, rfl⟩ := Option.map_eq_some_iff.mp hprice
      obtain ⟨w, hrun', hw⟩ := Net.run_local
        (fun node _ => pools.strandNet_lawful tokenIn tokenOut amountIn node)
        (fun node hnode i hfoot => Pools.touches_swap.mpr ⟨node, hnode, hfoot⟩) hagree hrun
      refine ⟨⟨w, store.effect⟩, ?_, rfl, hw⟩
      show pools.priceSwap tokenIn tokenOut amountIn plan.val venues' = _
      unfold Pools.priceSwap
      rw [if_neg htotal]
      exact Option.map_eq_some_iff.mpr ⟨_, hrun', rfl⟩
  | swapMerge user tokenIn tokenOut amountIn amountOutMin deadline stages =>
      have hprice : pools.priceMerge tokenIn tokenOut amountIn stages.val venues =
        some outcome := h
      obtain ⟨store, hrun, hend⟩ := Option.bind_eq_some_iff.mp hprice
      obtain ⟨w, hrun', hw⟩ := Net.run_local (fun stage _ => pools.net_lawful stage)
        (fun stage hstage i hfoot => Pools.touches_merge.mpr ⟨stage, hstage, hfoot⟩) hagree hrun
      unfold outcomeIn at hend
      split at hend
      · rename_i hzero
        cases hend
        refine ⟨⟨w, store.effect⟩, ?_, rfl, hw⟩
        exact Option.bind_eq_some_iff.mpr ⟨_, hrun', outcomeIn_of hzero⟩
      · cases hend
  | swapSoroswap => cases h
  | swapAqua => cases h
  | swapPhoenix => cases h
  | swapAquaThenSoroswap => cases h

/-- The trades of a price keep away from an account that its quotes keep away from. -/
theorem Pools.price_keeps_away {h : Address}
    (hquotes : ∀ hop ∈ call.edges, ∀ p amount quote, pools.quote hop p amount = some quote →
      ∀ t, quote.moves t h = 0)
    (hprice : pools.price call venues = some outcome) (t : Address) : outcome.moves t h = 0 := by
  have hadd : ∀ e e' : Address → Address → Int, e t h = 0 → e' t h = 0 → (e + e') t h = 0 := by
    intro e e' he he'
    show e t h + e' t h = 0
    rw [he, he', Int.add_zero]
  cases call with
  | swap user tokenIn tokenOut amountIn amountOutMin deadline plan =>
      have hprice : pools.priceSwap tokenIn tokenOut amountIn plan.val venues = some outcome :=
        hprice
      unfold Pools.priceSwap at hprice
      split at hprice
      · cases hprice
      obtain ⟨store, hrun, rfl⟩ := Option.map_eq_some_iff.mp hprice
      refine Net.run_effect hadd ?_ rfl hrun
      intro node hnode share v emission w hprocess
      obtain ⟨carry, hwalk, rfl, -, -⟩ := Pools.strand_eq_some hprocess
      refine walk_inv (I := fun carry : Carry ι P => carry.moves t h = 0) ?_ rfl hwalk
      intro index hop carry carry' hhop hzero hstep
      unfold Pools.hop at hstep
      split at hstep
      · cases hstep
      obtain ⟨quote, hquote, rfl⟩ := Option.map_eq_some_iff.mp hstep
      refine hadd _ _ hzero (hquotes hop ?_ _ _ _ hquote t)
      have hstrand := List.mem_map_of_mem (f := Dealt.strand) hnode
      rw [strands_dealPlan] at hstrand
      exact List.mem_flatMap.mpr ⟨node.strand, hstrand, hhop⟩
  | swapMerge user tokenIn tokenOut amountIn amountOutMin deadline stages =>
      have hprice : pools.priceMerge tokenIn tokenOut amountIn stages.val venues =
        some outcome := hprice
      obtain ⟨store, hrun, hend⟩ := Option.bind_eq_some_iff.mp hprice
      unfold outcomeIn at hend
      split at hend
      swap
      · cases hend
      cases hend
      refine Net.run_effect hadd ?_ rfl hrun
      intro stage hstage bal v emission w hprocess
      obtain ⟨tally, hwalk, -, hmoves, -, -⟩ := Pools.stage_eq_some hprocess
      rw [← hmoves]
      refine walk_inv (I := fun tally : Tally ι P => tally.moves t h = 0) ?_ rfl hwalk
      intro index fill tally tally' hfill hzero hstep
      unfold Pools.fill at hstep
      dsimp only at hstep
      split at hstep
      · cases hstep
      obtain ⟨quote, hquote, rfl⟩ := Option.map_eq_some_iff.mp hstep
      refine hadd _ _ hzero (hquotes (fill.toHop stage.token) ?_ _ _ _ hquote t)
      exact List.mem_flatMap.mpr ⟨stage, hstage, Stage.mem_edges hfill⟩
  | swapSoroswap => cases hprice
  | swapAqua => cases hprice
  | swapPhoenix => cases hprice
  | swapAquaThenSoroswap => cases hprice

theorem Pools.quoted_eq_some {env : Env (ι → P)} {world : World (ι → P)} :
    pools.quoted env call world = some outcome ↔ call.Admitted env world.ledger ∧
      pools.price call world.venues = some outcome ∧
      0 < outcome.gain env.contract call.tokenOut ∧
      (call.amountOutMin : Int) ≤ outcome.gain env.contract call.tokenOut := by
  unfold Pools.quoted
  constructor
  · intro h
    split at h
    swap
    · cases h
    rename_i hadmitted
    obtain ⟨o, hprice, hpaying⟩ := Option.bind_eq_some_iff.mp h
    unfold Outcome.paying at hpaying
    split at hpaying
    · rename_i hgain
      cases hpaying
      exact ⟨hadmitted, hprice, hgain⟩
    · cases hpaying
  · rintro ⟨hadmitted, hprice, hgain⟩
    rw [if_pos hadmitted, hprice]
    exact if_pos hgain

/-- A quote depends on the user's balance of the input and on the call's pools only. -/
theorem Pools.quoted_local {env : Env (ι → P)} {world world' : World (ι → P)}
    (h : pools.quoted env call world = some outcome)
    (hbalance : world'.ledger.balance call.tokenIn call.user =
      world.ledger.balance call.tokenIn call.user)
    (hagree : ∀ i, pools.Touches call i → world.venues i = world'.venues i) :
    ∃ outcome', pools.quoted env call world' = some outcome' ∧ outcome'.moves = outcome.moves ∧
      ∀ i, pools.Touches call i → outcome'.venues i = outcome.venues i := by
  obtain ⟨hadmitted, hprice, hgain⟩ := Pools.quoted_eq_some.mp h
  obtain ⟨outcome', hprice', hmoves, hvenues⟩ := Pools.price_local hprice hagree
  refine ⟨outcome', Pools.quoted_eq_some.mpr ⟨?_, hprice', ?_⟩, hmoves, hvenues⟩
  · exact { hadmitted with covered := hbalance ▸ hadmitted.covered }
  · unfold Outcome.gain at hgain ⊢
    rw [hmoves]
    exact hgain

end Local

/-! ## The ends of a call -/

section Ends

variable {V β : Type} {env : Env V} {world : World V}

theorem overflowed_balance : Overflowed (.host .balanceOverflow) := rfl

/-- The checks and the pull: an admitted call goes on, or a balance overflows. -/
theorem tracks_entry (call : EntryCall) {R : Int → State V → β → Prop}
    {f : Int → Exec V Int} {o : Option β} {site : Guard} {empty : Prop} [Decidable empty]
    (hstandard : env.Standard) (hempty : empty → o = none)
    (hnot : ¬ call.Admitted env world.ledger → o = none)
    (hpass : call.Admitted env world.ledger → ¬ empty → ∀ s : State V, s.venues = world.venues →
      (∀ t h, s.ledger.balance t h = world.ledger.balance t h + call.pull env.contract t h) →
      world.ledger.transfer call.tokenIn call.user env.contract call.amountIn = .ok s.ledger →
      Tracks Overflowed R (f (world.ledger.balance call.tokenOut env.contract) s) o) :
    Tracks Overflowed R ((do
      entryChecks env call.user call.tokenIn call.tokenOut call.amountIn call.amountOutMin
        call.deadline
      panicIf empty site
      let outBefore ← balance call.tokenOut env.contract
      transfer env call.tokenIn call.user env.contract call.amountIn
      f outBefore) world.start) o := by
  rcases entryChecks_cases env call.user call.tokenIn call.tokenOut call.amountIn call.amountOutMin
    call.deadline with ⟨panic, _, heq⟩ | ⟨hsigned, hamount, hmin, hdistinct, htime, heq⟩
  · rw [heq]
    have hnone : o = none := hnot fun h => by
      rw [entryChecks_eq h.signed h.amount_pos h.min_nonneg h.distinct h.in_time] at heq
      exact nomatch congrFun heq world.start
    rw [hnone]
    exact .fail _ _
  rw [heq, pure_bind]
  by_cases hnothing : empty
  · rw [panicIf_of hnothing, hempty hnothing]
    exact .fail _ _
  rw [panicIf_of_not hnothing, pure_bind]
  let read : State V := world.start.served (.balance call.tokenOut env.contract)
  have hsource : call.user = env.contract ∨ call.user ∈ env.signers := .inr hsigned
  show Tracks _ _ ((transfer env call.tokenIn call.user env.contract call.amountIn >>= fun _ =>
    f (world.ledger.balance call.tokenOut env.contract)) read) _
  cases hmove : world.ledger.transfer call.tokenIn call.user env.contract call.amountIn with
  | error e =>
      have hrun : transfer env call.tokenIn call.user env.contract call.amountIn read =
          .error (.host e) read := transfer_run_error hsource (hstandard ..) hmove
      rw [bind_of_error hrun]
      by_cases hcovered : (call.amountIn : Int) ≤ world.ledger.balance call.tokenIn call.user
      · -- covered, so the executor's balance overflowed
        rcases world.ledger.transfer_covered env.contract hamount.le hcovered with
          hover | ⟨ledger, hok⟩
        · rw [hmove] at hover
          obtain rfl := Except.error.inj hover
          exact .escape overflowed_balance _
        · rw [hmove] at hok
          cases hok
      · rw [hnot fun h => hcovered h.covered]
        exact .fail _ _
  | ok ledger =>
      have hrun : transfer env call.tokenIn call.user env.contract call.amountIn read =
          .ok () (read.moved call.tokenIn call.user env.contract call.amountIn ledger) :=
        transfer_run_ok hsource (hstandard ..) hmove
      rw [bind_of_ok hrun]
      obtain ⟨_, hcovered, hbalance⟩ := Ledger.transfer_ok hmove
      refine hpass ⟨hsigned, hamount, hmin, hdistinct, htime, hcovered⟩ hnothing _ rfl ?_ hmove
      intro t h
      show ledger.balance t h = _
      rw [hbalance]
      unfold EntryCall.pull
      omega

/-- Both executors end alike: what is tracked is there, so the comparison passes. -/
theorem settleMerge_eq_forwardOutput {user tokenOut : Address}
    {outBefore amountOutMin trackedOut : Int} {s : State V}
    (h : trackedOut ≤ s.ledger.balance tokenOut env.contract - outBefore) :
    settleMerge env user tokenOut outBefore amountOutMin trackedOut s =
      forwardOutput env user tokenOut outBefore amountOutMin s := by
  unfold settleMerge forwardOutput
  refine congrFun (checkedSub_bind_congr ?_) (s.served (.balance tokenOut env.contract))
  rw [panicIf_of_not (by omega), pure_bind]

variable {ι P : Type} {ready : (ι → P) → Ledger → Prop}

/-- The world after a call with an outcome. The venues were ready before the payout. -/
structure Settles (ready : (ι → P) → Ledger → Prop) (env : Env (ι → P)) (call : EntryCall)
    (world : World (ι → P)) (out : Int) (after : World (ι → P)) (outcome : Outcome ι P) :
    Prop where
  out_eq : out = outcome.gain env.contract call.tokenOut
  venues : after.venues = outcome.venues
  ledger : ∀ t h, after.ledger.balance t h = world.ledger.balance t h + outcome.moves t h +
    call.pull env.contract t h + call.payout env.contract out t h
  ready : ∃ ledger, ready after.venues ledger ∧ ∀ t h, h ≠ env.contract → h ≠ call.user →
    after.ledger.balance t h = ledger.balance t h

/-- The payout, once the trades are through. -/
theorem tracks_payout {env : Env (ι → P)} {world : World (ι → P)} {s : State (ι → P)}
    (call : EntryCall) (outcome : Outcome ι P) (hstandard : env.Standard)
    (hadmitted : call.Admitted env world.ledger)
    (hvenues : s.venues = outcome.venues) (hready : ready s.venues s.ledger)
    (hledger : ∀ t h, s.ledger.balance t h =
      world.ledger.balance t h + outcome.moves t h + call.pull env.contract t h) :
    Tracks Overflowed (fun out s outcome => Settles ready env call world out s.world outcome)
      (forwardOutput env call.user call.tokenOut
        (world.ledger.balance call.tokenOut env.contract) call.amountOutMin s)
      (outcome.paying env.contract call.tokenOut call.amountOutMin) := by
  have huser : env.contract ≠ call.user := fun heq =>
    env.contract_unsigned (heq ▸ hadmitted.signed)
  have hgain : s.ledger.balance call.tokenOut env.contract -
      world.ledger.balance call.tokenOut env.contract =
        outcome.gain env.contract call.tokenOut := by
    have hread := hledger call.tokenOut env.contract
    unfold EntryCall.pull at hread
    rw [Ledger.share_holder, if_neg hadmitted.distinct.symm, Ledger.share_of_ne huser] at hread
    unfold Outcome.gain
    omega
  have hfits : InI128 (s.ledger.balance call.tokenOut env.contract -
      world.ledger.balance call.tokenOut env.contract) :=
    inI128_sub (s.ledger.balance_bounds _ _) (world.ledger.balance_bounds _ _)
  have hbefore := world.ledger.nonneg call.tokenOut env.contract
  show Tracks _ _ ((checkedSub (s.ledger.balance call.tokenOut env.contract)
    (world.ledger.balance call.tokenOut env.contract) >>= fun out => (do
      panicIf (out ≤ 0) .noOutput
      panicIf (out < call.amountOutMin) .amountOutMinNotMet
      transfer env call.tokenOut env.contract call.user out
      pure out : Exec (ι → P) Int)) (s.served (.balance call.tokenOut env.contract))) _
  rw [show checkedSub (s.ledger.balance call.tokenOut env.contract)
      (world.ledger.balance call.tokenOut env.contract) = _ from checked_of_inI128 hfits,
    pure_bind, hgain]
  unfold Outcome.paying
  by_cases hpos : outcome.gain env.contract call.tokenOut ≤ 0
  · rw [panicIf_of hpos, if_neg (by omega)]
    exact .fail _ _
  by_cases hmin : outcome.gain env.contract call.tokenOut < call.amountOutMin
  · rw [panicIf_of_not hpos, pure_bind, panicIf_of hmin, if_neg (by omega)]
    exact .fail _ _
  rw [panicIf_of_not hpos, pure_bind, panicIf_of_not hmin, pure_bind,
    if_pos ⟨by omega, by omega⟩]
  let read : State (ι → P) := s.served (.balance call.tokenOut env.contract)
  have hheld : outcome.gain env.contract call.tokenOut ≤
      s.ledger.balance call.tokenOut env.contract := by omega
  rcases s.ledger.transfer_covered call.user (by omega) hheld with hover | ⟨ledger, hmove⟩
  · have hrun : transfer env call.tokenOut env.contract call.user
        (outcome.gain env.contract call.tokenOut) read = .error (.host .balanceOverflow) read :=
      transfer_run_error (.inl rfl) (hstandard ..) hover
    rw [bind_of_error hrun]
    exact .escape overflowed_balance _
  · have hrun : transfer env call.tokenOut env.contract call.user
        (outcome.gain env.contract call.tokenOut) read = .ok () (read.moved call.tokenOut
          env.contract call.user (outcome.gain env.contract call.tokenOut) ledger) :=
      transfer_run_ok (.inl rfl) (hstandard ..) hmove
    rw [bind_of_ok hrun]
    have hpaid := (Ledger.transfer_ok hmove).2.2
    refine ⟨rfl, hvenues, fun t h => ?_, s.ledger, hready, fun t h hcontract huser => ?_⟩
    · show ledger.balance t h = _
      rw [hpaid, hledger]
      unfold EntryCall.payout
      omega
    · show ledger.balance t h = _
      rw [hpaid, Ledger.share_of_ne hcontract, Ledger.share_of_ne huser]
      omega

/-- The payout, once the trades have moved what the outcome says. -/
theorem tracks_moved {env : Env (ι → P)} {world : World (ι → P)} {s s' : State (ι → P)}
    (call : EntryCall) (outcome : Outcome ι P) (hstandard : env.Standard)
    (hadmitted : call.Admitted env world.ledger)
    (hpulled : ∀ t h, s.ledger.balance t h =
      world.ledger.balance t h + call.pull env.contract t h)
    (hvenues : s'.venues = outcome.venues)
    (hmoved : s'.ledger.balance = s.ledger.balance + outcome.moves)
    (hready : ready s'.venues s'.ledger) :
    Tracks Overflowed (fun out s outcome => Settles ready env call world out s.world outcome)
      (forwardOutput env call.user call.tokenOut
        (world.ledger.balance call.tokenOut env.contract) call.amountOutMin s')
      (outcome.paying env.contract call.tokenOut call.amountOutMin) := by
  refine tracks_payout call outcome hstandard hadmitted hvenues hready fun t h => ?_
  have hmove : s'.ledger.balance t h = s.ledger.balance t h + outcome.moves t h :=
    congrFun (congrFun hmoved t) h
  rw [hmove, hpulled]
  exact add_right_comm _ _ _

/-- Behind the stages: anything left over ends the call, and otherwise the output is paid out. -/
theorem merge_tail_tracks {env : Env (ι → P)} {world : World (ι → P)} {call : EntryCall}
    {avail : Avail} {s s' : State (ι → P)}
    {store : Store Address ι P (Address → Address → Int)} (hstandard : env.Standard)
    (hadmitted : call.Admitted env world.ledger)
    (hpulled : ∀ t h, s.ledger.balance t h =
      world.ledger.balance t h + call.pull env.contract t h)
    (hstored : Stored ready avail s'
      ⟨store.avail, store.locals, s.ledger.balance + store.effect⟩)
    (hheld : world.ledger.balance call.tokenOut env.contract + avail.amount call.tokenOut ≤
      s'.ledger.balance call.tokenOut env.contract) :
    Tracks Overflowed (fun out s outcome => Settles ready env call world out s.world outcome)
      ((do
        deadEndCheck call.tokenOut avail
        settleMerge env call.user call.tokenOut (world.ledger.balance call.tokenOut env.contract)
          call.amountOutMin (avail.amount call.tokenOut)) s')
      ((outcomeIn call.tokenOut store).bind fun outcome =>
        outcome.paying env.contract call.tokenOut call.amountOutMin) := by
  have havail : avail.amount = store.avail := hstored.avail
  by_cases hzero : ∀ t, t ≠ call.tokenOut → store.avail t = 0
  · rw [outcomeIn_of hzero, deadEndCheck_eq (havail ▸ hzero), pure_bind,
      settleMerge_eq_forwardOutput (Int.le_sub_left_of_add_le hheld)]
    exact tracks_moved call ⟨store.locals, store.effect⟩ hstandard hadmitted hpulled
      hstored.venues hstored.ledger hstored.ready
  · rw [outcomeIn_of_not hzero]
    cases hcheck : deadEndCheck call.tokenOut avail s' with
    | ok u s'' =>
        have hpassed := ((deadEndCheck_post call.tokenOut avail).ok hcheck).2
        rw [havail] at hpassed
        exact absurd hpassed hzero
    | error panic s'' =>
        rw [bind_of_error hcheck]
        exact .fail _ _

end Ends

/-! ## The executors -/

section Executors

variable {ι P : Type} [DecidableEq ι] {pools : Pools ι P} {env : Env (ι → P)}
  {ready : (ι → P) → Ledger → Prop} {world : World (ι → P)} {user tokenIn tokenOut : Address}
  {amountIn amountOutMin : I128} {deadline : UInt64}

/-- An admitted `swap_merge` is quoted by its price. -/
theorem Pools.quoted_merge {stages : Vec Stage}
    (hadmitted : (EntryCall.swapMerge user tokenIn tokenOut amountIn amountOutMin deadline
      stages).Admitted env world.ledger) :
    pools.quoted env (.swapMerge user tokenIn tokenOut amountIn amountOutMin deadline stages)
        world =
      (pools.priceMerge tokenIn tokenOut amountIn stages.val world.venues).bind fun outcome =>
        outcome.paying env.contract tokenOut amountOutMin := if_pos hadmitted

/-- Without a stage the input is left over. -/
theorem Pools.quoted_no_stages {stages : Vec Stage} (hlen : stages.len = 0) :
    pools.quoted env (.swapMerge user tokenIn tokenOut amountIn amountOutMin deadline stages)
      world = none := by
  by_cases hadmitted : (EntryCall.swapMerge user tokenIn tokenOut amountIn amountOutMin deadline
    stages).Admitted env world.ledger
  swap
  · exact if_neg hadmitted
  have hpos := hadmitted.amount_pos
  have hleft : ¬ ∀ t, t ≠ tokenOut → (if t = tokenIn then (amountIn : Int) else 0) = 0 := by
    intro hzero
    have h := hzero tokenIn hadmitted.distinct
    rw [if_pos rfl] at h
    exact hpos.ne' h
  rw [Pools.quoted_merge hadmitted]
  unfold Pools.priceMerge
  rw [List.length_eq_zero_iff.mp hlen]
  show ((outcomeIn tokenOut ⟨fun t => if t = tokenIn then (amountIn : Int) else 0, world.venues,
    0⟩).bind _) = none
  rw [outcomeIn_of_not hleft]
  rfl

/-- `swap_merge` tracks its quote. -/
theorem swapMerge_tracks {stages : Vec Stage} (hstandard : env.Standard)
    (hhonest : ∀ hop ∈ mergeEdges stages.val, pools.Honest env deadline ready hop)
    (hready : ∀ ledger, world.ledger.transfer tokenIn user env.contract amountIn = .ok ledger →
      ready world.venues ledger) :
    Tracks Overflowed
      (fun out s outcome => Settles ready env
        (.swapMerge user tokenIn tokenOut amountIn amountOutMin deadline stages) world out s.world
        outcome)
      (swapMerge env user tokenIn tokenOut amountIn amountOutMin deadline stages world.start)
      (pools.quoted env
        (.swapMerge user tokenIn tokenOut amountIn amountOutMin deadline stages) world) := by
  let call : EntryCall := .swapMerge user tokenIn tokenOut amountIn amountOutMin deadline stages
  unfold swapMerge mergeEntry
  simp only [bind_assoc, pure_bind]
  refine tracks_entry call hstandard Pools.quoted_no_stages (fun hnot => if_neg hnot) ?_
  intro hadmitted _ s hvenues hledger htransfer
  rw [Pools.quoted_merge hadmitted]
  unfold Pools.priceMerge
  rw [Option.bind_assoc, ← hvenues]
  let scope : Scope (ι → P) := call.scope env world
  have hopened : scope.Opened (fun t => if t = tokenIn then (amountIn : Int) else 0) s :=
    { base_nonneg := fun t => world.ledger.nonneg t env.contract
      held := fun t => (pulled_balance htransfer hadmitted.signed t).ge }
  have hinv : MergeInv scope s (fun t => if t = tokenIn then (amountIn : Int) else 0) [] []
      (initialAvail tokenIn amountIn) s := .start hadmitted.amount_pos
  let store0 : Store Address ι P (Address → Address → Int) :=
    ⟨fun t => if t = tokenIn then amountIn else 0, s.venues, s.ledger.balance + 0⟩
  have hstored0 : Stored ready (initialAvail tokenIn amountIn) s store0 :=
    { avail := funext (initialAvail_amount tokenIn amountIn)
      venues := rfl
      ledger := (add_zero _).symm
      ready := by rw [hvenues]; exact hready _ htransfer }
  have hloop := (Pools.stageLoop hhonest hopened hinv hstored0).and_left
    (stageLoop_post List.prefix_rfl hopened hinv)
  have hshift := pools.net.run_shift stages.val
    ⟨fun t => if t = tokenIn then amountIn else 0, s.venues, 0⟩ s.ledger.balance
  rw [show pools.net.run stages.val store0 = _ from hshift] at hloop
  refine hloop.of_map.bind ?_
  rintro avail s' store - - ⟨hstored, runs, hinv'⟩
  exact merge_tail_tracks hstandard hadmitted hledger hstored (hinv'.held hopened tokenOut)

/-- An admitted `swap` is quoted by its price. -/
theorem Pools.quoted_swap {plan : Vec Strand}
    (hadmitted : (EntryCall.swap user tokenIn tokenOut amountIn amountOutMin deadline
      plan).Admitted env world.ledger) :
    pools.quoted env (.swap user tokenIn tokenOut amountIn amountOutMin deadline plan) world =
      (pools.priceSwap tokenIn tokenOut amountIn plan.val world.venues).bind fun outcome =>
        outcome.paying env.contract tokenOut amountOutMin := if_pos hadmitted

/-- Without a strand there are no parts. -/
theorem Pools.quoted_no_strands {plan : Vec Strand} (hlen : plan.len = 0) :
    pools.quoted env (.swap user tokenIn tokenOut amountIn amountOutMin deadline plan) world =
      none := by
  by_cases hadmitted : (EntryCall.swap user tokenIn tokenOut amountIn amountOutMin deadline
    plan).Admitted env world.ledger
  swap
  · exact if_neg hadmitted
  rw [Pools.quoted_swap hadmitted]
  unfold Pools.priceSwap
  rw [List.length_eq_zero_iff.mp hlen]
  rfl

/-- `swap` tracks its quote. -/
theorem swap_tracks {plan : Vec Strand} (hstandard : env.Standard)
    (hhonest : ∀ hop ∈ swapEdges plan.val, pools.Honest env deadline ready hop)
    (hready : ∀ ledger, world.ledger.transfer tokenIn user env.contract amountIn = .ok ledger →
      ready world.venues ledger) :
    Tracks Overflowed
      (fun out s outcome => Settles ready env
        (.swap user tokenIn tokenOut amountIn amountOutMin deadline plan) world out s.world
        outcome)
      (swap env user tokenIn tokenOut amountIn amountOutMin deadline plan world.start)
      (pools.quoted env (.swap user tokenIn tokenOut amountIn amountOutMin deadline plan)
        world) := by
  let call : EntryCall := .swap user tokenIn tokenOut amountIn amountOutMin deadline plan
  have hlength : (plan.val.map Strand.parts).length < 2 ^ 32 := by
    rw [List.length_map]
    exact plan.property
  unfold swap
  rw [sumParts_eq _ hlength]
  simp only [pure_bind]
  refine tracks_entry call hstandard Pools.quoted_no_strands (fun hnot => if_neg hnot) ?_
  intro hadmitted hlen s hvenues hledger htransfer
  rw [Pools.quoted_swap hadmitted]
  unfold Pools.priceSwap
  by_cases htotal : (weights (plan.val.map Strand.parts)).sum ≤ 0
  · rw [panicIf_of htotal, if_pos htotal]
    exact .fail _ _
  rw [panicIf_of_not htotal, if_neg htotal, pure_bind, ← hvenues]
  obtain ⟨front, final, hplan⟩ : ∃ front final, plan.val = front ++ [final] := by
    rcases List.eq_nil_or_concat plan.val with hnil | ⟨front, final, hplan⟩
    · exact absurd (congrArg List.length hnil) hlen
    · exact ⟨front, final, hplan.trans (List.concat_eq_append ..)⟩
  have hcount : plan.len = (front ++ [final]).length := congrArg List.length hplan
  rw [hplan] at hhonest htotal
  rw [hcount, hplan, dealPlan_eq]
  let scope : Scope (ι → P) := call.scope env world
  have hopened : scope.Opened (fun t => if t = tokenIn then (amountIn : Int) else 0) s :=
    { base_nonneg := fun t => world.ledger.nonneg t env.contract
      held := fun t => (pulled_balance htransfer hadmitted.signed t).ge }
  let store0 : Store Dealt ι P (Address → Address → Int) :=
    ⟨0, s.venues, s.ledger.balance + 0⟩
  have hreached0 : Reached ready s store0 :=
    ⟨rfl, (add_zero _).symm, by rw [hvenues]; exact hready _ htransfer⟩
  have hhonest' : ∀ hop ∈ swapEdges (front ++ [final]),
      pools.Honest scope.env scope.deadline ready hop := hhonest
  have hloop := Pools.strandLoop tokenOut hhonest' hopened
    ⟨hadmitted.amount_pos, amountIn.property.2⟩ (by omega) .start hreached0
  have hshift := (pools.strandNet tokenIn tokenOut amountIn).run_shift
    (dealOut amountIn front final) ⟨0, s.venues, 0⟩ s.ledger.balance
  rw [show (pools.strandNet tokenIn tokenOut amountIn).run (dealOut amountIn front final)
    store0 = _ from hshift] at hloop
  rw [Option.bind_map]
  refine hloop.of_map.bind ?_
  rintro allocated s' store - - hreached
  exact tracks_moved call ⟨store.locals, store.effect⟩ hstandard hadmitted hledger
    hreached.venues hreached.ledger hreached.ready

/-- A plan executor tracks the quote of the call. -/
theorem EntryCall.tracks {call : EntryCall} (hplan : call.IsPlan) (hstandard : env.Standard)
    (hhonest : ∀ hop ∈ call.edges, pools.Honest env call.deadline ready hop)
    (hready : ∀ ledger,
      world.ledger.transfer call.tokenIn call.user env.contract call.amountIn = .ok ledger →
        ready world.venues ledger) :
    Tracks Overflowed (fun out s outcome => Settles ready env call world out s.world outcome)
      (call.run env world.start) (pools.quoted env call world) := by
  cases call with
  | swap => exact swap_tracks hstandard hhonest hready
  | swapMerge => exact swapMerge_tracks hstandard hhonest hready
  | swapSoroswap => exact hplan.elim
  | swapAqua => exact hplan.elim
  | swapPhoenix => exact hplan.elim
  | swapAquaThenSoroswap => exact hplan.elim

/-- The two ways in which a plan call can end: as quoted, or not at all. -/
theorem EntryCall.invoke_cases {call : EntryCall} (hplan : call.IsPlan)
    (hstandard : env.Standard)
    (hhonest : ∀ hop ∈ call.edges, pools.Honest env call.deadline ready hop)
    (hready : ∀ ledger,
      world.ledger.transfer call.tokenIn call.user env.contract call.amountIn = .ok ledger →
        ready world.venues ledger)
    (hfits : (call.invoke env world).result ≠ .error (.host .balanceOverflow)) :
    (∃ outcome out, pools.quoted env call world = some outcome ∧
        (call.invoke env world).result = .ok out ∧
        Settles ready env call world out (call.invoke env world).world outcome) ∨
      (pools.quoted env call world = none ∧
        (∃ panic, (call.invoke env world).result = .error panic) ∧
        (call.invoke env world).world = world) := by
  have htracks := EntryCall.tracks hplan hstandard hhonest hready
  have hnot := EntryCall.not_overflowed hfits
  cases hrun : call.run env world.start with
  | ok out s =>
      rw [hrun] at htracks
      rw [EntryCall.invoke_of_ok hrun]
      cases hquoted : pools.quoted env call world with
      | none =>
          rw [hquoted] at htracks
          exact htracks.elim
      | some outcome =>
          rw [hquoted] at htracks
          exact .inl ⟨outcome, out, rfl, rfl, htracks⟩
  | error panic s =>
      rw [hrun] at htracks
      rw [EntryCall.invoke_of_error hrun]
      cases hquoted : pools.quoted env call world with
      | none => exact .inr ⟨rfl, ⟨panic, rfl⟩, rfl⟩
      | some outcome =>
          rw [hquoted] at htracks
          exact absurd htracks (hnot panic s hrun)

/-- Two calls on the same terms; their plans may differ. -/
structure EntryCall.SameTerms (call call' : EntryCall) : Prop where
  user : call.user = call'.user
  tokenIn : call.tokenIn = call'.tokenIn
  tokenOut : call.tokenOut = call'.tokenOut
  amountIn : call.amountIn = call'.amountIn
  amountOutMin : call.amountOutMin = call'.amountOutMin
  deadline : call.deadline = call'.deadline

theorem EntryCall.SameTerms.admitted_iff {V : Type} {env : Env V} {call call' : EntryCall}
    {ledger : Ledger} (h : call.SameTerms call') :
    call.Admitted env ledger ↔ call'.Admitted env ledger := by
  constructor
  · rintro ⟨hsigned, hpos, hmin, hdistinct, htime, hcovered⟩
    rw [h.user, h.tokenIn, h.amountIn] at hcovered
    exact ⟨h.user ▸ hsigned, h.amountIn ▸ hpos, h.amountOutMin ▸ hmin,
      h.tokenIn ▸ h.tokenOut ▸ hdistinct, h.deadline ▸ htime, hcovered⟩
  · rintro ⟨hsigned, hpos, hmin, hdistinct, htime, hcovered⟩
    rw [← h.user, ← h.tokenIn, ← h.amountIn] at hcovered
    exact ⟨h.user ▸ hsigned, h.amountIn ▸ hpos, h.amountOutMin ▸ hmin,
      h.tokenIn ▸ h.tokenOut ▸ hdistinct, h.deadline ▸ htime, hcovered⟩

/-- Plans with the same price are quoted the same. -/
theorem Pools.quoted_congr {call call' : EntryCall} (hterms : call.SameTerms call')
    (hprice : 0 < (call.amountIn : Int) →
      pools.price call world.venues = pools.price call' world.venues) :
    pools.quoted env call world = pools.quoted env call' world := by
  refine Option.ext fun outcome => ?_
  rw [Pools.quoted_eq_some, Pools.quoted_eq_some, hterms.admitted_iff, hterms.tokenOut,
    hterms.amountOutMin]
  refine and_congr_right fun hadmitted => ?_
  rw [hprice (hterms.admitted_iff.mpr hadmitted).amount_pos]

/-- On the same terms, plans with the same price return the same and leave the same world. -/
theorem EntryCall.invoke_of_same_price {call call' : EntryCall} (hterms : call.SameTerms call')
    (hplan : call.IsPlan) (hplan' : call'.IsPlan) (hstandard : env.Standard)
    (hhonest : ∀ hop ∈ call.edges, pools.Honest env call.deadline ready hop)
    (hhonest' : ∀ hop ∈ call'.edges, pools.Honest env call.deadline ready hop)
    (hready : ∀ ledger,
      world.ledger.transfer call.tokenIn call.user env.contract call.amountIn = .ok ledger →
        ready world.venues ledger)
    (hprice : 0 < (call.amountIn : Int) →
      pools.price call world.venues = pools.price call' world.venues)
    (hfits : (call.invoke env world).result ≠ .error (.host .balanceOverflow))
    (hfits' : (call'.invoke env world).result ≠ .error (.host .balanceOverflow)) :
    (∀ out, (call.invoke env world).result = .ok out ↔
        (call'.invoke env world).result = .ok out) ∧
      (call.invoke env world).world = (call'.invoke env world).world := by
  have htracks := EntryCall.tracks hplan hstandard hhonest hready
  rw [hterms.tokenIn, hterms.user, hterms.amountIn] at hready
  rw [hterms.deadline] at hhonest'
  have htracks' := EntryCall.tracks hplan' hstandard hhonest' hready
  rw [Pools.quoted_congr hterms hprice] at htracks
  have hlockstep : Lockstep Overflowed (fun _ _ _ _ => True)
      (fun out out' s t => out = out' ∧ s.world = t.world) (call.run env world.start)
      (call'.run env world.start) := by
    refine (htracks.lockstep htracks').mono ?_
    rintro out out' s t ⟨outcome, hsettles, hsettles'⟩
    have hout : out = out' := by rw [hsettles.out_eq, hsettles'.out_eq, hterms.tokenOut]
    refine ⟨hout, State.world_eq (fun token holder => ?_) ?_⟩
    · refine (hsettles.ledger token holder).trans
        (Eq.trans ?_ (hsettles'.ledger token holder).symm)
      unfold EntryCall.pull EntryCall.payout
      rw [hout, hterms.user, hterms.tokenIn, hterms.tokenOut, hterms.amountIn]
    · exact hsettles.venues.trans hsettles'.venues.symm
  obtain ⟨hresult, hworld, -⟩ := invoke_of_lockstep hlockstep (fun _ _ _ _ hsame => hsame)
    (EntryCall.not_overflowed hfits) (EntryCall.not_overflowed hfits')
  exact ⟨hresult, hworld⟩

end Executors

end WowmaxStellar
