import WowmaxStellar.Logic.Desk
import WowmaxStellar.Logic.Live
import WowmaxStellar.Theorems.Provenance

/-!
# The run-time checks of `swap_merge` are a static check

`swap_merge` finds out about a malformed plan as it goes: it looks whether a stage has
anything of its token, checks a fill when it comes to it and looks for dead ends at the very
end. With venues that deliver, what it accepts is what the static check accepts, as long as
the amounts come out.

* `fillStep_goes_on`, `stageStep_goes_on` — a well-formed plan only stops on an overflow;
* `stage_wellFormed`, `fill_amounts` — what a call that returned says of its plan;
* `plan_check_iff` — both directions.
-/

namespace WowmaxStellar

open Runs Flow Split

variable {V : Type}

/-! ## What is assumed -/

/-- No token refuses a transfer. -/
def Env.Standard (env : Env V) : Prop :=
  ∀ venues ledger token src dst amount, env.accepts venues ledger token src dst amount = true

/-- The venue of an edge delivers while `ready` holds of the world, which it keeps: handed
what the executor holds it takes just that, brings in some of the output and replies as it
should, unless a balance overflows. -/
def Hop.Delivers (env : Env V) (deadline : UInt64) (ready : V → Ledger → Prop) (hop : Hop) :
    Prop :=
  ∀ venues ledger amount, ready venues ledger → 0 < amount →
    amount ≤ ledger.balance hop.tokenIn env.contract →
    hop.settle env amount none deadline venues ledger = .error .balanceOverflow ∨
      ∃ ledger' venues' reply,
        hop.settle env amount none deadline venues ledger = .ok (ledger', venues', reply) ∧
        hop.replyType.Accepts reply ∧
        ledger'.balance hop.tokenIn env.contract =
          ledger.balance hop.tokenIn env.contract - amount ∧
        ledger.balance hop.tokenOut env.contract < ledger'.balance hop.tokenOut env.contract ∧
        ready venues' ledger'

/-- An honest venue that offers something for every amount delivers. -/
theorem Pools.Honest.delivers {ι P : Type} [DecidableEq ι] {pools : Pools ι P}
    {env : Env (ι → P)} {deadline : UInt64} {ready : (ι → P) → Ledger → Prop} {hop : Hop}
    (h : pools.Honest env deadline ready hop) (hdistinct : hop.tokenIn ≠ hop.tokenOut)
    (hoffers : ∀ p amount, 0 < amount → pools.quote hop p amount ≠ none) :
    hop.Delivers env deadline ready := by
  intro venues ledger amount hready hamount hcovered
  have hsettle := h.settle venues ledger amount hready hamount hcovered
  cases hquote : pools.quote hop (venues (pools.pool hop)) amount with
  | none => exact absurd hquote (hoffers _ _ hamount)
  | some quote =>
      rw [hquote] at hsettle
      rcases hsettle with hover | ⟨ledger', reply, hok, haccepts, hmoves, hready'⟩
      · exact .inl hover
      · have hpos := h.out_pos _ _ _ hquote
        have htaken := hmoves hop.tokenIn env.contract
        have hgain := hmoves hop.tokenOut env.contract
        rw [h.own _ _ _ hquote, if_neg hdistinct, if_pos rfl] at htaken
        rw [h.own _ _ _ hquote, if_pos rfl, if_neg hdistinct.symm] at hgain
        exact .inr ⟨ledger', _, reply, hok, haccepts, by omega, by omega, hready'⟩

/-- The checks at the entry pass, there are stages, and the user holds the input. -/
structure MergeArgs.Admitted (env : Env V) (args : MergeArgs) (world : World V) : Prop where
  signed : args.user ∈ env.signers
  amount_pos : 0 < (args.amountIn : Int)
  min_nonneg : 0 ≤ (args.amountOutMin : Int)
  distinct : args.tokenIn ≠ args.tokenOut
  in_time : ¬ (args.deadline ≠ 0 ∧ env.timestamp > args.deadline)
  stages : args.stages.len ≠ 0
  held : (args.amountIn : Int) ≤ world.ledger.balance args.tokenIn args.user

/-! ## What the amounts have to come to -/

/-- Of every fill the run comes to, the product is an `i128` unless it is the last of its
stage, and the computed share is positive. -/
def MergeArgs.SharesPositive (env : Env V) (args : MergeArgs) (world : World V) : Prop :=
  ∀ k stage j fill avail totalParts allocated now s, args.stages.val[k]? = some stage →
    stage.fills.val[j]? = some fill →
    mergeFills env args k stage j world.start = .ok (avail, totalParts, allocated, now) s →
    ¬ BranchOverflows (avail.amount stage.token) stage.fills.len j fill.parts ∧
      ∀ share s', branchAmount (avail.amount stage.token) totalParts stage.fills.len j fill.parts
        allocated s = .ok share s' → 0 < share

/-- When all stages are through, the executor has gained the minimum. -/
def MergeArgs.MinimumMet (env : Env V) (args : MergeArgs) (world : World V) : Prop :=
  ∀ start s, mergeStages env args args.stages.len world.start = .ok start s →
    (args.amountOutMin : Int) ≤ s.ledger.balance args.tokenOut env.contract - start.1

/-! ## A well-formed plan goes on -/

/-- Only a balance overflow stops `x`, and `Q` holds when it returns. -/
def GoesThrough {α : Type} (x : Exec V α) (s : State V) (Q : α → State V → Prop) : Prop :=
  Post x s Q fun panic _ => Overflowed panic

section Forward

variable {env : Env V} {args : MergeArgs} {world : World V} {ready : V → Ledger → Prop}
  {s : State V} {deadline : UInt64}

theorem Hop.Delivers.runFill {token : Address} {fill : Fill} {amount : Int}
    (h : (fill.toHop token).Delivers env deadline ready) (hrouted : (fill.toHop token).Routed)
    (hready : ready s.venues s.ledger) (hamount : 0 < amount)
    (hcovered : amount ≤ s.ledger.balance token env.contract) :
    GoesThrough (runFill env deadline token fill amount) s
      fun _ s' => ready s'.venues s'.ledger := by
  unfold GoesThrough
  rw [runFill_eq]
  refine post_balance_bind (post_balance_bind ?_)
  rw [measuredEdge_of_routed env hamount hrouted]
  have hmax := s.ledger.le_max token env.contract
  rcases h s.venues s.ledger amount hready hamount hcovered with
    hover | ⟨ledger, venues, reply, hok, hreply, htaken, hgain, hready'⟩
  · -- a call that fails makes no leg
    obtain ⟨s', hrun⟩ := measuredLeg_of_settle_error
      (s := (s.served (.balance token env.contract)).served (.balance fill.tokenOut env.contract))
      (s.ledger.balance token env.contract) (s.ledger.balance fill.tokenOut env.contract)
      .fillNoOutput hover
    exact .of_error hrun rfl
  · rw [Fill.toHop_tokenIn] at htaken
    rw [Fill.toHop_tokenOut] at hgain
    have hmax' := ledger.le_max fill.tokenOut env.contract
    have hnonneg := s.ledger.nonneg fill.tokenOut env.contract
    have hspent : s.ledger.balance token env.contract - ledger.balance token env.contract =
        amount := by omega
    have hmade : 0 < ledger.balance fill.tokenOut env.contract -
        s.ledger.balance fill.tokenOut env.contract ∧ ledger.balance fill.tokenOut env.contract -
          s.ledger.balance fill.tokenOut env.contract ≤ i128Max := by omega
    obtain ⟨s', hrun, hledger, hvenues⟩ := measuredLeg_of_settle
      (s := (s.served (.balance token env.contract)).served (.balance fill.tokenOut env.contract))
      .fillNoOutput hok hreply ⟨hamount.le, by omega⟩ hspent rfl hmade
    refine .of_ok hrun ?_
    rw [hledger, hvenues]
    exact hready'

variable {scope : Scope V} {s0 : State V} {start : Address → Int} {earlier legs : List Leg}
  {stage : Stage} {before : Avail} {done rest : List Fill} {fill : Fill} {acc : Int × Avail}

/-- A well-formed fill with a positive share goes through. -/
theorem fillStep_goes_on
    (hdelivers : (fill.toHop stage.token).Delivers scope.env scope.deadline ready)
    (hwell : fill.WellFormed stage.token) (hopened : scope.Opened start s0)
    (hbefore : ∀ t, before.amount t = holding start (earlier.map Leg.move) t)
    (hbal : 0 < before.amount stage.token ∧ before.amount stage.token ≤ i128Max)
    (htotal : 0 < (weights (stage.fills.val.map Fill.parts)).sum)
    (hsplit : done ++ fill :: rest = stage.fills.val)
    (hinv : FillInv scope s0 earlier stage before legs done acc s)
    (hready : ready s.venues s.ledger)
    (hproduct : ¬ BranchOverflows (before.amount stage.token) stage.fills.len done.length
      fill.parts)
    (hpositive : ∀ share s', branchAmount (before.amount stage.token)
      (weights (stage.fills.val.map Fill.parts)).sum stage.fills.len done.length fill.parts acc.1
      s = .ok share s' → 0 < share) :
    GoesThrough (fillStep scope.env scope.deadline stage.token (before.amount stage.token)
        (weights (stage.fills.val.map Fill.parts)).sum stage.fills.len done.length fill acc) s
      fun acc' s' => (∃ legs, FillInv scope s0 earlier stage before legs (done ++ [fill]) acc' s') ∧
        ready s'.venues s'.ledger := by
  obtain ⟨hdistinct, hrouted⟩ := Fill.wellFormed_iff.mp hwell
  obtain ⟨share, hshare, hle, -, heq⟩ := fillStep_eq hinv.running hbal htotal hsplit
  -- the computed share is the one the loop hands out
  have hpos : 0 < share := by
    apply hpositive share s
    rw [hshare]
    unfold Vec.len at hproduct ⊢
    rw [branchAmount_map_eq hinv.running hsplit hbal.1.le hbal.2 htotal, if_neg hproduct]
    rfl
  have hgoes : Post (fillStep scope.env scope.deadline stage.token (before.amount stage.token)
      (weights (stage.fills.val.map Fill.parts)).sum stage.fills.len done.length fill acc) s
      (fun _ s' => ready s'.venues s'.ledger)
      (fun panic _ => Overflowed panic ∨ Unreached panic) := by
    have hcovered := (hinv.covers hopened hbefore hle).self
    have hbase := hopened.base_nonneg stage.token
    rw [heq, if_neg hproduct, panicIf_of_not hdistinct, pure_bind, panicIf_of_not (by omega),
      pure_bind]
    refine (hdelivers.runFill hrouted hready hpos (by omega)).bind_mono
      (fun _ _ hover => .inl hover) ?_
    intro produced s' hready'
    -- the map cannot overflow: `fillStep_post` knows that panic unreached
    rcases creditAvail_cases acc.2 share produced hdistinct with hcredit | ⟨panic, hpanic, hcredit⟩
    · rw [hcredit, pure_bind]
      exact .pure hready'
    · rw [hcredit]
      exact .throw (.inr hpanic)
  refine (hgoes.and (fillStep_post hopened hbefore hbal htotal hsplit hinv)).mono ?_ ?_
  · rintro acc' s' ⟨hready', leg, hinv'⟩
    exact ⟨⟨_, hinv'⟩, hready'⟩
  · rintro panic s' ⟨hover | hunreached, hstopped⟩
    · exact hover
    · exact absurd hunreached hstopped.1

end Forward

section Stages

variable {env : Env V} {args : MergeArgs} {world : World V} {ready : V → Ledger → Prop}
  {s : State V} {k : Nat} {stage : Stage} {start : Int × Avail}

/-- The tokens that are live in front of a stage are those the map shows something of. -/
theorem mem_live_iff (h : mergeStages env args k world.start = .ok start s) (t : Address) :
    t ∈ liveAfter {args.tokenIn} (args.stages.val.take k) ↔ 0 < start.2.amount t := by
  obtain ⟨s0, runs, hpulled, hinv⟩ := (mergeStages_post k).ok h
  refine hinv.mem_live_iff trivial hpulled.opening_nonneg ?_ t
  intro token
  have hamount : 0 < (args.amountIn : Int) := hpulled.amount_pos
  rw [Finset.mem_singleton]
  show token = args.tokenIn ↔ 0 < if token = args.tokenIn then (args.amountIn : Int) else 0
  split <;> simp_all

/-- The run up to a fill, put together from the runs up to its stage and through the fills
before it. -/
theorem mergeFills_of_reached {done : List Fill} {rest : List Fill} {totalParts : Int}
    {acc : Int × Avail} {s' : State V}
    (hstart : mergeStages env args k world.start = .ok start s)
    (hheader : (stageHeader stage (start.2.amount stage.token) : Exec V Int) = pure totalParts)
    (hsplit : done ++ rest = stage.fills.val)
    (hrun : loop (fillStep env args.deadline stage.token (start.2.amount stage.token) totalParts
      stage.fills.len) 0 done (0, start.2) s = .ok acc s') :
    mergeFills env args k stage done.length world.start = .ok (start.2, totalParts, acc) s' := by
  unfold mergeFills stageFills
  rw [bind_of_ok hstart, hheader, pure_bind, ← hsplit, List.take_left, bind_assoc,
    bind_of_ok hrun]
  rfl

/-- A well-formed stage goes through. -/
theorem stageStep_goes_on (hstage : args.stages.val[k]? = some stage)
    (hstart : mergeStages env args k world.start = .ok start s)
    (hdelivers : ∀ hop ∈ stage.edges, hop.Routed → hop.tokenIn ≠ hop.tokenOut →
      hop.Delivers env args.deadline ready)
    (hready : ready s.venues s.ledger)
    (hwell : stage.WellFormed (liveAfter {args.tokenIn} (args.stages.val.take k)))
    (hshares : args.SharesPositive env world) :
    GoesThrough (stageStep env args.deadline stage start.2) s
      fun _ s' => ready s'.venues s'.ledger := by
  obtain ⟨hlive, hfills, hparts, hfillsWell⟩ := hwell
  have hbal := (mem_live_iff hstart stage.token).mp hlive
  have htotal := (sum_weights_pos_iff stage.fills.val).mpr hparts
  have hheader : (stageHeader stage (start.2.amount stage.token) : Exec V Int) =
      pure (weights (stage.fills.val.map Fill.parts)).sum := by
    rw [stageHeader_eq, if_neg (by omega), if_neg hfills, if_neg (by omega)]
  obtain ⟨s0, runs, hpulled, hinv⟩ := (mergeStages_post k).ok hstart
  have hmax := hinv.le_max hpulled.opened stage.token
  unfold GoesThrough stageStep
  rw [hheader, pure_bind]
  refine Post.bind (Post.loop_reached (I := fun done acc s' =>
    (∃ legs, FillInv (args.call.scope env world) s0 (allLegs runs) stage start.2 legs done acc s') ∧
      ready s'.venues s'.ledger) ?_ ?_) fun _ _ h => .pure h.2
  · rintro done fill rest hsplit acc s' hrun ⟨⟨legs, hfill⟩, hready'⟩
    have hmem : fill ∈ stage.fills.val := by
      rw [← hsplit]
      exact List.mem_append_right _ (List.mem_cons_self ..)
    have hget : stage.fills.val[done.length]? = some fill := by
      rw [← hsplit]
      simp
    have hfillWell := hfillsWell fill hmem
    obtain ⟨hdistinct, hrouted⟩ := Fill.wellFormed_iff.mp hfillWell
    have hreached := mergeFills_of_reached hstart hheader hsplit hrun
    obtain ⟨hproduct, hpositive⟩ := hshares k stage done.length fill _ _ _ _ _ hstage hget hreached
    have hvenue : (fill.toHop stage.token).Delivers (args.call.scope env world).env
        (args.call.scope env world).deadline ready :=
      hdelivers _ (Stage.mem_edges hmem) hrouted hdistinct.symm
    have hgoes := fillStep_goes_on hvenue hfillWell hpulled.opened hinv.books ⟨hbal, hmax⟩ htotal
      hsplit hfill hready' hproduct hpositive
    exact hgoes
  · exact ⟨⟨[], .initial hinv.journal hinv.nonneg hbal htotal⟩, hready⟩

end Stages

section Call

variable {env : Env V} {args : MergeArgs} {world : World V} {ready : V → Ledger → Prop}

/-- The entry of an admitted call goes through. -/
theorem mergeEntry_goes_on (hstandard : env.Standard) (h : args.Admitted env world) :
    GoesThrough (mergeEntry env args.user args.tokenIn args.tokenOut args.amountIn
      args.amountOutMin args.deadline args.stages) world.start fun _ _ => True := by
  unfold GoesThrough mergeEntry
  rw [entryChecks_eq h.signed h.amount_pos h.min_nonneg h.distinct h.in_time, pure_bind,
    panicIf_of_not h.stages, pure_bind]
  refine post_balance_bind ?_
  exact post_transfer_covered_bind (.inr h.signed) (hstandard ..) h.amount_pos.le h.held rfl
    fun ledger _ => .pure trivial

/-- The stages of a well-formed plan go through. -/
theorem mergeStages_goes_on (hstandard : env.Standard) (h : args.Admitted env world)
    (hdelivers : ∀ hop ∈ mergeEdges args.stages.val, hop.Routed → hop.tokenIn ≠ hop.tokenOut →
      hop.Delivers env args.deadline ready)
    (hready : ∀ ledger, world.ledger.transfer args.tokenIn args.user env.contract args.amountIn =
      .ok ledger → ready world.venues ledger)
    (hwell : ∀ done stage rest, done ++ stage :: rest = args.stages.val →
      stage.WellFormed (liveAfter {args.tokenIn} done))
    (hshares : args.SharesPositive env world) :
    GoesThrough (mergeStages env args args.stages.len) world.start fun _ _ => True := by
  unfold GoesThrough mergeStages
  have hentry := mergeEntry_goes_on hstandard h
  rw [Vec.take_len]
  refine hentry.ran.bind ?_
  rintro outBefore s0 ⟨hrun0, -⟩
  obtain ⟨-, hpulled⟩ := mergeEntry_post.ok hrun0
  have hready0 : ready s0.venues s0.ledger := by
    rw [mergeEntry_venues hrun0]
    exact hready _ hpulled.transfer
  refine Post.bind (Post.loop_reached
    (I := fun _ _ s => ready s.venues s.ledger) ?_ hready0) fun _ _ _ => .pure trivial
  intro done stage rest hsplit avail s hrun hreadyAt
  have hstart : mergeStages env args done.length world.start = .ok (outBefore, avail) s := by
    unfold mergeStages
    rw [bind_of_ok hrun0, ← hsplit, List.take_left, bind_of_ok hrun]
    rfl
  have hget : args.stages.val[done.length]? = some stage := by
    rw [← hsplit]
    simp
  have hedges : ∀ hop ∈ stage.edges, hop ∈ mergeEdges args.stages.val := by
    intro hop hmem
    exact List.mem_flatMap.mpr ⟨stage, List.mem_of_getElem? hget, hmem⟩
  have hstage := hwell done stage rest hsplit
  rw [show done = args.stages.val.take done.length by rw [← hsplit, List.take_left]] at hstage
  have hgoes := stageStep_goes_on hget hstart (fun hop hmem => hdelivers hop (hedges hop hmem))
    hreadyAt hstage hshares
  exact hgoes

/-- The first reading of a call is the balance it began with. -/
theorem mergeStages_outBefore {k : Nat} {start : Int × Avail} {s : State V}
    (h : mergeStages env args k world.start = .ok start s) :
    start.1 = world.ledger.balance args.tokenOut env.contract := by
  unfold mergeStages at h
  obtain ⟨outBefore, s0, hentry, hrest⟩ := bind_ok_iff.mp h
  obtain ⟨avail, s1, -, hstart⟩ := bind_ok_iff.mp hrest
  obtain ⟨rfl, -⟩ := pure_ok_iff.mp hstart
  exact (mergeEntry_post.ok hentry).1

/-- What is behind the stages goes through when nothing but the output is live and the minimum
is met. -/
theorem tail_goes_on {start : Int × Avail} {s : State V} (hstandard : env.Standard)
    (hstart : mergeStages env args args.stages.len world.start = .ok start s)
    (hlive : liveAfter {args.tokenIn} args.stages.val = {args.tokenOut})
    (hminimum : args.MinimumMet env world) :
    GoesThrough (do
        deadEndCheck args.tokenOut start.2
        settleMerge env args.user args.tokenOut start.1 args.amountOutMin
          (start.2.amount args.tokenOut)) s fun _ _ => True := by
  obtain ⟨s0, runs, hpulled, hinv⟩ := (mergeStages_post _).ok hstart
  have hmem := mem_live_iff hstart
  rw [Vec.take_len, hlive] at hmem
  simp only [Finset.mem_singleton] at hmem
  have hzero : ∀ t, t ≠ args.tokenOut → start.2.amount t = 0 := by
    intro t hne
    have hnonneg := hinv.nonneg t
    have hnone := mt (hmem t).mpr hne
    omega
  -- the output is live, so something is tracked, and the gain covers it
  have htracked : 0 < start.2.amount args.tokenOut := (hmem args.tokenOut).mp rfl
  have hheld : world.ledger.balance args.tokenOut env.contract + start.2.amount args.tokenOut ≤
      s.ledger.balance args.tokenOut env.contract := hinv.held hpulled.opened args.tokenOut
  have hmin := hminimum start s hstart
  have hbounds := world.ledger.balance_bounds args.tokenOut env.contract
  rw [mergeStages_outBefore hstart] at hmin ⊢
  unfold GoesThrough settleMerge
  rw [deadEndCheck_eq hzero, pure_bind]
  refine post_gain_bind hbounds ?_
  rw [panicIf_of_not (by omega), pure_bind, panicIf_of_not (by omega), pure_bind,
    panicIf_of_not (by omega), pure_bind]
  refine post_transfer_covered_bind (.inl rfl) (hstandard ..) (by omega) ?_ rfl
    fun ledger _ => .pure trivial
  show _ ≤ s.ledger.balance args.tokenOut env.contract
  omega

/-- A well-formed plan whose amounts come out succeeds. -/
theorem run_goes_on (hstandard : env.Standard) (h : args.Admitted env world)
    (hdelivers : ∀ hop ∈ mergeEdges args.stages.val, hop.Routed → hop.tokenIn ≠ hop.tokenOut →
      hop.Delivers env args.deadline ready)
    (hready : ∀ ledger, world.ledger.transfer args.tokenIn args.user env.contract args.amountIn =
      .ok ledger → ready world.venues ledger)
    (hcheck : staticCheck args.tokenOut {args.tokenIn} args.stages.val)
    (hshares : args.SharesPositive env world) (hminimum : args.MinimumMet env world) :
    GoesThrough (args.call.run env) world.start fun _ _ => True := by
  obtain ⟨hwell, hlive⟩ := staticCheck_iff.mp hcheck
  have hstages := mergeStages_goes_on hstandard h hdelivers hready hwell hshares
  unfold GoesThrough
  rw [swapMerge_eq_stages env args args.stages.len]
  refine hstages.ran.bind ?_
  rintro start s ⟨hstart, -⟩
  rw [mergeRest_len]
  exact tail_goes_on hstandard hstart hlive hminimum

end Call

/-! ## A call that returned checked its plan -/

section Backward

variable {env : Env V} {args : MergeArgs} {world : World V} {out : Int} {s s' : State V} {k : Nat}
  {stage : Stage} {start : Int × Avail}

/-- A fill that returned was computed within bounds and got a positive share. -/
theorem fillStep_returned {deadline : UInt64} {token : Address} {bal totalParts : Int}
    {fcount fi : Nat} {fill : Fill} {acc acc' : Int × Avail}
    (h : fillStep env deadline token bal totalParts fcount fi fill acc s = .ok acc' s') :
    ¬ BranchOverflows bal fcount fi fill.parts ∧
      ∀ share s1, branchAmount bal totalParts fcount fi fill.parts acc.1 s = .ok share s1 →
        0 < share := by
  unfold fillStep at h
  obtain ⟨fillIn, s1, hshare, hrest⟩ := bind_ok_iff.mp h
  refine ⟨branchAmount_fits hshare, ?_⟩
  intro share s2 hshare'
  rw [hshare] at hshare'
  cases hshare'
  suffices hpost : Post (do
      let allocated ← checkedAdd acc.1 fillIn
      panicIf (fill.tokenOut = token) .degenerateFill
      panicIf (fillIn ≤ 0) .fillNotPositive
      let produced ← runFill env deadline token fill fillIn
      let avail ← creditAvail acc.2 token fill.tokenOut fillIn produced
      pure (allocated, avail)) s1 (fun _ _ => 0 < fillIn) (fun _ _ => True) from hpost.ok hrest
  refine post_checked_bind (fun _ => trivial) fun _ => ?_
  refine post_panicIf_bind (fun _ => trivial) fun _ => ?_
  refine post_panicIf_bind (fun _ => trivial) fun hpos => ?_
  exact .intro (fun _ _ _ => not_le.mp hpos) fun _ _ _ => trivial

/-- The amounts of a call that returned came out at every fill. -/
theorem sharesPositive_of_returned (h : args.call.run env world.start = .ok out s') :
    args.SharesPositive env world := by
  intro k stage j fill avail totalParts allocated now s hstage hfill hreached
  unfold mergeFills at hreached
  obtain ⟨start, s1, hstart, hrest⟩ := bind_ok_iff.mp hreached
  obtain ⟨point, s2, hpoint, hpure⟩ := bind_ok_iff.mp hrest
  obtain ⟨heq, rfl⟩ := pure_ok_iff.mp hpure
  cases heq
  obtain ⟨_, _, hstep⟩ := stageStep_returned h hstage hstart
  obtain ⟨hj, hget⟩ := List.getElem?_eq_some_iff.mp hfill
  have hlength : (stage.fills.val.take j).length = j := by
    rw [List.length_take]
    omega
  rw [stageStep_eq_fills env args stage start.2 j, bind_of_ok hpoint] at hstep
  unfold stageRest at hstep
  rw [hlength, List.drop_eq_getElem_cons hj, hget, loop_cons] at hstep
  obtain ⟨_, _, hloop, _⟩ := bind_ok_iff.mp hstep
  obtain ⟨_, _, hfillStep, _⟩ := bind_ok_iff.mp hloop
  exact fillStep_returned hfillStep

/-- The fills of a call that returned are well formed. -/
theorem fills_wellFormed (h : args.call.run env world.start = .ok out s')
    (hstage : stage ∈ args.stages.val) {fill : Fill} (hfill : fill ∈ stage.fills.val) :
    fill.WellFormed stage.token := by
  obtain ⟨start, s, hstages, -⟩ := swapMerge_returned h
  obtain ⟨s0, runs, -, hinv⟩ := (mergeStages_post _).ok hstages
  rw [Vec.take_len] at hinv
  have hmem : fill.toHop stage.token ∈ (allLegs runs).map Leg.hop := by
    rw [hinv.hops]
    exact List.mem_flatMap.mpr ⟨stage, hstage, Stage.mem_edges hfill⟩
  obtain ⟨leg, hleg, hhop⟩ := List.mem_map.mp hmem
  have hsettled := hinv.journal.settled leg hleg
  have hdistinct := hsettled.distinct
  have hrouted := (hsettled.checked trivial).1
  rw [hhop] at hdistinct hrouted
  exact Fill.wellFormed_iff.mpr ⟨hdistinct.symm, hrouted⟩

/-- The stages of a call that returned are well formed. -/
theorem stage_wellFormed (h : args.call.run env world.start = .ok out s')
    (hstage : args.stages.val[k]? = some stage) :
    stage.WellFormed (liveAfter {args.tokenIn} (args.stages.val.take k)) := by
  obtain ⟨start, s, hstart⟩ := swapMerge_reaches h k
  obtain ⟨_, _, hstep⟩ := stageStep_returned h hstage hstart
  unfold stageStep at hstep
  obtain ⟨_, _, hheader, -⟩ := bind_ok_iff.mp hstep
  have hpassed : Post (stageHeader stage (start.2.amount stage.token)) s
      (fun _ _ => 0 < start.2.amount stage.token ∧
        0 < (weights (stage.fills.val.map Fill.parts)).sum) (fun _ _ => True) :=
    post_stageHeader (fun _ _ => trivial) fun hbal htotal => ⟨hbal, htotal⟩
  obtain ⟨hbal, htotal⟩ := hpassed.ok hheader
  have hparts := (sum_weights_pos_iff stage.fills.val).mp htotal
  refine ⟨(mem_live_iff hstart stage.token).mpr hbal, ?_, hparts, ?_⟩
  · obtain ⟨fill, hfill, -⟩ := hparts
    exact (List.length_pos_of_mem hfill).ne'
  · exact fun fill hfill => fills_wellFormed h (List.mem_of_getElem? hstage) hfill

/-- A call that returned leaves nothing live but the output. -/
theorem live_of_returned (h : args.call.run env world.start = .ok out s') :
    liveAfter {args.tokenIn} args.stages.val = {args.tokenOut} := by
  obtain ⟨start, s, hstages, -, hzero, -⟩ := swapMerge_returned h
  obtain ⟨s0, runs, -, hinv⟩ := (mergeStages_post _).ok hstages
  have hmem := mem_live_iff hstages
  rw [Vec.take_len] at hmem
  -- something is left, and it is the output
  obtain ⟨t, ht⟩ := hinv.some_pos
  have hleft : t = args.tokenOut := by
    by_contra hne
    have hnone := hzero t hne
    omega
  rw [hleft] at ht
  ext token
  rw [hmem, Finset.mem_singleton]
  constructor
  · intro hpos
    by_contra hne
    have hnone := hzero token hne
    omega
  · rintro rfl
    exact ht

/-- A call that returned had a well-formed plan, and its amounts came out. -/
theorem checked_of_returned (h : args.call.run env world.start = .ok out s') :
    staticCheck args.tokenOut {args.tokenIn} args.stages.val ∧ args.SharesPositive env world ∧
      args.MinimumMet env world := by
  refine ⟨staticCheck_iff.mpr ⟨?_, live_of_returned h⟩, sharesPositive_of_returned h, ?_⟩
  · intro done stage rest hsplit
    have hget : args.stages.val[done.length]? = some stage := by
      rw [← hsplit]
      simp
    have hwell := stage_wellFormed h hget
    rw [← hsplit, List.take_left] at hwell
    exact hwell
  · intro start s hstart
    obtain ⟨start', s1, hstages, -, -, hmin⟩ := swapMerge_returned h
    rw [hstart] at hstages
    cases hstages
    exact hmin

end Backward

/-- **The plan check.** On venues that deliver, a call of `swap_merge` that is admitted and
overflows no balance succeeds exactly when its plan passes the static check, no product of the
split overflows, every computed share is positive and the minimum is met. -/
theorem plan_check_iff (env : Env V) (ready : V → Ledger → Prop) (world : World V)
    (args : MergeArgs) (hstandard : env.Standard) (hadmitted : args.Admitted env world)
    (hdelivers : ∀ hop ∈ mergeEdges args.stages.val, hop.Routed → hop.tokenIn ≠ hop.tokenOut →
      hop.Delivers env args.deadline ready)
    (hready : ∀ ledger, world.ledger.transfer args.tokenIn args.user env.contract args.amountIn =
      .ok ledger → ready world.venues ledger)
    (hfits : (args.call.invoke env world).result ≠ .error (.host .balanceOverflow)) :
    (∃ out, (args.call.invoke env world).result = .ok out) ↔
      staticCheck args.tokenOut {args.tokenIn} args.stages.val ∧ args.SharesPositive env world ∧
        args.MinimumMet env world := by
  constructor
  · rintro ⟨out, hresult⟩
    obtain ⟨s, hrun⟩ := EntryCall.invoke_ok hresult
    exact checked_of_returned hrun
  · rintro ⟨hcheck, hshares, hminimum⟩
    have hgoes := run_goes_on hstandard hadmitted hdelivers hready hcheck hshares hminimum
    cases hrun : args.call.run env world.start with
    | ok out s =>
        rw [EntryCall.invoke_of_ok hrun]
        exact ⟨out, rfl⟩
    | error panic s => exact absurd (hgoes.error hrun) (EntryCall.not_overflowed hfits panic s hrun)

/-- Desks deliver. -/
theorem Hop.AtDesk.delivers {hop : Hop} (h : hop.AtDesk) (deadline : UInt64) :
    hop.Delivers deskEnv deadline fun _ _ => True := by
  apply (desk_honest h).delivers h.distinct
  intro p amount hpos
  rw [show deskPools.quote hop p amount = some ⟨amount, p + 1, hop.deskMoves amount⟩ from
    if_pos hpos]
  exact Option.some_ne_none _

/-- Half of the input is bought into the output, sold for an intermediate token again, and all
of that sold for the output. -/
def deskRound : MergeArgs where
  user := ⟨1⟩
  tokenIn := ⟨10⟩
  tokenOut := ⟨13⟩
  amountIn := .ofUInt32 100
  amountOutMin := .ofUInt32 95
  deadline := 0
  stages := ⟨[⟨⟨10⟩, .pair ((deskHop 20 10 11).toFill 1) ((deskHop 21 10 13).toFill 1)⟩,
    ⟨⟨13⟩, .single ((deskHop 22 13 11).toFill 1)⟩,
    ⟨⟨11⟩, .single ((deskHop 23 11 13).toFill 1)⟩], by simp⟩

theorem plan_check_iff_desk :
    (∃ out, (deskRound.call.invoke deskEnv (deskWorld 7)).result = .ok out) ↔
      staticCheck deskRound.tokenOut {deskRound.tokenIn} deskRound.stages.val ∧
        deskRound.SharesPositive deskEnv (deskWorld 7) ∧
        deskRound.MinimumMet deskEnv (deskWorld 7) := by
  have hdesks : ∀ hop ∈ mergeEdges deskRound.stages.val, hop.AtDesk := by
    intro hop hmem
    have hedges : mergeEdges deskRound.stages.val = [deskHop 20 10 11, deskHop 21 10 13,
      deskHop 22 13 11, deskHop 23 11 13] := rfl
    rw [hedges] at hmem
    simp only [List.mem_cons, List.not_mem_nil, or_false] at hmem
    rcases hmem with rfl | rfl | rfl | rfl <;> exact deskHop_atDesk (by decide) (by decide)
  apply plan_check_iff deskEnv (fun _ _ => True)
  · exact fun _ _ _ _ _ _ => rfl
  · exact
      { signed := by decide
        amount_pos := by decide
        min_nonneg := by decide
        distinct := by decide
        in_time := by decide
        stages := by decide
        held := by decide }
  · exact fun hop hmem _ _ => (hdesks hop hmem).delivers 0
  · exact fun _ _ => trivial
  · decide +kernel

end WowmaxStellar
