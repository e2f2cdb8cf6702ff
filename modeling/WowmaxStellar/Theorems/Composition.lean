import WowmaxStellar.Logic.Worlds
import WowmaxStellar.Theorems.PlanCheck
import WowmaxStellar.Theorems.StageOrder
import WowmaxStellar.Theorems.StrandIsolation

/-!
# Routes compose

A stage list whose first part leaves one token, `midToken`, is two routes in a row. Executing
it in one call is executing the two routes in two calls: the first one pays the intermediate
token out to the user, the second one takes it from there. The executor keeps nothing from one
call to the next, and the amount in between is what the user would have been paid. The tokens
are standard, and no balance overflows in the first call.

* `mid_reached` — where the first part ends;
* `first_pays` — what the first call makes of it;
* `second_lockstep` — the second call and the rest of the one call;
* `route_composes` — the result.
-/

namespace WowmaxStellar

open Runs Flow

variable {V : Type}

/-- The first part as a call of its own, to the intermediate token and without a minimum. -/
def MergeArgs.toMid (args : MergeArgs) (midToken : Address) (front : Vec Stage) : MergeArgs :=
  { args with tokenOut := midToken, amountOutMin := ⟨0, by decide⟩, stages := front }

/-- The second part as a call of its own, from the intermediate token. -/
def MergeArgs.fromMid (args : MergeArgs) (midToken : Address) (mid : I128) (back : Vec Stage) :
    MergeArgs :=
  { args with tokenIn := midToken, amountIn := mid, stages := back }

/-- A transfer can be taken back. -/
theorem Ledger.transfer_back {ledger ledger' : Ledger} {token src dst : Address} {amount : Int}
    (hne : src ≠ dst) (h : ledger.transfer token src dst amount = .ok ledger') :
    ledger'.transfer token dst src amount = .ok ledger := by
  obtain ⟨h0, hcovered, hbalance⟩ := transfer_ok h
  have hdst := hbalance token dst
  rw [share_of_ne hne.symm, share_self] at hdst
  have hnonneg := ledger.nonneg token dst
  obtain ⟨paid, hpaid⟩ : ∃ paid, ledger'.debit token dst amount = .ok paid := by
    unfold debit
    rw [dif_neg (by omega), dif_neg (by omega)]
    exact ⟨_, rfl⟩
  obtain ⟨_, _, hpaidBalance⟩ := debit_ok_iff.mp hpaid
  unfold transfer
  rw [hpaid]
  refine credit_ok_iff.mpr ⟨h0, ?_, fun t h => ?_⟩
  · have hmax := ledger.le_max token src
    rw [hpaidBalance, hbalance, share_self, share_of_ne hne]
    omega
  · rw [hpaidBalance, hbalance]
    omega

section Parts

variable {env : Env V} {args : MergeArgs} {world : World V} {start : Int × Avail} {s : State V}

/-- Once the stages of a contained plan are through, the executor holds what the map shows, and
nothing else came or went. -/
theorem MergeInv.balance_eq {scope : Scope V} {s0 : State V} {opening : Address → Int}
    {runs : List StageRun} {done : List Stage} {avail : Avail}
    (h : MergeInv scope s0 opening runs done avail s)
    (hcontained : ∀ hop ∈ mergeEdges done, hop.Contained scope.env scope.deadline) (t : Address) :
    s.ledger.balance t scope.env.contract + opening t =
      s0.ledger.balance t scope.env.contract + avail.amount t := by
  have hside : ((allLegs runs).map fun leg =>
      sideDelivery scope.env.contract leg.hop leg.record t).sum = 0 := by
    refine List.sum_eq_zero ?_
    intro x hx
    obtain ⟨leg, hleg, rfl⟩ := List.mem_map.mp hx
    refine (h.journal.settled leg hleg).sideDelivery_eq_zero (hcontained _ ?_) t
    rw [← h.hops]
    exact List.mem_map_of_mem hleg
  have hbalance := h.journal.balance_eq t
  have hbooks := h.books t
  unfold holding at hbalance hbooks
  beta_reduce at hbalance
  omega

/-- Where a plan that leaves `tokenOut` only has brought a call. -/
structure Arrived (env : Env V) (args : MergeArgs) (world : World V) (start : Int × Avail)
    (s : State V) : Prop where
  signed : args.user ∈ env.signers
  outBefore : start.1 = world.ledger.balance args.tokenOut env.contract
  held : ∀ t, s.ledger.balance t env.contract =
    world.ledger.balance t env.contract + start.2.amount t
  pos : 0 < start.2.amount args.tokenOut
  only : ∀ t, t ≠ args.tokenOut → start.2.amount t = 0

theorem mid_reached (h : mergeStages env args args.stages.len world.start = .ok start s)
    (hlive : liveAfter {args.tokenIn} args.stages.val = {args.tokenOut})
    (hcontained : ∀ hop ∈ mergeEdges args.stages.val, hop.Contained env args.deadline) :
    Arrived env args world start s := by
  obtain ⟨s0, runs, hpulled, hinv⟩ := (mergeStages_post _).ok h
  have hmem := mem_live_iff h
  rw [Vec.take_len, hlive] at hmem
  simp only [Finset.mem_singleton] at hmem
  rw [Vec.take_len] at hinv
  refine ⟨hpulled.signed, mergeStages_outBefore h, fun t => ?_, (hmem _).mp rfl, fun t hne => ?_⟩
  · have hbalance : s.ledger.balance t env.contract + args.call.opening t =
        s0.ledger.balance t env.contract + start.2.amount t := hinv.balance_eq hcontained t
    have hopening := hpulled.balance t
    omega
  · have hnonneg := hinv.nonneg t
    have hnone := mt (hmem t).mpr hne
    omega

/-- What comes behind the stages pays the tracked amount out, unless it overflows. -/
theorem first_pays (hstandard : env.Standard) (h : Arrived env args world start s)
    (hmin : (args.amountOutMin : Int) ≤ start.2.amount args.tokenOut) :
    Post (do
        deadEndCheck args.tokenOut start.2
        settleMerge env args.user args.tokenOut start.1 args.amountOutMin
          (start.2.amount args.tokenOut)) s
      (fun out t => out = start.2.amount args.tokenOut ∧ t.venues = s.venues ∧
        s.ledger.transfer args.tokenOut env.contract args.user out = .ok t.ledger)
      (fun panic _ => panic = .host .balanceOverflow) := by
  have hheld := h.held args.tokenOut
  have hpos := h.pos
  have hbounds := world.ledger.balance_bounds args.tokenOut env.contract
  have hgain : s.ledger.balance args.tokenOut env.contract - start.1 =
      start.2.amount args.tokenOut := by
    rw [h.outBefore]
    omega
  unfold settleMerge
  rw [deadEndCheck_eq h.only, pure_bind]
  refine post_gain_bind (h.outBefore ▸ hbounds) ?_
  rw [hgain, panicIf_of_not (by omega), pure_bind, panicIf_of_not (by omega), pure_bind,
    panicIf_of_not (by omega), pure_bind]
  refine post_transfer_covered_bind (.inl rfl) (hstandard ..) (by omega) ?_ rfl
    fun ledger hmoved => .pure ⟨rfl, rfl, hmoved⟩
  show _ ≤ s.ledger.balance args.tokenOut env.contract
  omega

end Parts

section TwoCalls

variable {env : Env V} {args : MergeArgs} {world : World V} {midToken : Address}
  {front back : Vec Stage}

/-- The entry checks that pass look at the user, the amount and the time only. -/
theorem entryChecks_congr {user tokenIn tokenOut tokenOut' : Address}
    {amountIn amountOutMin amountOutMin' : Int} {deadline : UInt64} (hmin : 0 ≤ amountOutMin)
    (hmin' : 0 ≤ amountOutMin') (hne : tokenIn ≠ tokenOut) (hne' : tokenIn ≠ tokenOut') :
    entryChecks env user tokenIn tokenOut amountIn amountOutMin deadline =
      entryChecks env user tokenIn tokenOut' amountIn amountOutMin' deadline := by
  unfold entryChecks requireAmounts requireDistinct
  rw [panicIf_of_not (not_lt.mpr hmin), panicIf_of_not (not_lt.mpr hmin'), panicIf_of_not hne,
    panicIf_of_not hne']

/-- Up to the intermediate token the one call and the first of the two do the same. -/
theorem front_lockstep (hstages : args.stages.val = front.val ++ back.val)
    (hfront : front.len ≠ 0) (hmin : 0 ≤ (args.amountOutMin : Int))
    (hmid : args.tokenIn ≠ midToken) (hout : args.tokenIn ≠ args.tokenOut) :
    Lockstep (fun _ => False) (fun _ _ _ _ => True)
      (fun start start' s t => SameAmounts start.2 start'.2 s t)
      (mergeStages env args front.len world.start)
      (mergeStages env (args.toMid midToken front) front.len world.start) := by
  have hlen : args.stages.len ≠ 0 := by
    have hlength := congrArg List.length hstages
    rw [List.length_append] at hlength
    unfold Vec.len at *
    omega
  have htake : args.stages.val.take front.len = front.val := by
    rw [hstages]
    exact List.take_left
  unfold mergeStages mergeEntry
  rw [htake]
  show Lockstep _ _ _ _ ((do
    let outBefore ← (do
      entryChecks env args.user args.tokenIn midToken args.amountIn 0 args.deadline
      panicIf (front.len = 0) .emptyStages
      let outBefore ← balance midToken env.contract
      transfer env args.tokenIn args.user env.contract args.amountIn
      pure outBefore)
    let avail ← loop (fun _ => stageStep env args.deadline) 0 (front.val.take front.len)
      (initialAvail args.tokenIn args.amountIn)
    pure (outBefore, avail)) world.start)
  rw [entryChecks_congr hmin le_rfl hout hmid, panicIf_of_not hlen, panicIf_of_not hfront,
    Vec.take_len]
  simp only [bind_assoc, pure_bind]
  refine (sees_entryChecks _ _ _ _ _ _).lockstep_bind rfl fun _ s t hworld => ?_
  refine lockstep_balance_bind (lockstep_transfer_bind hworld fun s t hworld => ?_)
  refine (stages_sameAmounts args.deadline front.val ⟨rfl, hworld⟩).bind ?_
  rintro avail avail' s t - - hsame
  exact hsame

section Second

variable (mid : I128) {start start' : Int × Avail} {s s1 t : State V}

/-- The second call finds the executor as the first part has left it: the payout is taken
back. -/
theorem second_entry (hstandard : env.Standard) (hback : back.len ≠ 0)
    (hmin : 0 ≤ (args.amountOutMin : Int)) (hne : midToken ≠ args.tokenOut)
    (htime : ¬ (args.deadline ≠ 0 ∧ env.timestamp > args.deadline))
    (hat : Arrived env (args.toMid midToken front) world start' s1)
    (hmid : (mid : Int) = start'.2.amount midToken) (hvenues : t.venues = s1.venues)
    (hpaid : s1.ledger.transfer midToken env.contract args.user mid = .ok t.ledger) :
    ∃ u, mergeEntry env args.user midToken args.tokenOut mid args.amountOutMin args.deadline back
        t.world.start = .ok (world.ledger.balance args.tokenOut env.contract) u ∧
      u.world = s1.world := by
  have hsigned : args.user ∈ env.signers := hat.signed
  have huser : env.contract ≠ args.user := fun heq => env.contract_unsigned (heq ▸ hsigned)
  have hpos : 0 < (mid : Int) := by
    rw [hmid]
    exact hat.pos
  -- the payout was in another token, so the reading of the output is the old one
  have hread : t.ledger.balance args.tokenOut env.contract =
      world.ledger.balance args.tokenOut env.contract := by
    have hheld := hat.held args.tokenOut
    have hnone : start'.2.amount args.tokenOut = 0 := hat.only args.tokenOut (Ne.symm hne)
    obtain ⟨-, -, hbalance⟩ := Ledger.transfer_ok hpaid
    rw [hbalance, Ledger.share_holder, if_neg (Ne.symm hne), Ledger.share_of_ne huser]
    omega
  have hback' := Ledger.transfer_back huser hpaid
  let read : State V := t.world.start.served (.balance args.tokenOut env.contract)
  have hmoved : transfer env midToken args.user env.contract mid read =
      .ok () (read.moved midToken args.user env.contract mid s1.ledger) := by
    have hmove : read.ledger.transfer midToken args.user env.contract mid = .ok s1.ledger := hback'
    rw [transfer_of_allowed (.inr hsigned) (hstandard ..), hmove]
  refine ⟨read.moved midToken args.user env.contract mid s1.ledger, ?_, ?_⟩
  · unfold mergeEntry
    rw [entryChecks_eq hsigned hpos hmin hne htime, pure_bind, panicIf_of_not hback, pure_bind]
    show (transfer env midToken args.user env.contract mid >>= fun _ =>
      pure (t.ledger.balance args.tokenOut env.contract)) read = _
    rw [bind_of_ok hmoved, hread]
    rfl
  · show World.mk s1.ledger t.venues = World.mk s1.ledger s1.venues
    rw [hvenues]

/-- From the intermediate token on the one call and the second of the two do the same. -/
theorem second_lockstep (hstandard : env.Standard)
    (hstages : args.stages.val = front.val ++ back.val) (hback : back.len ≠ 0)
    (hne : midToken ≠ args.tokenOut)
    (hstart : mergeStages env args front.len world.start = .ok start s)
    (hat : Arrived env (args.toMid midToken front) world start' s1)
    (hsame : SameAmounts start.2 start'.2 s s1)
    (hmid : (mid : Int) = start'.2.amount midToken) (hvenues : t.venues = s1.venues)
    (hpaid : s1.ledger.transfer midToken env.contract args.user mid = .ok t.ledger) :
    Lockstep (fun _ => False) (fun _ _ _ _ => True)
      (fun out out' s t => out = out' ∧ s.world = t.world)
      ((do
        let avail ← loop (fun _ => stageStep env args.deadline)
          (args.stages.val.take front.len).length (args.stages.val.drop front.len) start.2
        deadEndCheck args.tokenOut avail
        settleMerge env args.user args.tokenOut start.1 args.amountOutMin
          (avail.amount args.tokenOut)) s)
      ((args.fromMid midToken mid back).call.run env t.world.start) := by
  obtain ⟨s0, runs, hpulled, -⟩ := (mergeStages_post _).ok hstart
  obtain ⟨u, hentry, hworld⟩ := second_entry mid hstandard hback hpulled.min_nonneg hne
    hpulled.in_time hat hmid hvenues hpaid
  have hdrop : args.stages.val.drop front.len = back.val := by
    rw [hstages]
    exact List.drop_left
  -- the map of the first part shows what the second call pulls in
  have hamounts : SameAmounts start.2 (initialAvail midToken mid) s u := by
    refine ⟨hsame.1.trans (funext fun token => ?_), hsame.2.trans hworld.symm⟩
    rw [initialAvail_amount]
    split
    · next heq => rw [heq, hmid]
    · next hneq => exact hat.only token hneq
  show Lockstep _ _ _ _ (swapMerge env args.user midToken args.tokenOut mid args.amountOutMin
    args.deadline back t.world.start)
  unfold swapMerge
  rw [bind_of_ok hentry, hdrop, loop_from _ 0, mergeStages_outBefore hstart]
  refine (stages_sameAmounts args.deadline back.val hamounts).bind ?_
  rintro avail avail' s2 u2 - - ⟨hamount, hworld⟩
  refine (deadEndCheck_lockstep args.tokenOut hamount s2 u2).bind ?_
  rintro _ _ _ _ - - ⟨rfl, rfl⟩
  rw [hamount]
  exact (sees_settleMerge _ _ _ _ _).lockstep hworld

end Second

/-- A first part that leaves another token than it started with is not empty. -/
theorem front_nonempty (hmid : args.tokenIn ≠ midToken)
    (hlive : liveAfter {args.tokenIn} front.val = {midToken}) : front.len ≠ 0 := by
  intro hlen
  rw [List.length_eq_zero_iff.mp hlen] at hlive
  exact hmid (Finset.singleton_injective hlive)

/-- A second part is needed to get rid of the intermediate token. -/
theorem back_nonempty {start : Int × Avail} {s s' : State V} {out : Int}
    (hne : midToken ≠ args.tokenOut) (hlive : 0 < start.2.amount midToken)
    (hrest : (do
      let avail ← loop (fun _ => stageStep env args.deadline)
        (args.stages.val.take front.len).length back.val start.2
      deadEndCheck args.tokenOut avail
      settleMerge env args.user args.tokenOut start.1 args.amountOutMin
        (avail.amount args.tokenOut)) s = .ok out s') : back.len ≠ 0 := by
  intro hlen
  rw [List.length_eq_zero_iff.mp hlen, loop_nil, pure_bind] at hrest
  obtain ⟨_, s1, hcheck, -⟩ := bind_ok_iff.mp hrest
  have hzero := ((deadEndCheck_post args.tokenOut start.2).ok hcheck).2 midToken hne
  omega

/-- The first call is its stages with the payout behind them. -/
theorem first_run {start : Int × Avail} {s : State V}
    (hstart : mergeStages env args args.stages.len world.start = .ok start s) :
    args.call.run env world.start = (do
      deadEndCheck args.tokenOut start.2
      settleMerge env args.user args.tokenOut start.1 args.amountOutMin
        (start.2.amount args.tokenOut)) s := by
  rw [swapMerge_eq_stages env args args.stages.len, bind_of_ok hstart, mergeRest_len]

theorem stages_returned {out : Int} {s : State V} (h : args.call.run env world.start = .ok out s) :
    ∃ start s1, mergeStages env args args.stages.len world.start = .ok start s1 := by
  rw [swapMerge_eq_stages env args args.stages.len] at h
  obtain ⟨start, s1, hstart, -⟩ := bind_ok_iff.mp h
  exact ⟨start, s1, hstart⟩

/-- A call that returned had stages and a minimum. -/
theorem returned_entry {out : Int} {s : State V} (h : args.call.run env world.start = .ok out s) :
    args.stages.len ≠ 0 ∧ 0 ≤ (args.amountOutMin : Int) := by
  have hrun : swapMerge env args.user args.tokenIn args.tokenOut args.amountIn args.amountOutMin
      args.deadline args.stages world.start = .ok out s := h
  unfold swapMerge at hrun
  obtain ⟨outBefore, s0, hentry, -⟩ := bind_ok_iff.mp hrun
  have hpost : Post (mergeEntry env args.user args.tokenIn args.tokenOut args.amountIn
      args.amountOutMin args.deadline args.stages) world.start
      (fun _ _ => args.stages.len ≠ 0 ∧ 0 ≤ (args.amountOutMin : Int)) (fun _ _ => True) := by
    unfold mergeEntry
    refine post_entryChecks_bind (fun _ _ => trivial) fun _ _ hmin _ _ => ?_
    refine post_panicIf_bind (fun _ => trivial) fun hlen => post_balance_bind ?_
    exact post_transfer_bind (fun _ => trivial) fun _ _ => .pure ⟨hlen, hmin⟩
  exact hpost.ok hentry

end TwoCalls

/-- The stages of `args` are those of `front` and `back`. The front leaves `midToken` only, and
its venues deliver nothing else on the side. -/
structure Junction (env : Env V) (args : MergeArgs) (midToken : Address) (front back : Vec Stage) :
    Prop where
  standard : env.Standard
  stages : args.stages.val = front.val ++ back.val
  mid_ne : args.tokenIn ≠ midToken
  ne : midToken ≠ args.tokenOut
  out_ne : args.tokenIn ≠ args.tokenOut
  live : liveAfter {args.tokenIn} front.val = {midToken}
  contained : ∀ hop ∈ mergeEdges front.val, hop.Contained env args.deadline

section Junction

variable {env : Env V} {args : MergeArgs} {world : World V} {midToken : Address}
  {front back : Vec Stage} {start : Int × Avail} {s t s' : State V} {mid out : Int}

theorem Junction.arrived (h : Junction env args midToken front back)
    (hstart : mergeStages env (args.toMid midToken front) front.len world.start = .ok start s) :
    Arrived env (args.toMid midToken front) world start s :=
  mid_reached hstart h.live h.contained

theorem Junction.front_lockstep (h : Junction env args midToken front back)
    (hmin : 0 ≤ (args.amountOutMin : Int)) (world : World V) :
    Lockstep (fun _ => False) (fun _ _ _ _ => True)
      (fun start start' s t => SameAmounts start.2 start'.2 s t)
      (mergeStages env args front.len world.start)
      (mergeStages env (args.toMid midToken front) front.len world.start) :=
  WowmaxStellar.front_lockstep h.stages (front_nonempty h.mid_ne h.live) hmin h.mid_ne h.out_ne

theorem Junction.drop (h : Junction env args midToken front back) :
    args.stages.val.drop front.len = back.val := by
  rw [h.stages]
  exact List.drop_left

/-- What goes through in one call goes through in two. -/
theorem Junction.split (h : Junction env args midToken front back)
    (hfits : ((args.toMid midToken front).call.invoke env world).result ≠
      .error (.host .balanceOverflow))
    (hrun : args.call.run env world.start = .ok out s') :
    ∃ (mid : I128) (t t' : State V),
      (args.toMid midToken front).call.run env world.start = .ok (mid : Int) t ∧
      (args.fromMid midToken mid back).call.run env t.world.start = .ok out t' ∧
      t'.world = s'.world := by
  obtain ⟨-, hmin⟩ := returned_entry hrun
  rw [swapMerge_eq_stages env args front.len] at hrun
  obtain ⟨start, s, hstart, hrest⟩ := bind_ok_iff.mp hrun
  obtain ⟨start', s1, hstart', hsame⟩ := (h.front_lockstep hmin world).ok_ok hstart fun _ _ _ => id
  have hat := h.arrived hstart'
  have hmidpos : 0 < start'.2.amount midToken := hat.pos
  have hpays := first_pays h.standard hat hmidpos.le
  have hfirst := first_run hstart'
  cases htail : (do
      deadEndCheck (args.toMid midToken front).tokenOut start'.2
      settleMerge env (args.toMid midToken front).user (args.toMid midToken front).tokenOut start'.1
        (args.toMid midToken front).amountOutMin
        (start'.2.amount (args.toMid midToken front).tokenOut)) s1 with
  | error panic t =>
      rw [htail] at hfirst
      rw [EntryCall.invoke_of_error hfirst, hpays.error htail] at hfits
      exact absurd rfl hfits
  | ok mid t =>
      obtain ⟨rfl, hvenues, hpaid⟩ := hpays.ok htail
      have hfitsMid : InI128 (start'.2.amount midToken) := by
        have hheld := hat.held midToken
        have hbefore := world.ledger.nonneg midToken env.contract
        have hmax := s1.ledger.le_max midToken env.contract
        unfold InI128 i128Min
        omega
      have hback : back.len ≠ 0 := by
        rw [← hsame.1] at hmidpos
        have hrest' := hrest
        unfold mergeRest at hrest'
        rw [h.drop] at hrest'
        exact back_nonempty h.ne hmidpos hrest'
      have hsecond := second_lockstep ⟨_, hfitsMid⟩ h.standard h.stages hback h.ne hstart hat hsame
        rfl hvenues hpaid
      obtain ⟨out', t', hrun', rfl, hworld⟩ := hsecond.ok_ok hrest fun _ _ _ => id
      exact ⟨⟨_, hfitsMid⟩, t, t', hfirst.trans htail, hrun', hworld.symm⟩

/-- What goes through in two calls goes through in one. -/
theorem Junction.join (h : Junction env args midToken front back) (mid : I128)
    (hrun : (args.toMid midToken front).call.run env world.start = .ok (mid : Int) t)
    (hrun' : (args.fromMid midToken mid back).call.run env t.world.start = .ok out s') :
    ∃ s, args.call.run env world.start = .ok out s ∧ s.world = s'.world := by
  obtain ⟨hback, hmin⟩ := returned_entry hrun'
  obtain ⟨start', s1, hstart'⟩ := stages_returned hrun
  have hat := h.arrived hstart'
  have hmidpos : 0 < start'.2.amount midToken := hat.pos
  have htail := (first_run hstart').symm.trans hrun
  obtain ⟨hmid, hvenues, hpaid⟩ := (first_pays h.standard hat hmidpos.le).ok htail
  obtain ⟨start, s, hstart, hsame⟩ := (h.front_lockstep hmin world).ok_left hstart' fun _ _ _ => id
  have hsecond := second_lockstep mid h.standard h.stages hback h.ne hstart hat hsame hmid hvenues
    hpaid
  obtain ⟨out', s2, hrest', rfl, hworld⟩ := hsecond.ok_left hrun' fun _ _ _ => id
  refine ⟨s2, ?_, hworld⟩
  rw [swapMerge_eq_stages env args front.len, bind_of_ok hstart]
  exact hrest'

end Junction

/-- **Routes compose.** With standard tokens, a `swap_merge` over two stage lists, the first of
which leaves the intermediate token only, returns `out` and leaves `world'` exactly when a call
of the first list returns some amount of that token and a call of the second list, on that
amount and in the world the first call left, returns `out` and leaves `world'`, unless a balance
overflows in the call of the first list. -/
theorem route_composes {env : Env V} {args : MergeArgs} {midToken : Address}
    {front back : Vec Stage} (h : Junction env args midToken front back) (world : World V)
    (hfits : ((args.toMid midToken front).call.invoke env world).result ≠
      .error (.host .balanceOverflow)) (out : Int) (world' : World V) :
    (args.call.invoke env world).result = .ok out ∧ (args.call.invoke env world).world = world' ↔
      ∃ mid : I128, ((args.toMid midToken front).call.invoke env world).result = .ok (mid : Int) ∧
        ((args.fromMid midToken mid back).call.invoke env
          ((args.toMid midToken front).call.invoke env world).world).result = .ok out ∧
        ((args.fromMid midToken mid back).call.invoke env
          ((args.toMid midToken front).call.invoke env world).world).world = world' := by
  constructor
  · rintro ⟨hresult, rfl⟩
    obtain ⟨s', hrun⟩ := EntryCall.invoke_ok hresult
    obtain ⟨mid, t, t', hfirst, hsecond, hworld⟩ := h.split hfits hrun
    refine ⟨mid, ?_⟩
    rw [EntryCall.invoke_of_ok hfirst, EntryCall.invoke_of_ok hsecond, EntryCall.invoke_of_ok hrun]
    exact ⟨rfl, rfl, hworld⟩
  · rintro ⟨mid, hresult, hresult', rfl⟩
    obtain ⟨t, hfirst⟩ := EntryCall.invoke_ok hresult
    rw [EntryCall.invoke_of_ok hfirst] at hresult' ⊢
    obtain ⟨t', hsecond⟩ := EntryCall.invoke_ok hresult'
    obtain ⟨s, hrun, hworld⟩ := h.join mid hfirst hsecond
    rw [EntryCall.invoke_of_ok hrun, EntryCall.invoke_of_ok hsecond]
    exact ⟨rfl, hworld⟩

/-- The first two stages of the round trip: both halves of the input end in token 11. -/
def deskFront : Vec Stage :=
  .pair ⟨⟨10⟩, .pair ((deskHop 20 10 11).toFill 1) ((deskHop 21 10 13).toFill 1)⟩
    ⟨⟨13⟩, .single ((deskHop 22 13 11).toFill 1)⟩

/-- The last one: token 11 is sold for the output. -/
def deskBack : Vec Stage := .single ⟨⟨11⟩, .single ((deskHop 23 11 13).toFill 1)⟩

theorem deskRound_junction : Junction deskEnv deskRound ⟨11⟩ deskFront deskBack where
  standard _ _ _ _ _ _ := rfl
  stages := rfl
  mid_ne := by decide
  ne := by decide
  out_ne := by decide
  live := by decide
  contained := by
    intro hop hmem
    have hedges : mergeEdges deskFront.val = [deskHop 20 10 11, deskHop 21 10 13,
      deskHop 22 13 11] := rfl
    rw [hedges] at hmem
    simp only [List.mem_cons, List.not_mem_nil, or_false] at hmem
    rcases hmem with rfl | rfl | rfl <;> exact deskHop_contained (by decide) (by decide) _

theorem route_composes_desk :
    ∃ mid : I128,
      ((deskRound.toMid ⟨11⟩ deskFront).call.invoke deskEnv (deskWorld 7)).result =
        .ok (mid : Int) ∧
      ((deskRound.fromMid ⟨11⟩ mid deskBack).call.invoke deskEnv
        ((deskRound.toMid ⟨11⟩ deskFront).call.invoke deskEnv (deskWorld 7)).world).result =
          .ok 100 ∧
      ((deskRound.fromMid ⟨11⟩ mid deskBack).call.invoke deskEnv
        ((deskRound.toMid ⟨11⟩ deskFront).call.invoke deskEnv (deskWorld 7)).world).world =
          (deskRound.call.invoke deskEnv (deskWorld 7)).world :=
  (route_composes deskRound_junction (deskWorld 7) (by decide +kernel) 100 _).mp
    ⟨by decide +kernel, rfl⟩

end WowmaxStellar
