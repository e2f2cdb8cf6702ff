import WowmaxStellar.Lib.Dataflow
import WowmaxStellar.Lib.Track
import WowmaxStellar.Logic.Mirror

/-!
# Honest venues

Every edge trades on one pool, and the pool's offer depends on its own state and the
amount. An honest venue pulls exactly the authorised input and delivers a positive amount
of the output, or it fails. With honest venues a stage is a node of a dataflow: it drains
its token, works on its own pools and gives off the outputs of its fills.

* `Pools.Honest.runFill` — a fill tracks the offer of its pool;
* `Pools.net_lawful` — stages are lawful nodes;
* `Pools.stageLoop` — the stage loop tracks the dataflow.
-/

namespace WowmaxStellar

open Runs Flow Split Dataflow

/-- What a pool offers for an amount: the output, its next state, and what the trade does
to every balance. -/
structure Quote (P : Type) where
  out : Int
  next : P
  moves : Address → Address → Int

/-- The pool every edge trades on, and what it offers on that edge: nothing, or a quote. -/
structure Pools (ι P : Type) where
  pool : Hop → ι
  quote : Hop → P → Int → Option (Quote P)

/-- The reply has the type the executor expects; Soroswap's is not empty. -/
def ReplyType.Accepts : ReplyType → Reply → Prop
  | .amounts, .amounts values => values ≠ []
  | .u128, .u128 _ => True
  | .i128, .i128 _ => True
  | _, _ => False

/-- The venue of an edge is honest while `ready` holds of the world, which it keeps: it
trades as its pool offers, unless a balance overflows. Of the executor's balances a trade
takes the amount and adds the output. -/
structure Pools.Honest {ι P : Type} [DecidableEq ι] (pools : Pools ι P) (env : Env (ι → P))
    (deadline : UInt64) (ready : (ι → P) → Ledger → Prop) (hop : Hop) : Prop where
  out_pos : ∀ p amount quote, pools.quote hop p amount = some quote → 0 < quote.out
  own : ∀ p amount quote, pools.quote hop p amount = some quote → ∀ t,
    quote.moves t env.contract =
      (if t = hop.tokenOut then quote.out else 0) - if t = hop.tokenIn then amount else 0
  settle : ∀ venues ledger amount, ready venues ledger → 0 < amount →
    amount ≤ ledger.balance hop.tokenIn env.contract →
    match pools.quote hop (venues (pools.pool hop)) amount with
    | none => ∃ e, hop.settle env amount none deadline venues ledger = .error e
    | some quote =>
        hop.settle env amount none deadline venues ledger = .error .balanceOverflow ∨
          ∃ ledger' reply, hop.settle env amount none deadline venues ledger =
              .ok (ledger', Function.update venues (pools.pool hop) quote.next, reply) ∧
            hop.replyType.Accepts reply ∧
            (∀ t h, ledger'.balance t h = ledger.balance t h + quote.moves t h) ∧
            ready (Function.update venues (pools.pool hop) quote.next) ledger'

section Legs

variable {V : Type} {env : Env V} {hop : Hop} {amount : Int} {outMin : Option Int}
  {deadline : UInt64} {srcBefore outBefore : Int} {site : Guard} {s : State V}

theorem expectReply_of_accepts {replyType : ReplyType} {reply : Reply}
    (h : replyType.Accepts reply) : (expectReply replyType reply : Exec V Unit) = pure () := by
  cases replyType <;> cases reply <;> first | exact h.elim | rfl | exact panicIf_of_not h

theorem measuredLeg_of_settle_error {e : HostError} (srcBefore outBefore : Int) (site : Guard)
    (h : hop.settle env amount outMin deadline s.venues s.ledger = .error e) :
    ∃ s', measuredLeg env hop amount outMin deadline srcBefore outBefore site s =
      .error (.host e) s' := by
  have heq := authorizedCall_eq env hop.tokenIn hop.pullTarget amount
    (hop.call env amount outMin deadline) hop.replyType s
  unfold Hop.settle at h
  rw [h] at heq
  exact ⟨_, bind_of_error heq⟩

/-- A call that took the amount and delivered makes a leg. -/
theorem measuredLeg_of_settle {ledger : Ledger} {venues : V} {reply : Reply} {out : Int}
    (site : Guard)
    (h : hop.settle env amount outMin deadline s.venues s.ledger = .ok (ledger, venues, reply))
    (hreply : hop.replyType.Accepts reply)
    (hamount : 0 ≤ amount ∧ amount ≤ i128Max)
    (hsrc : srcBefore - ledger.balance hop.tokenIn env.contract = amount)
    (hgain : ledger.balance hop.tokenOut env.contract - outBefore = out)
    (hout : 0 < out ∧ out ≤ i128Max) :
    ∃ s', measuredLeg env hop amount outMin deadline srcBefore outBefore site s = .ok out s' ∧
      s'.ledger = ledger ∧ s'.venues = venues := by
  have heq := authorizedCall_eq env hop.tokenIn hop.pullTarget amount
    (hop.call env amount outMin deadline) hop.replyType s
  unfold Hop.settle at h
  rw [h] at heq
  dsimp only at heq
  rw [expectReply_of_accepts hreply] at heq
  have hfit : InI128 amount := ⟨by unfold i128Min; omega, hamount.2⟩
  have hfit' : InI128 out := ⟨by unfold i128Min; omega, hout.2⟩
  let record := env.record hop.tokenIn hop.pullTarget amount (hop.call env amount outMin deadline) s
  refine ⟨((s.called record ledger venues).served (.balance hop.tokenIn env.contract)).served
    (.balance hop.tokenOut env.contract), ?_, rfl, rfl⟩
  unfold measuredLeg
  refine (bind_of_ok heq).trans ?_
  unfold requireConsumed checkedSub
  show ((checked .sub (srcBefore - ledger.balance hop.tokenIn env.contract) >>= _) >>= _) _ = _
  rw [hsrc, checked_of_inI128 hfit, pure_bind, panicIf_of_not (fun hne => hne rfl), pure_bind]
  show (checked .sub (ledger.balance hop.tokenOut env.contract - outBefore) >>= _) _ = _
  rw [hgain, checked_of_inI128 hfit', pure_bind, panicIf_of_not (by omega), pure_bind]
  rfl

theorem runFill_of_not_routed {token : Address} {fill : Fill} (env : Env V) (deadline : UInt64)
    (amount : Int) (s : State V) (hrouted : ¬ (fill.toHop token).Routed) :
    ∃ panic s', runFill env deadline token fill amount s = .error panic s' := by
  rw [runFill_eq]
  exact measuredEdge_of_not_routed env hrouted _

end Legs

section Pools

variable {ι P : Type} [DecidableEq ι] {pools : Pools ι P} {env : Env (ι → P)}
  {deadline : UInt64} {ready : (ι → P) → Ledger → Prop} {s : State (ι → P)}

/-- The world after a trade: the pool has moved on, and the balances with it. -/
structure Traded (pools : Pools ι P) (ready : (ι → P) → Ledger → Prop) (hop : Hop)
    (quote : Quote P) (s s' : State (ι → P)) : Prop where
  venues : s'.venues = Function.update s.venues (pools.pool hop) quote.next
  ledger : ∀ t h, s'.ledger.balance t h = s.ledger.balance t h + quote.moves t h
  ready : ready s'.venues s'.ledger

/-- A leg on an honest venue tracks the offer of its pool. -/
theorem Pools.Honest.measuredLeg {hop : Hop} {amount : Int}
    (h : pools.Honest env deadline ready hop) (site : Guard)
    (hdistinct : hop.tokenIn ≠ hop.tokenOut)
    (hready : ready s.venues s.ledger) (hamount : 0 < amount)
    (hcovered : amount ≤ s.ledger.balance hop.tokenIn env.contract) :
    Tracks Overflowed (fun out s' quote => out = quote.out ∧ Traded pools ready hop quote s s')
      (measuredLeg env hop amount none deadline (s.ledger.balance hop.tokenIn env.contract)
        (s.ledger.balance hop.tokenOut env.contract) site s)
      (pools.quote hop (s.venues (pools.pool hop)) amount) := by
  have hsettle := h.settle s.venues s.ledger amount hready hamount hcovered
  cases hquote : pools.quote hop (s.venues (pools.pool hop)) amount with
  | none =>
      rw [hquote] at hsettle
      obtain ⟨e, he⟩ := hsettle
      obtain ⟨s', hrun⟩ := measuredLeg_of_settle_error (s.ledger.balance hop.tokenIn env.contract)
        (s.ledger.balance hop.tokenOut env.contract) site he
      rw [hrun]
      exact .fail _ _
  | some quote =>
      rw [hquote] at hsettle
      rcases hsettle with hover | ⟨ledger, reply, hok, haccepts, hmoves, hready'⟩
      · obtain ⟨s', hrun⟩ := measuredLeg_of_settle_error (s.ledger.balance hop.tokenIn env.contract)
          (s.ledger.balance hop.tokenOut env.contract) site hover
        rw [hrun]
        exact .escape (X := Overflowed) rfl _
      · have hown := h.own _ _ _ hquote
        have hpos := h.out_pos _ _ _ hquote
        have htaken := hmoves hop.tokenIn env.contract
        have hgain := hmoves hop.tokenOut env.contract
        rw [hown, if_neg hdistinct, if_pos rfl] at htaken
        rw [hown, if_pos rfl, if_neg hdistinct.symm] at hgain
        have hmax := s.ledger.le_max hop.tokenIn env.contract
        have hmax' := ledger.le_max hop.tokenOut env.contract
        have hnonneg := s.ledger.nonneg hop.tokenOut env.contract
        have hspent : s.ledger.balance hop.tokenIn env.contract -
            ledger.balance hop.tokenIn env.contract = amount := by omega
        have hmade : ledger.balance hop.tokenOut env.contract -
            s.ledger.balance hop.tokenOut env.contract = quote.out := by omega
        obtain ⟨s', hrun, hledger, hvenues⟩ := measuredLeg_of_settle site hok haccepts
          ⟨hamount.le, by omega⟩ hspent hmade ⟨hpos, by omega⟩
        rw [hrun]
        refine ⟨rfl, hvenues, ?_, ?_⟩
        · rw [hledger]
          exact hmoves
        · rw [hledger, hvenues]
          exact hready'

theorem Pools.Honest.runFill {token : Address} {fill : Fill} {amount : Int}
    (h : pools.Honest env deadline ready (fill.toHop token)) (hdistinct : fill.tokenOut ≠ token)
    (hready : ready s.venues s.ledger) (hamount : 0 < amount)
    (hcovered : amount ≤ s.ledger.balance token env.contract)
    (hrouted : (fill.toHop token).Routed) :
    Tracks Overflowed
      (fun out s' quote => out = quote.out ∧ Traded pools ready (fill.toHop token) quote s s')
      (runFill env deadline token fill amount s)
      (pools.quote (fill.toHop token) (s.venues (pools.pool (fill.toHop token))) amount) := by
  rw [runFill_eq]
  simp only [measuredEdge_of_routed env hamount hrouted]
  refine Tracks.mono (h.measuredLeg .fillNoOutput (s := (s.served _).served _)
    (Ne.symm hdistinct) hready hamount hcovered) ?_
  rintro out s' quote ⟨hout, htraded⟩
  exact ⟨hout, htraded.venues, htraded.ledger, htraded.ready⟩

/-! ## A stage as a node -/

/-- What the fills of a stage have come to so far. -/
structure Tally (ι P : Type) where
  allocated : Int
  out : Address → Int
  moves : Address → Address → Int
  venues : ι → P

open Classical in
/-- One fill of a stage on honest venues: its share, traded as its pool offers. -/
noncomputable def Pools.fill (pools : Pools ι P) (stage : Stage) (bal : Int) (index : Nat)
    (fill : Fill) (tally : Tally ι P) : Option (Tally ι P) :=
  let hop := fill.toHop stage.token
  let share := branch bal (weights (stage.fills.val.map Fill.parts)) index fill.parts.toNat
    tally.allocated
  if BranchOverflows bal stage.fills.len index fill.parts ∨ fill.tokenOut = stage.token ∨
      share ≤ 0 ∨ ¬ hop.Routed then none
  else (pools.quote hop (tally.venues (pools.pool hop)) share).map fun quote =>
    { allocated := tally.allocated + share
      out := fun t => tally.out t + if t = fill.tokenOut then quote.out else 0
      moves := tally.moves + quote.moves
      venues := Function.update tally.venues (pools.pool hop) quote.next }

open Classical in
/-- A stage on honest venues, fed `bal`. -/
noncomputable def Pools.stage (pools : Pools ι P) (stage : Stage) (bal : Int) (venues : ι → P) :
    Option (Emission Address (Address → Address → Int) × (ι → P)) :=
  if bal ≤ 0 ∨ stage.fills.len = 0 ∨ (weights (stage.fills.val.map Fill.parts)).sum ≤ 0 then none
  else (walk (pools.fill stage bal) 0 stage.fills.val ⟨0, 0, 0, venues⟩).map fun tally =>
    (⟨tally.out, tally.moves⟩, tally.venues)

/-- The stages of `swap_merge` as a dataflow. -/
noncomputable def Pools.net (pools : Pools ι P) :
    Net Stage Address ι P (Address → Address → Int) where
  src := Stage.token
  targets stage t := ∃ fill ∈ stage.fills.val, fill.tokenOut = t
  foot stage i := ∃ hop ∈ stage.edges, pools.pool hop = i
  process := pools.stage

theorem Pools.fill_eq_some {stage : Stage} {bal : Int} {index : Nat} {fill : Fill}
    {tally tally' : Tally ι P} (h : pools.fill stage bal index fill tally = some tally') :
    ∃ quote : Quote P,
      tally'.out = (fun t => tally.out t + if t = fill.tokenOut then quote.out else 0) ∧
      tally'.venues = Function.update tally.venues (pools.pool (fill.toHop stage.token))
        quote.next := by
  unfold Pools.fill at h
  dsimp only at h
  split at h
  · cases h
  · obtain ⟨quote, _, rfl⟩ := Option.map_eq_some_iff.mp h
    exact ⟨quote, rfl, rfl⟩

theorem Pools.stage_eq_some {stage : Stage} {bal : Int} {venues w : ι → P}
    {emission : Emission Address (Address → Address → Int)}
    (h : pools.stage stage bal venues = some (emission, w)) :
    ∃ tally, walk (pools.fill stage bal) 0 stage.fills.val ⟨0, 0, 0, venues⟩ = some tally ∧
      tally.out = emission.out ∧ tally.moves = emission.effect ∧ tally.venues = w ∧
      ¬ (bal ≤ 0 ∨ stage.fills.len = 0 ∨
        (weights (stage.fills.val.map Fill.parts)).sum ≤ 0) := by
  unfold Pools.stage at h
  split at h
  · cases h
  · rename_i hheader
    obtain ⟨tally, hwalk, heq⟩ := Option.map_eq_some_iff.mp h
    cases heq
    exact ⟨tally, hwalk, rfl, rfl, rfl, hheader⟩

theorem Stage.mem_edges {stage : Stage} {fill : Fill} (h : fill ∈ stage.fills.val) :
    fill.toHop stage.token ∈ stage.edges := List.mem_map_of_mem h

/-- A stage gives off its fills' outputs, and depends on its own pools only. -/
theorem Pools.net_lawful (pools : Pools ι P) (stage : Stage) : pools.net.Lawful stage where
  targets := by
    intro bal venues emission w hprocess t htarget
    obtain ⟨tally, hwalk, hout, -, -, -⟩ := Pools.stage_eq_some hprocess
    rw [← hout]
    refine walk_inv (I := fun tally : Tally ι P => tally.out t = 0) ?_ rfl hwalk
    intro index fill tally tally' hfill hzero hstep
    obtain ⟨quote, hout', -⟩ := Pools.fill_eq_some hstep
    rw [hout']
    show tally.out t + (if t = fill.tokenOut then quote.out else 0) = 0
    rw [hzero, if_neg fun heq => htarget ⟨fill, hfill, heq.symm⟩, Int.add_zero]
  frame := by
    intro bal venues emission w hprocess i hfoot
    obtain ⟨tally, hwalk, -, -, hvenues, -⟩ := Pools.stage_eq_some hprocess
    rw [← hvenues]
    refine walk_inv (I := fun tally : Tally ι P => tally.venues i = venues i) ?_ rfl hwalk
    intro index fill tally tally' hfill hsame hstep
    obtain ⟨quote, -, hvenues'⟩ := Pools.fill_eq_some hstep
    rw [hvenues', Function.update_of_ne, hsame]
    rintro rfl
    exact hfoot ⟨_, Stage.mem_edges hfill, rfl⟩
  locality := by
    intro bal venues venues' emission w hagree hprocess
    obtain ⟨tally, hwalk, hout, hmoves, hvenues, hheader⟩ := Pools.stage_eq_some hprocess
    have hsim := walk_sim (f := pools.fill stage bal) stage.fills.val
      (R := fun tally tally' : Tally ι P => tally.allocated = tally'.allocated ∧
        tally.out = tally'.out ∧ tally.moves = tally'.moves ∧
        ∀ i, pools.net.foot stage i → tally'.venues i = tally.venues i) ?_
      (b := ⟨0, 0, 0, venues⟩) (show _ = (⟨0, 0, 0, venues'⟩ : Tally ι P).allocated ∧ _ from
        ⟨rfl, rfl, rfl, fun i hi => (hagree i hi).symm⟩) hwalk
    · obtain ⟨tally', hwalk', -, hout', hmoves', hvenues'⟩ := hsim
      refine ⟨tally'.venues, ?_, fun i hi => by rw [hvenues' i hi, hvenues]⟩
      show pools.stage stage bal venues' = _
      unfold Pools.stage
      rw [if_neg hheader, hwalk']
      show some ((⟨tally'.out, tally'.moves⟩, tally'.venues) : Emission Address _ × (ι → P)) =
        some (emission, tally'.venues)
      rw [← hout', ← hmoves', hout, hmoves]
    · rintro index fill tally tally' next hfill ⟨halloc, hout, hmoves, hagree⟩ hstep
      have hpool := hagree _ ⟨_, Stage.mem_edges hfill, rfl⟩
      unfold Pools.fill at hstep ⊢
      dsimp only at hstep ⊢
      rw [← halloc, hpool]
      split at hstep
      · cases hstep
      · rename_i hguards
        obtain ⟨quote, hquote, rfl⟩ := Option.map_eq_some_iff.mp hstep
        rw [if_neg hguards, hquote]
        exact ⟨_, rfl, rfl, by rw [hout], by rw [hmoves], Net.update_agree hagree _ _⟩

/-! ## The loops -/

variable {scope : Scope (ι → P)} {s0 : State (ι → P)} {start : Address → Int}

/-- The fill loop of a stage that began with `before` on `ledger`, against its tally. -/
structure Tallied (ready : (ι → P) → Ledger → Prop) (before : Avail) (token : Address)
    (ledger : Ledger) (acc : Int × Avail) (s : State (ι → P)) (tally : Tally ι P) : Prop where
  allocated : acc.1 = tally.allocated
  avail : ∀ t, acc.2.amount t =
    before.amount t - (if t = token then tally.allocated else 0) + tally.out t
  venues : s.venues = tally.venues
  ledger : ∀ t h, s.ledger.balance t h = ledger.balance t h + tally.moves t h
  ready : ready s.venues s.ledger

/-- What an honest venue delivered is held, so the map takes it up without an overflow. -/
theorem FillInv.credit_fits_quote {earlier legs : List Leg} {stage : Stage} {before : Avail}
    {done : List Fill} {fill : Fill} {acc : Int × Avail} {share : Int} {quote : Quote P}
    {s' : State (ι → P)}
    (h : FillInv scope s0 earlier stage before legs done acc s)
    (hhonest : pools.Honest scope.env scope.deadline ready (fill.toHop stage.token))
    (hopened : scope.Opened start s0)
    (hbefore : ∀ t, before.amount t = holding start (earlier.map Leg.move) t)
    (hne : fill.tokenOut ≠ stage.token)
    (hquote : pools.quote (fill.toHop stage.token)
      (s.venues (pools.pool (fill.toHop stage.token))) share = some quote)
    (htraded : Traded pools ready (fill.toHop stage.token) quote s s') :
    InI128 (acc.2.amount fill.tokenOut + quote.out) := by
  have hgain := htraded.ledger fill.tokenOut scope.env.contract
  rw [hhonest.own _ _ _ hquote, Fill.toHop_tokenOut, Fill.toHop_tokenIn, if_pos rfl,
    if_neg hne] at hgain
  have hout := hhonest.out_pos _ _ _ hquote
  have hnonneg := h.nonneg fill.tokenOut
  have hheld := h.held hopened hbefore fill.tokenOut
  have hbase := hopened.base_nonneg fill.tokenOut
  have hmax := s'.ledger.le_max fill.tokenOut scope.env.contract
  unfold InI128 i128Min
  omega

/-- The tally after one more fill. -/
theorem Tallied.snoc {stage : Stage} {before : Avail} {fill : Fill} {acc : Int × Avail}
    {tally : Tally ι P} {ledger : Ledger} {share : Int} {quote : Quote P} {s' : State (ι → P)}
    (h : Tallied ready before stage.token ledger acc s tally) (hne : fill.tokenOut ≠ stage.token)
    (htraded : Traded pools ready (fill.toHop stage.token) quote s s') :
    Tallied ready before stage.token ledger
      (acc.1 + share, (acc.2.assign stage.token (acc.2.amount stage.token - share)).assign
        fill.tokenOut (acc.2.amount fill.tokenOut + quote.out)) s'
      { allocated := acc.1 + share
        out := fun t => tally.out t + if t = fill.tokenOut then quote.out else 0
        moves := tally.moves + quote.moves
        venues := Function.update s.venues (pools.pool (fill.toHop stage.token)) quote.next } where
  allocated := rfl
  avail := by
    intro t
    have havail := h.avail t
    rw [Avail.amount_credited hne, havail, h.allocated]
    simp only [eq_comm (a := t)]
    split <;> split <;> omega
  venues := htraded.venues
  ledger := by
    intro t x
    rw [htraded.ledger, h.ledger]
    exact add_assoc _ _ _
  ready := htraded.ready

theorem Pools.fillStep {earlier legs : List Leg} {stage : Stage} {before : Avail}
    {done rest : List Fill} {fill : Fill} {acc : Int × Avail} {tally : Tally ι P} {ledger : Ledger}
    (hhonest : pools.Honest scope.env scope.deadline ready (fill.toHop stage.token))
    (hopened : scope.Opened start s0)
    (hbefore : ∀ t, before.amount t = holding start (earlier.map Leg.move) t)
    (hbal : 0 < before.amount stage.token ∧ before.amount stage.token ≤ i128Max)
    (htotal : 0 < (weights (stage.fills.val.map Fill.parts)).sum)
    (hsplit : done ++ fill :: rest = stage.fills.val)
    (hinv : FillInv scope s0 earlier stage before legs done acc s)
    (h : Tallied ready before stage.token ledger acc s tally) :
    Tracks Overflowed (fun acc s tally => Tallied ready before stage.token ledger acc s tally ∧
        ∃ legs, FillInv scope s0 earlier stage before legs (done ++ [fill]) acc s)
      (fillStep scope.env scope.deadline stage.token (before.amount stage.token)
        (weights (stage.fills.val.map Fill.parts)).sum stage.fills.len done.length fill acc s)
      (pools.fill stage (before.amount stage.token) done.length fill tally) := by
  have hrun : Tracks Overflowed (Tallied ready before stage.token ledger)
      (WowmaxStellar.fillStep scope.env scope.deadline stage.token (before.amount stage.token)
        (weights (stage.fills.val.map Fill.parts)).sum stage.fills.len done.length fill acc s)
      (pools.fill stage (before.amount stage.token) done.length fill tally) := by
    obtain ⟨share, hshare, hle, _, heq⟩ := fillStep_eq hinv.running hbal htotal hsplit
    rw [heq]
    unfold Pools.fill
    dsimp only
    rw [← h.allocated, ← hshare]
    -- each way to stop the step is one of the node's
    by_cases hover : BranchOverflows (before.amount stage.token) stage.fills.len done.length
        fill.parts
    · rw [if_pos hover, if_pos (.inl hover)]
      exact .fail _ _
    rw [if_neg hover]
    by_cases htoken : fill.tokenOut = stage.token
    · rw [panicIf_of htoken, if_pos (.inr (.inl htoken))]
      exact .fail _ _
    rw [panicIf_of_not htoken, pure_bind]
    by_cases hpos : share ≤ 0
    · rw [panicIf_of hpos, if_pos (.inr (.inr (.inl hpos)))]
      exact .fail _ _
    rw [panicIf_of_not hpos, pure_bind]
    by_cases hrouted : (fill.toHop stage.token).Routed
    swap
    · obtain ⟨panic, s', hfail⟩ := runFill_of_not_routed scope.env scope.deadline share s hrouted
      rw [bind_of_error hfail, if_pos (.inr (.inr (.inr hrouted)))]
      exact .fail _ _
    rw [if_neg (by simp [hover, htoken, hpos, hrouted]), Option.map_eq_bind, ← h.venues]
    have hcovered := (hinv.covers hopened hbefore hle).self
    have hbase := hopened.base_nonneg stage.token
    refine (hhonest.runFill htoken h.ready (by omega) (by omega) hrouted).bind ?_
    rintro produced s' quote - hquote ⟨rfl, htraded⟩
    have hadd := hinv.credit_fits_quote hhonest hopened hbefore htoken hquote htraded
    have hleft := hinv.left
    have hallocated := hinv.running.nonneg
    have hsub : InI128 (acc.2.amount stage.token - share) := by
      unfold InI128 i128Min
      omega
    rw [creditAvail_eq htoken hsub hadd, pure_bind]
    exact h.snoc htoken htraded
  refine (hrun.and_left (fillStep_post hopened hbefore hbal htotal hsplit hinv)).mono ?_
  rintro acc' s' tally' ⟨htallied, leg, hinv'⟩
  exact ⟨htallied, _, hinv'⟩

/-- The fills of a funded stage track its tally, which ends with everything allocated. -/
theorem Pools.fillLoop {runs : List StageRun} {done : List Stage} {stage : Stage} {avail : Avail}
    (hhonest : ∀ hop ∈ stage.edges, pools.Honest scope.env scope.deadline ready hop)
    (hopened : scope.Opened start s0) (hinv : MergeInv scope s0 start runs done avail s)
    (hready : ready s.venues s.ledger) (hbal : 0 < avail.amount stage.token)
    (htotal : 0 < (weights (stage.fills.val.map Fill.parts)).sum) :
    Tracks Overflowed (fun acc s' tally => Tallied ready avail stage.token s.ledger acc s' tally ∧
        tally.allocated = avail.amount stage.token)
      (loop (WowmaxStellar.fillStep scope.env scope.deadline stage.token (avail.amount stage.token)
        (weights (stage.fills.val.map Fill.parts)).sum stage.fills.len) 0 stage.fills.val
        (0, avail) s)
      (walk (pools.fill stage (avail.amount stage.token)) 0 stage.fills.val
        ⟨0, 0, 0, s.venues⟩) := by
  refine Tracks.mono (R := fun acc s' tally => Tallied ready avail stage.token s.ledger acc s'
      tally ∧ ∃ legs, FillInv scope s0 (allLegs runs) stage avail legs stage.fills.val acc s')
    (Tracks.loop (I := fun done acc s' tally => Tallied ready avail stage.token s.ledger acc s'
      tally ∧ ∃ legs, FillInv scope s0 (allLegs runs) stage avail legs done acc s') ?_ ?_) ?_
  · rintro done fill rest hsplit acc s' tally ⟨htallied, legs, hinv'⟩
    have hmem : fill ∈ stage.fills.val := by
      rw [← hsplit]
      simp
    exact Pools.fillStep (hhonest _ (Stage.mem_edges hmem)) hopened hinv.books
      ⟨hbal, hinv.le_max hopened _⟩ htotal hsplit hinv' htallied
  · refine ⟨⟨rfl, fun t => ?_, rfl, fun t h => ?_, hready⟩, [],
      .initial hinv.journal hinv.nonneg hbal htotal⟩
    · show avail.amount t = avail.amount t - (if t = stage.token then 0 else 0) + 0
      split <;> omega
    · exact (Int.add_zero _).symm
  · rintro acc s' tally ⟨htallied, legs, hinv'⟩
    exact ⟨htallied, htallied.allocated.symm.trans (hinv'.running.full rfl)⟩

/-- The stage loop against the store of the dataflow. -/
structure Stored (ready : (ι → P) → Ledger → Prop) (avail : Avail) (s : State (ι → P))
    (store : Store Address ι P (Address → Address → Int)) : Prop where
  avail : avail.amount = store.avail
  venues : s.venues = store.locals
  ledger : s.ledger.balance = store.effect
  ready : ready s.venues s.ledger

theorem stageHeader_eq {V : Type} (stage : Stage) (bal : Int) :
    (stageHeader stage bal : Exec V Int) =
      if bal ≤ 0 then throw (.guard .stageNoBalance)
      else if stage.fills.len = 0 then throw (.guard .emptyStage)
      else if (weights (stage.fills.val.map Fill.parts)).sum ≤ 0 then
        throw (.guard .stagePartsZero)
      else pure (weights (stage.fills.val.map Fill.parts)).sum := by
  have hlength : (stage.fills.val.map Fill.parts).length < 2 ^ 32 := by
    rw [List.length_map]
    exact stage.fills.property
  unfold stageHeader panicIf
  rw [sumParts_eq _ hlength]
  split
  · rfl
  rw [pure_bind]
  split
  · rfl
  rw [pure_bind, pure_bind]
  split <;> rfl

/-- One stage tracks its node. -/
theorem Pools.stageStep {runs : List StageRun} {done : List Stage} {stage : Stage} {avail : Avail}
    {store : Store Address ι P (Address → Address → Int)}
    (hhonest : ∀ hop ∈ stage.edges, pools.Honest scope.env scope.deadline ready hop)
    (hopened : scope.Opened start s0) (hinv : MergeInv scope s0 start runs done avail s)
    (h : Stored ready avail s store) :
    Tracks Overflowed (fun avail s store => Stored ready avail s store ∧
        ∃ runs, MergeInv scope s0 start runs (done ++ [stage]) avail s)
      (stageStep scope.env scope.deadline stage avail s) (pools.net.step stage store) := by
  have hrun : Tracks Overflowed (Stored ready)
      (WowmaxStellar.stageStep scope.env scope.deadline stage avail s)
      (pools.net.step stage store) := by
    unfold WowmaxStellar.stageStep Net.step
    show Tracks _ _ _ (Option.map _ (pools.stage stage (store.avail stage.token) store.locals))
    unfold Pools.stage
    rw [← h.avail, ← h.venues, stageHeader_eq]
    by_cases hbal : avail.amount stage.token ≤ 0
    · rw [if_pos hbal, if_pos (.inl hbal)]
      exact .fail _ _
    by_cases hfills : stage.fills.len = 0
    · rw [if_neg hbal, if_pos hfills, if_pos (.inr (.inl hfills))]
      exact .fail _ _
    by_cases htotal : (weights (stage.fills.val.map Fill.parts)).sum ≤ 0
    · rw [if_neg hbal, if_neg hfills, if_pos htotal, if_pos (.inr (.inr htotal))]
      exact .fail _ _
    rw [if_neg hbal, if_neg hfills, if_neg htotal, pure_bind,
      if_neg (by simp [hbal, hfills, htotal]), Option.map_map, Option.map_eq_bind]
    have hpos : 0 < avail.amount stage.token := by omega
    have htotal' : 0 < (weights (stage.fills.val.map Fill.parts)).sum := by omega
    refine (Pools.fillLoop hhonest hopened hinv h.ready hpos htotal').bind ?_
    rintro acc s' tally - - ⟨htallied, hall⟩
    exact
      { avail := by
          funext t
          show acc.2.amount t = (if t = stage.token then 0 else store.avail t) + tally.out t
          rw [htallied.avail, hall, ← h.avail]
          split
          · rename_i ht
            rw [ht]
            omega
          · omega
        venues := htallied.venues
        ledger := by
          funext t x
          rw [htallied.ledger, h.ledger]
          rfl
        ready := htallied.ready }
  refine (hrun.and_left (stageStep_post hopened hinv)).mono ?_
  rintro avail' s' store' ⟨hstored, run, hinv'⟩
  exact ⟨hstored, _, hinv'⟩

/-- The stage loop tracks the run of the dataflow. -/
theorem Pools.stageLoop {stages : List Stage} {avail : Avail}
    {store : Store Address ι P (Address → Address → Int)}
    (hhonest : ∀ hop ∈ mergeEdges stages, pools.Honest scope.env scope.deadline ready hop)
    (hopened : scope.Opened start s0) (hinv : MergeInv scope s0 start [] [] avail s)
    (h : Stored ready avail s store) :
    Tracks Overflowed (Stored ready)
      (loop (fun _ => WowmaxStellar.stageStep scope.env scope.deadline) 0 stages avail s)
      (pools.net.run stages store) := by
  rw [Net.run_eq_walk pools.net 0]
  refine Tracks.mono (R := fun avail s store => Stored ready avail s store ∧
      ∃ runs, MergeInv scope s0 start runs stages avail s)
    (Tracks.loop (I := fun done avail s store => Stored ready avail s store ∧
      ∃ runs, MergeInv scope s0 start runs done avail s) ?_ ⟨h, [], hinv⟩)
    fun _ _ _ hstored => hstored.1
  rintro done stage rest hsplit avail' s' store' ⟨hstored, runs, hinv'⟩
  refine Pools.stageStep (fun hop hhop => hhonest hop ?_) hopened hinv' hstored
  rw [← hsplit]
  unfold mergeEdges
  rw [List.flatMap_append, List.flatMap_cons]
  exact List.mem_append_right _ (List.mem_append_left _ hhop)

end Pools

end WowmaxStellar
