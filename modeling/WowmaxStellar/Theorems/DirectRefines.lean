import WowmaxStellar.Logic.Agreement
import WowmaxStellar.Logic.Desk

/-!
# The single-purpose entry points against `swap`

`swap_soroswap`, `swap_aqua` and `swap_phoenix` do what `swap` does on the plan of one
strand with the same edge, and `swap_aqua_then_soroswap` what it does on the strand of
its two edges. The venues are honest in two respects: a minimum makes them revert when
they would deliver less and changes nothing otherwise, and they move no token of the
executor but the two of their edge.
-/

namespace WowmaxStellar

open Runs

variable {V : Type}

/-- The single-purpose call with the data of one edge. -/
def Hop.direct (user : Address) (hop : Hop) (amountIn amountOutMin : I128)
    (deadline : UInt64) : EntryCall :=
  if hop.venue = 0 then
    .swapSoroswap user hop.soroswapRouter hop.pool hop.tokenIn hop.tokenOut amountIn amountOutMin
      hop.soroswapPath deadline
  else if hop.venue = 1 then
    .swapAqua user hop.aquaRouter hop.pool hop.aquaPoolTokens hop.aquaPoolIndex hop.tokenIn
      hop.tokenOut amountIn amountOutMin deadline
  else
    .swapPhoenix user hop.pool hop.tokenIn hop.tokenOut amountIn amountOutMin deadline

/-- `swap_aqua_then_soroswap` with the data of an Aquarius and a Soroswap edge. -/
def Hop.directPair (user : Address) (aqua soroswap : Hop) (amountIn amountOutMin : I128)
    (deadline : UInt64) : EntryCall :=
  .swapAquaThenSoroswap user aqua.aquaRouter aqua.aquaPoolTokens aqua.aquaPoolIndex aqua.tokenIn
    aqua.tokenOut soroswap.soroswapRouter soroswap.pool soroswap.soroswapPath soroswap.tokenOut
    amountIn amountOutMin deadline

/-- Asked for a minimum `m`, the venue of an edge reverts when it would deliver less, and
does the same as without otherwise. -/
def Hop.RespectsMinimum (env : Env V) (deadline : UInt64) (hop : Hop) : Prop :=
  ∀ amount m venues ledger, 0 < amount → amount ≤ i128Max → 0 ≤ m → m ≤ i128Max →
    match hop.settle env amount none deadline venues ledger with
    | .error _ => ∃ e, hop.settle env amount (some m) deadline venues ledger = .error e
    | .ok outcome =>
        if outcome.1.balance hop.tokenOut env.contract -
            ledger.balance hop.tokenOut env.contract < m then
          ∃ e, hop.settle env amount (some m) deadline venues ledger = .error e
        else hop.settle env amount (some m) deadline venues ledger = .ok outcome

/-- A call of the venue of an edge moves no token of the executor but the two of the
edge. -/
def Hop.OnlyMoves (env : Env V) (deadline : UInt64) (hop : Hop) : Prop :=
  ∀ amount venues ledger outcome, 0 < amount → amount ≤ i128Max →
    hop.settle env amount none deadline venues ledger = .ok outcome → ∀ t, t ≠ hop.tokenIn →
      t ≠ hop.tokenOut → outcome.1.balance t env.contract = ledger.balance t env.contract

/-- A call without the minimum it asks for. -/
def VenueCall.withoutMin : VenueCall → VenueCall
  | .swapExactTokensForTokens router amountIn _ path recipient deadline =>
      .swapExactTokensForTokens router amountIn 0 path recipient deadline
  | .swapChained router user chain tokenIn inAmount _ =>
      .swapChained router user chain tokenIn inAmount 0
  | .swap pool sender offerAsset offerAmount _ spread deadline fee =>
      .swap pool sender offerAsset offerAmount none spread deadline fee

def Act.withoutMin : Act → Act
  | .authorize entries => .authorize entries
  | .call entries venueCall => .call entries venueCall.withoutMin

theorem Hop.call_withoutMin (env : Env V) (hop : Hop) (amount : Int) (outMin outMin' : Option Int)
    (deadline : UInt64) : (hop.call env amount outMin deadline).withoutMin =
      (hop.call env amount outMin' deadline).withoutMin := by
  unfold Hop.call
  split
  · rfl
  · split <;> rfl

/-! ## The edges of the direct entry points -/

/-- Two edges with the same legs: they may differ in the fields of other venues. -/
structure Hop.SameLegs (env : Env V) (hop hop' : Hop) : Prop where
  tokenIn : hop.tokenIn = hop'.tokenIn
  tokenOut : hop.tokenOut = hop'.tokenOut
  pullTarget : hop.pullTarget = hop'.pullTarget
  replyType : hop.replyType = hop'.replyType
  call : ∀ amount outMin deadline,
    hop.call env amount outMin deadline = hop'.call env amount outMin deadline

section SameLegs

variable {env : Env V} {hop hop' : Hop}

theorem Hop.SameLegs.measuredLeg_eq (h : hop.SameLegs env hop') (amount : Int)
    (outMin : Option Int) (deadline : UInt64) (srcBefore outBefore : Int) (site : Guard) :
    measuredLeg env hop amount outMin deadline srcBefore outBefore site =
      measuredLeg env hop' amount outMin deadline srcBefore outBefore site := by
  unfold measuredLeg Hop.authorizedCall
  rw [h.tokenIn, h.tokenOut, h.pullTarget, h.replyType, h.call]

theorem Hop.SameLegs.directSwap_eq (h : hop.SameLegs env hop') (user : Address)
    (amountIn amountOutMin : I128) (deadline : UInt64) :
    directSwap env user hop amountIn amountOutMin deadline =
      directSwap env user hop' amountIn amountOutMin deadline := by
  unfold directSwap
  simp only [h.measuredLeg_eq, h.tokenIn, h.tokenOut]

theorem Hop.sameLegs_soroswap (hvenue : hop.venue = 0) :
    (Hop.soroswap hop.soroswapRouter hop.pool hop.tokenIn hop.tokenOut
      hop.soroswapPath).SameLegs env hop where
  tokenIn := rfl
  tokenOut := rfl
  pullTarget := by simp [Hop.pullTarget, Hop.soroswap, hvenue]
  replyType := by simp [Hop.replyType, Hop.soroswap, hvenue]
  call amount outMin deadline := by simp [Hop.call, Hop.soroswap, hvenue]

theorem Hop.sameLegs_aqua (hvenue : hop.venue = 1) :
    (Hop.aqua hop.aquaRouter hop.aquaPoolTokens hop.aquaPoolIndex hop.tokenIn
      hop.tokenOut).SameLegs env hop where
  tokenIn := rfl
  tokenOut := rfl
  pullTarget := by simp [Hop.pullTarget, Hop.aqua, hvenue]
  replyType := by simp [Hop.replyType, Hop.aqua, hvenue]
  call amount outMin deadline := by simp [Hop.call, Hop.aqua, hvenue]

theorem Hop.sameLegs_phoenix (h0 : hop.venue ≠ 0) (h1 : hop.venue ≠ 1) :
    (Hop.phoenix hop.pool hop.tokenIn hop.tokenOut).SameLegs env hop where
  tokenIn := rfl
  tokenOut := rfl
  pullTarget := by simp [Hop.pullTarget, Hop.phoenix, h1]
  replyType := by simp [Hop.replyType, Hop.phoenix, h0, h1]
  call amount outMin deadline := by simp [Hop.call, Hop.phoenix, h0, h1]

theorem Hop.direct_run (env : Env V) (hop : Hop) (user : Address) (amountIn amountOutMin : I128)
    (deadline : UInt64) : (hop.direct user amountIn amountOutMin deadline).run env =
      directSwap env user hop amountIn amountOutMin deadline := by
  unfold Hop.direct
  by_cases h0 : hop.venue = 0
  · rw [if_pos h0, EntryCall.run, swapSoroswap_eq]
    exact (Hop.sameLegs_soroswap h0).directSwap_eq user amountIn amountOutMin deadline
  rw [if_neg h0]
  by_cases h1 : hop.venue = 1
  · rw [if_pos h1, EntryCall.run, swapAqua_eq]
    exact (Hop.sameLegs_aqua h1).directSwap_eq user amountIn amountOutMin deadline
  · rw [if_neg h1, EntryCall.run, swapPhoenix_eq]
    exact (Hop.sameLegs_phoenix h0 h1).directSwap_eq user amountIn amountOutMin deadline

end SameLegs

/-! ## One leg on both sides -/

section Legs

variable {env : Env V} {hop : Hop} {amount : Int} {outMin : Option Int} {deadline : UInt64}
  {srcBefore outBefore : Int} {site : Guard} {s s' t : State V} {X : Panic → Prop}

/-- Two runs that cannot return are in lockstep. -/
theorem lockstep_of_not_ok {α β : Type} {R : α → β → State V → State V → Prop}
    {r : EStateM.Result Panic (State V) α} {r' : EStateM.Result Panic (State V) β}
    (hr : ∀ a s, r ≠ .ok a s) (hr' : ∀ b t, r' ≠ .ok b t) :
    Lockstep X (fun _ _ _ _ => True) R r r' := by
  cases r with
  | ok a s => exact absurd rfl (hr a s)
  | error e s =>
      cases r' with
      | ok b t => exact absurd rfl (hr' b t)
      | error e' t => exact .inr (.inr trivial)

theorem forwardOutput_ok {user tokenOut : Address} {amountOutMin out : Int}
    (h : forwardOutput env user tokenOut outBefore amountOutMin s = .ok out s') :
    amountOutMin ≤ s.ledger.balance tokenOut env.contract - outBefore := by
  have hpost : Post (forwardOutput env user tokenOut outBefore amountOutMin) s
      (fun _ _ => amountOutMin ≤ s.ledger.balance tokenOut env.contract - outBefore)
      (fun _ _ => True) := by
    unfold forwardOutput checkedSub
    refine post_balance_bind (post_checked_bind (fun _ => trivial) fun _ => ?_)
    refine post_panicIf_bind (fun _ => trivial) fun _ => ?_
    refine post_panicIf_bind (fun _ => trivial) fun hmin => ?_
    exact post_transfer_bind (fun _ => trivial) fun _ _ => .pure (by omega)
  exact hpost.ok h

/-- A gain that is known is forwarded as if it were measured again. -/
theorem Level.payOut_forwardOutput {user tokenOut : Address} {amountOutMin out : Int}
    {ω : Type} {obs : Act → ω} (h : Level obs env.contract s t)
    (hgain : out = t.ledger.balance tokenOut env.contract - outBefore)
    (hout : 0 < out ∧ out ≤ i128Max) :
    Lockstep X (fun _ _ _ _ => True) (fun out out' s t => out = out' ∧ Level obs env.contract s t)
      (payOut env user tokenOut amountOutMin out s)
      (forwardOutput env user tokenOut outBefore amountOutMin t) := by
  have hfit : InI128 out := ⟨by unfold i128Min; omega, hout.2⟩
  have hforward : forwardOutput env user tokenOut outBefore amountOutMin t =
      payOut env user tokenOut amountOutMin out (t.served (.balance tokenOut env.contract)) := by
    rw [forwardOutput_eq]
    show (checkedSub (t.ledger.balance tokenOut env.contract) outBefore >>= _) _ = _
    unfold checkedSub
    rw [← hgain, checked_of_inI128 hfit, pure_bind, panicIf_of_not (by omega), pure_bind]
  rw [hforward]
  unfold payOut
  refine lockstep_panicIf_bind Iff.rfl trivial fun _ _ => ?_
  exact Level.transfer_bind (h.read_right tokenOut) fun s' t' _ hmoved => ⟨rfl, hmoved⟩

/-- A leg that knows its balances does what a hop does, which reads them. -/
theorem Level.hopLeg {ω : Type} {obs : Act → ω} (h : Level obs env.contract s t)
    (hrouted : hop.Routed) (hamount : 0 < amount)
    (hsrc : srcBefore = t.ledger.balance hop.tokenIn env.contract)
    (hout : outBefore = t.ledger.balance hop.tokenOut env.contract) :
    Lockstep X (fun _ _ _ _ => True)
      (fun out out' s t => out = out' ∧ (0 < out ∧ out ≤ i128Max) ∧ Level obs env.contract s t)
      (measuredLeg env hop amount none deadline srcBefore outBefore site s)
      (runHop env deadline hop amount t) := by
  have hread : Level obs env.contract s
      ((t.served (.balance hop.tokenOut env.contract)).served
        (.balance hop.tokenIn env.contract)) :=
    (h.read_right _).read_right _
  rw [runHop_eq]
  simp only [measuredEdge_of_routed env hamount hrouted]
  rw [hsrc, hout]
  exact Twin.measuredLeg hread (Level.sameCalls hread _ _ _ _) rfl rfl (fun _ _ _ _ => trivial)
    fun _ _ _ => trivial

/-- Asking an honest venue for the minimum comes to the same as checking it afterwards. -/
theorem Level.minLeg {user : Address} {m : Int} {site' : Guard}
    (h : Level Act.withoutMin env.contract s t) (hrespects : hop.RespectsMinimum env deadline)
    (hamount : 0 < amount ∧ amount ≤ i128Max) (hm : 0 ≤ m ∧ m ≤ i128Max)
    (hout : outBefore = t.ledger.balance hop.tokenOut env.contract) :
    Lockstep X (fun _ _ _ _ => True)
      (fun out out' s t => out = out' ∧ Level Act.withoutMin env.contract s t)
      ((measuredLeg env hop amount (some m) deadline srcBefore outBefore site >>=
        payOut env user hop.tokenOut m) s)
      ((measuredLeg env hop amount none deadline srcBefore outBefore site' >>= fun _ =>
        forwardOutput env user hop.tokenOut outBefore m) t) := by
  have hledger := h.ledger_eq
  have hminimum := hrespects amount m t.venues t.ledger hamount.1 hamount.2 hm.1 hm.2
  -- a leg with the minimum fails wherever its call does
  have hleft : ∀ e, hop.settle env amount (some m) deadline t.venues t.ledger = .error e →
      ∀ out s', (measuredLeg env hop amount (some m) deadline srcBefore outBefore site >>=
        payOut env user hop.tokenOut m) s ≠ .ok out s' := by
    intro e he out s' hrun
    obtain ⟨_, s1, hleg, _⟩ := bind_ok_iff.mp hrun
    obtain ⟨outcome, hsettle, _⟩ := measuredLeg_ok hleg
    rw [h.venues, hledger, he] at hsettle
    cases hsettle
  cases hsettle : hop.settle env amount none deadline t.venues t.ledger with
  | error e =>
      rw [hsettle] at hminimum
      obtain ⟨e', he'⟩ := hminimum
      refine lockstep_of_not_ok (hleft e' he') fun out t' hrun => ?_
      obtain ⟨_, t1, hleg, _⟩ := bind_ok_iff.mp hrun
      obtain ⟨outcome, hok, _⟩ := measuredLeg_ok hleg
      rw [hsettle] at hok
      cases hok
  | ok outcome =>
      rw [hsettle] at hminimum
      dsimp only at hminimum
      split at hminimum
      · -- too little: the venue reverts, or the minimum is not met
        rename_i hshort
        obtain ⟨e', he'⟩ := hminimum
        refine lockstep_of_not_ok (hleft e' he') fun out t' hrun => ?_
        obtain ⟨_, t1, hleg, hforward⟩ := bind_ok_iff.mp hrun
        obtain ⟨outcome', hok, ht1, _⟩ := measuredLeg_ok hleg
        rw [hsettle] at hok
        cases hok
        have henough := forwardOutput_ok hforward
        rw [ht1, hout] at henough
        omega
      · have hcalls : SameCalls X Act.withoutMin env (fun _ => 0) (fun _ => 0) hop amount (some m)
            none deadline s t :=
          { settle := by
              rw [h.venues, hledger, hminimum, hsettle]
              exact SameOutcome.refl _ _
            obs := fun entries => congrArg (Act.call entries)
              (hop.call_withoutMin env amount (some m) none deadline) }
        refine (Twin.measuredLeg h hcalls rfl rfl (fun _ _ _ _ => trivial)
          fun _ _ _ => trivial).bind ?_
        rintro out _ s1 t1 _ hright ⟨rfl, hbounds, htwin⟩
        obtain ⟨_, _, _, hgain⟩ := measuredLeg_ok hright
        exact Level.payOut_forwardOutput htwin hgain hbounds

end Legs

/-! ## One edge -/

section OneEdge

variable {env : Env V} {hop : Hop} {user : Address} {amountIn amountOutMin : I128}
  {deadline : UInt64} {parts : UInt32} {world : World V}

theorem direct_lockstep (hrouted : hop.Routed) (hparts : 0 < parts)
    (hrespects : hop.RespectsMinimum env deadline) :
    Lockstep (fun _ => False) (fun _ _ _ _ => True)
      (fun out out' s t => out = out' ∧ Level Act.withoutMin env.contract s t)
      ((hop.direct user amountIn amountOutMin deadline).run env world.start)
      ((EntryCall.swap user hop.tokenIn hop.tokenOut amountIn amountOutMin deadline
        (.single ⟨parts, .single hop⟩)).run env world.start) := by
  have hweight : ¬ (parts.toNat : Int) ≤ 0 := by
    have : 0 < parts.toNat := UInt32.lt_iff_toNat_lt.mp hparts
    omega
  rw [Hop.direct_run, EntryCall.run, swap_strand_eq]
  unfold directSwap
  refine Level.prelude Act.withoutMin ?_
  intro hsigned hamount hmin hdistinct s t hpull hlevel
  have hledger := hlevel.ledger_eq
  have hread : Level Act.withoutMin env.contract (s.served (.balance hop.tokenIn env.contract))
      ((t.served (.balance hop.tokenOut env.contract)).served
        (.balance hop.tokenIn env.contract)) :=
    (hlevel.read_right _).read _ _
  rw [panicIf_of_not hweight, pure_bind, panicIf_of_not (by simp [Vec.len]), pure_bind,
    hopLoop_single env rfl rfl hdistinct, runHop_eq]
  -- the pull leaves the output alone, so both readings of it are the same
  have hout : world.ledger.balance hop.tokenOut env.contract =
      t.ledger.balance hop.tokenOut env.contract := by
    rw [← hledger, pulled_balance hpull hsigned, if_neg hdistinct.symm, Int.add_zero]
  simp only [measuredEdge_of_routed env hamount hrouted, bind_assoc]
  show Lockstep _ _ _
    ((measuredLeg env hop amountIn (some amountOutMin) deadline
      (s.ledger.balance hop.tokenIn env.contract) (world.ledger.balance hop.tokenOut env.contract)
      .noOutput >>= payOut env user hop.tokenOut amountOutMin) (s.served _))
    ((measuredLeg env hop amountIn none deadline (t.ledger.balance hop.tokenIn env.contract)
      (t.ledger.balance hop.tokenOut env.contract) .hopNoOutput >>= fun _ =>
      forwardOutput env user hop.tokenOut (world.ledger.balance hop.tokenOut env.contract)
        amountOutMin) ((t.served _).served _))
  rw [← hout, ← hledger]
  exact Level.minLeg hread hrespects ⟨hamount, amountIn.property.2⟩
    ⟨hmin, amountOutMin.property.2⟩ hout

end OneEdge

/-! ## Two edges -/

section TwoEdges

variable {env : Env V} {aqua soroswap : Hop} {user tokenIn tokenOut : Address}
  {amountIn amountOutMin : I128} {deadline : UInt64} {parts : UInt32} {world : World V}

theorem Hop.directPair_run (haqua : aqua.venue = 1) (hsoroswap : soroswap.venue = 0)
    (hchain : aqua.tokenOut = soroswap.tokenIn) :
    (aqua.directPair user soroswap amountIn amountOutMin deadline).run env = (do
      entryChecks env user aqua.tokenIn soroswap.tokenOut amountIn amountOutMin deadline
      panicIf (aqua.tokenOut = aqua.tokenIn ∨ aqua.tokenOut = soroswap.tokenOut)
        .midTokenNotDistinct
      let outBefore ← balance soroswap.tokenOut env.contract
      let midBefore ← balance aqua.tokenOut env.contract
      transfer env aqua.tokenIn user env.contract amountIn
      let srcBefore ← balance aqua.tokenIn env.contract
      let midAmt ← measuredLeg env aqua amountIn none deadline srcBefore midBefore .legOneNoOutput
      let out ← measuredLeg env soroswap midAmt none deadline (midBefore + midAmt) outBefore
        .noOutput
      payOut env user soroswap.tokenOut amountOutMin out) := by
  unfold Hop.directPair
  rw [EntryCall.run, swapAquaThenSoroswap_eq]
  have hlast : (Hop.soroswap _ _ _ _ _).SameLegs env soroswap := Hop.sameLegs_soroswap hsoroswap
  rw [← hchain] at hlast
  simp only [(Hop.sameLegs_aqua haqua).measuredLeg_eq, hlast.measuredLeg_eq]

/-- The edges of a `swap` that returned have two different ends. -/
theorem swap_ok_distinct {plan : Vec Strand} {out : Int} {s' : State V}
    (h : swap env user tokenIn tokenOut amountIn amountOutMin deadline plan world.start =
      .ok out s') : ∀ hop ∈ swapEdges plan.val, hop.tokenIn ≠ hop.tokenOut := by
  obtain ⟨s0, runs, s, hinv, _⟩ := swap_post.ok h
  intro hop hmem
  rw [← hinv.hops] at hmem
  obtain ⟨leg, hleg, rfl⟩ := List.mem_map.mp hmem
  exact (hinv.journal.settled leg hleg).distinct

/-- What the venue of an edge leaves alone stays where it is over a leg. -/
theorem Hop.OnlyMoves.balance_eq {hop : Hop} {amount srcBefore outBefore out : Int} {site : Guard}
    {s s' : State V} (h : hop.OnlyMoves env deadline) (hamount : 0 < amount ∧ amount ≤ i128Max)
    (hrun : measuredLeg env hop amount none deadline srcBefore outBefore site s = .ok out s')
    {t : Address} (hin : t ≠ hop.tokenIn) (hout : t ≠ hop.tokenOut) :
    s'.ledger.balance t env.contract = s.ledger.balance t env.contract := by
  obtain ⟨outcome, hsettle, hledger, _⟩ := measuredLeg_ok hrun
  rw [hledger]
  exact h amount s.venues s.ledger outcome hamount.1 hamount.2 hsettle t hin hout

/-- The hops of a strand of two hops are one after the other. -/
theorem hopLoop_pair {first second : Hop} {tokenIn tokenOut : Address} {amount : Int}
    (hin : first.tokenIn = tokenIn) (hchain : second.tokenIn = first.tokenOut)
    (hout : second.tokenOut = tokenOut) (hfirst : first.tokenIn ≠ first.tokenOut)
    (hsecond : second.tokenIn ≠ second.tokenOut) :
    loop (hopStep env tokenIn tokenOut deadline ⟨[first, second], by simp⟩) 0 [first, second]
        amount =
      (do
        let mid ← runHop env deadline first amount
        runHop env deadline second mid) := by
  have hchecks : (hopChecks tokenIn tokenOut ⟨[first, second], by simp⟩ 0 first : Exec V Unit) =
      pure () :=
    hopChecks_eq [] [second] rfl hfirst hin (by simp)
  have hchecks' : (hopChecks tokenIn tokenOut ⟨[first, second], by simp⟩ 1 second : Exec V Unit) =
      pure () :=
    hopChecks_eq [first] [] rfl hsecond hchain fun _ => hout
  rw [loop_cons]
  unfold hopStep
  rw [hchecks, pure_bind]
  refine bind_congr fun mid => ?_
  rw [loop_cons, hchecks', pure_bind]
  show (runHop env deadline second mid >>= pure) = _
  rw [bind_pure]

/-- A token in the middle that is one of the two ends is refused on both sides: by the direct
call as such, by `swap` as a degenerate hop. -/
theorem directPair_refused (haqua : aqua.venue = 1) (hsoroswap : soroswap.venue = 0)
    (hchain : aqua.tokenOut = soroswap.tokenIn)
    (hmid : aqua.tokenOut = aqua.tokenIn ∨ aqua.tokenOut = soroswap.tokenOut)
    {R : Int → Int → State V → State V → Prop} :
    Lockstep (fun _ => False) (fun _ _ _ _ => True) R
      ((aqua.directPair user soroswap amountIn amountOutMin deadline).run env world.start)
      ((EntryCall.swap user aqua.tokenIn soroswap.tokenOut amountIn amountOutMin deadline
        (.single ⟨parts, ⟨[aqua, soroswap], by simp⟩⟩)).run env world.start) := by
  rw [Hop.directPair_run haqua hsoroswap hchain]
  refine lockstep_of_not_ok ?_ ?_
  · intro out s hrun
    obtain ⟨⟨⟩, s1, _, hrest⟩ := bind_ok_iff.mp hrun
    rw [panicIf_of hmid] at hrest
    cases hrest
  · intro out t hrun
    have hdistinct := swap_ok_distinct hrun
    rcases hmid with hmid | hmid
    · exact hdistinct aqua (by simp [swapEdges]) hmid.symm
    · exact hdistinct soroswap (by simp [swapEdges]) (hchain.symm.trans hmid)

/-- The two legs and the payout, from the pull on. The readings the direct call makes before the
pull are those of the tokens that the pull leaves alone. -/
theorem Level.pairLegs {s t : State V} {midBefore outBefore m amount : Int}
    (h : Level Act.withoutMin env.contract s t) (hrouted : aqua.Routed)
    (hrouted' : soroswap.Routed) (hchain : aqua.tokenOut = soroswap.tokenIn)
    (hdistinct : aqua.tokenIn ≠ soroswap.tokenOut) (hmidOut : aqua.tokenOut ≠ soroswap.tokenOut)
    (honly : aqua.OnlyMoves env deadline) (hamount : 0 < amount ∧ amount ≤ i128Max)
    (hmidBefore : midBefore = s.ledger.balance aqua.tokenOut env.contract)
    (houtBefore : outBefore = s.ledger.balance soroswap.tokenOut env.contract) :
    Lockstep (fun _ => False) (fun _ _ _ _ => True)
      (fun out out' s t => out = out' ∧ Level Act.withoutMin env.contract s t)
      ((do
        let srcBefore ← balance aqua.tokenIn env.contract
        let midAmt ← measuredLeg env aqua amount none deadline srcBefore midBefore .legOneNoOutput
        let out ← measuredLeg env soroswap midAmt none deadline (midBefore + midAmt) outBefore
          .noOutput
        payOut env user soroswap.tokenOut m out) s)
      ((do
        let mid ← runHop env deadline aqua amount
        let _ ← runHop env deadline soroswap mid
        forwardOutput env user soroswap.tokenOut outBefore m) t) := by
  have hledger := h.ledger_eq
  have hread : Level Act.withoutMin env.contract
      (s.served (.balance aqua.tokenIn env.contract)) t := h.read_left _
  show Lockstep _ _ _
    ((measuredLeg env aqua amount none deadline (s.ledger.balance aqua.tokenIn env.contract)
      midBefore .legOneNoOutput >>= _) (s.served _)) _
  refine (hread.hopLeg hrouted hamount.1 (by rw [hledger]) (by rw [hmidBefore, hledger])).bind ?_
  rintro midAmt _ s1 t1 hrun _ ⟨rfl, hmidAmt, hlevel1⟩
  -- the first leg has brought the second one its input and left the output alone
  obtain ⟨_, _, _, hgain⟩ := measuredLeg_ok hrun
  have hkept := honly.balance_eq hamount hrun hdistinct.symm (Ne.symm hmidOut)
  have hout1 : outBefore = t1.ledger.balance soroswap.tokenOut env.contract := by
    rw [← hlevel1.ledger_eq, hkept, houtBefore]
    rfl
  have hsrc1 : midBefore + midAmt = t1.ledger.balance soroswap.tokenIn env.contract := by
    rw [← hlevel1.ledger_eq, ← hchain]
    omega
  refine (hlevel1.hopLeg hrouted' hmidAmt.1 hsrc1 hout1).bind ?_
  rintro out _ s2 t2 hrun2 _ ⟨rfl, hout, hlevel2⟩
  obtain ⟨_, _, _, hgain2⟩ := measuredLeg_ok hrun2
  exact hlevel2.payOut_forwardOutput (by rw [hgain2, hlevel2.ledger_eq]) hout

theorem directPair_lockstep (haqua : aqua.venue = 1) (hsoroswap : soroswap.venue = 0)
    (hrouted : aqua.Routed) (hrouted' : soroswap.Routed)
    (hchain : aqua.tokenOut = soroswap.tokenIn) (hparts : 0 < parts)
    (honly : aqua.OnlyMoves env deadline) :
    Lockstep (fun _ => False) (fun _ _ _ _ => True)
      (fun out out' s t => out = out' ∧ Level Act.withoutMin env.contract s t)
      ((aqua.directPair user soroswap amountIn amountOutMin deadline).run env world.start)
      ((EntryCall.swap user aqua.tokenIn soroswap.tokenOut amountIn amountOutMin deadline
        (.single ⟨parts, ⟨[aqua, soroswap], by simp⟩⟩)).run env world.start) := by
  by_cases hmid : aqua.tokenOut = aqua.tokenIn ∨ aqua.tokenOut = soroswap.tokenOut
  · exact directPair_refused haqua hsoroswap hchain hmid
  obtain ⟨hmidIn, hmidOut⟩ := not_or.mp hmid
  rw [Hop.directPair_run haqua hsoroswap hchain, EntryCall.run, swap_strand_eq]
  rcases entryChecks_cases env user aqua.tokenIn soroswap.tokenOut amountIn amountOutMin deadline
    with ⟨panic, _, heq⟩ | ⟨hsigned, hamount, _, hdistinct, _, heq⟩
  · rw [heq]
    exact .inr (.inr trivial)
  have hweight : ¬ (parts.toNat : Int) ≤ 0 := by
    have : 0 < parts.toNat := UInt32.lt_iff_toNat_lt.mp hparts
    omega
  rw [heq, pure_bind, pure_bind, panicIf_of_not hmid, pure_bind]
  have hstart : Level Act.withoutMin env.contract
      ((world.start.served (.balance soroswap.tokenOut env.contract)).served
        (.balance aqua.tokenOut env.contract))
      (world.start.served (.balance soroswap.tokenOut env.contract)) :=
    ((Level.refl _ env.contract world.start).read _ _).read_left _
  refine Level.transfer_bind (s := (world.start.served _).served _) (t := world.start.served _)
    hstart ?_
  intro s t hpull hlevel
  rw [panicIf_of_not hweight, pure_bind, panicIf_of_not (by simp [Vec.len]), pure_bind,
    hopLoop_pair rfl hchain.symm rfl (Ne.symm hmidIn) (hchain ▸ hmidOut), bind_assoc]
  -- the pull leaves the middle token and the output alone
  refine hlevel.pairLegs hrouted hrouted' hchain hdistinct hmidOut honly
    ⟨hamount, amountIn.property.2⟩ ?_ ?_
  · rw [pulled_balance hpull hsigned, if_neg hmidIn, Int.add_zero]
    rfl
  · rw [pulled_balance hpull hsigned, if_neg hdistinct.symm, Int.add_zero]
    rfl

end TwoEdges

/-- **Refinement.** With honest venues a single-purpose call returns exactly when `swap`
returns on the plan of one strand with the same edges, with the same result, the same
ledger and, up to the minimum the venue is asked for, the same calls. -/
theorem direct_refines_swap (env : Env V) (deadline : UInt64) :
    (∀ (hop : Hop) (parts : UInt32), hop.Routed → 0 < parts → hop.RespectsMinimum env deadline →
      ∀ (user : Address) (amountIn amountOutMin : I128) (world : World V),
        ((hop.direct user amountIn amountOutMin deadline).invoke env world).Agrees Act.withoutMin
          ((EntryCall.swap user hop.tokenIn hop.tokenOut amountIn amountOutMin deadline
            (.single ⟨parts, .single hop⟩)).invoke env world)) ∧
      ∀ (aqua soroswap : Hop) (parts : UInt32), aqua.venue = 1 → soroswap.venue = 0 →
        aqua.Routed → soroswap.Routed → aqua.tokenOut = soroswap.tokenIn → 0 < parts →
        aqua.OnlyMoves env deadline →
        ∀ (user : Address) (amountIn amountOutMin : I128) (world : World V),
          ((aqua.directPair user soroswap amountIn amountOutMin deadline).invoke env world).Agrees
            Act.withoutMin
            ((EntryCall.swap user aqua.tokenIn soroswap.tokenOut amountIn amountOutMin deadline
              (.single ⟨parts, ⟨[aqua, soroswap], by simp⟩⟩)).invoke env world) := by
  constructor
  · intro hop parts hrouted hparts hrespects user amountIn amountOutMin world
    exact agrees_of_lockstep (direct_lockstep hrouted hparts hrespects)
      (fun _ _ _ hX => hX) fun _ _ _ hX => hX
  · intro aqua soroswap parts haqua hsoroswap hrouted hrouted' hchain hparts honly user amountIn
      amountOutMin world
    exact agrees_of_lockstep
      (directPair_lockstep haqua hsoroswap hrouted hrouted' hchain hparts honly)
      (fun _ _ _ hX => hX) fun _ _ _ hX => hX

/-! ## At the desks -/

theorem desk_onlyMoves {hop : Hop} (h : hop.AtDesk) (deadline : UInt64) :
    hop.OnlyMoves deskEnv deadline := by
  intro amount venues ledger outcome hpos hmax hok t hin hout
  rw [desk_settle_none h ⟨hpos.le, hmax⟩] at hok
  rw [deskTrade_moves hok, h.moves_contract, if_neg hin, if_neg hout]
  omega

/-- A desk delivers what it is given, so a minimum above that is out of reach. -/
theorem desk_respectsMinimum {hop : Hop} (h : hop.AtDesk) (deadline : UInt64) :
    hop.RespectsMinimum deskEnv deadline := by
  intro amount m venues ledger hpos hmax hm hmmax
  have hmin : 0 ≤ (some m).getD 0 ∧ (some m).getD 0 ≤ i128Max := ⟨hm, hmmax⟩
  rw [desk_settle_none h ⟨hpos.le, hmax⟩, desk_settle h ⟨hpos.le, hmax⟩ hmin]
  cases htrade : hop.deskTrade amount venues ledger with
  | error e => exact ⟨e, rfl⟩
  | ok outcome =>
      have hdelivered : outcome.1.balance hop.tokenOut deskEnv.contract -
          ledger.balance hop.tokenOut deskEnv.contract = amount := by
        rw [deskTrade_moves htrade, h.moves_contract, if_pos rfl, if_neg h.distinct.symm]
        omega
      dsimp only
      rw [hdelivered]
      by_cases hlow : amount < m
      · rw [if_pos hlow]
        exact ⟨.trapped, if_pos hlow⟩
      · rw [if_neg hlow]
        exact if_neg hlow

/-- An Aquarius edge at a desk. -/
def deskAqua : Hop :=
  .aqua ⟨24⟩ (.pair ⟨10⟩ ⟨11⟩) (Vector.replicate 32 0) ⟨10⟩ ⟨11⟩

theorem direct_refines_swap_desk :
    (((deskHop 20 10 13).direct ⟨1⟩ (.ofUInt32 100) (.ofUInt32 90) 0).invoke deskEnv
        (deskWorld 0)).Agrees Act.withoutMin
      ((EntryCall.swap ⟨1⟩ ⟨10⟩ ⟨13⟩ (.ofUInt32 100) (.ofUInt32 90) 0
        (.single ⟨1, .single (deskHop 20 10 13)⟩)).invoke deskEnv (deskWorld 0)) ∧
    ((deskAqua.directPair ⟨1⟩ (deskHop 22 11 13) (.ofUInt32 100) (.ofUInt32 90) 0).invoke deskEnv
        (deskWorld 0)).Agrees Act.withoutMin
      ((EntryCall.swap ⟨1⟩ ⟨10⟩ ⟨13⟩ (.ofUInt32 100) (.ofUInt32 90) 0
        (.single ⟨1, ⟨[deskAqua, deskHop 22 11 13], by simp⟩⟩)).invoke deskEnv (deskWorld 0)) := by
  have hdirect : (deskHop 20 10 13).AtDesk := deskHop_atDesk (by decide) (by decide)
  have haqua : deskAqua.AtDesk := ⟨.inr (.inl ⟨rfl, .inl rfl⟩), .inr rfl, by decide, by decide⟩
  have hrefines := direct_refines_swap deskEnv 0
  constructor
  · exact hrefines.1 _ 1 hdirect.routed (by decide) (desk_respectsMinimum hdirect 0) _ _ _ _
  · exact hrefines.2 deskAqua (deskHop 22 11 13) 1 rfl rfl haqua.routed (.inl ⟨rfl, rfl⟩) rfl
      (by decide) (desk_onlyMoves haqua 0) _ _ _ _

end WowmaxStellar
