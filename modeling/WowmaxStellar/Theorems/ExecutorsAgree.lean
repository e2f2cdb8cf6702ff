import WowmaxStellar.Logic.Agreement
import WowmaxStellar.Logic.Desk

/-!
# Where the two plan languages overlap

A plan of single-hop strands is one stage with a fill for each strand; a plan of one
strand is a stage for each hop. On such plans `swap` and `swap_merge` return the same
values with the same acts, and leave the same world.
-/

namespace WowmaxStellar

open Runs Split

variable {V : Type}

/-- A single-hop strand. -/
structure Lane where
  parts : UInt32
  hop : Hop

def Lane.strand (lane : Lane) : Strand := ⟨lane.parts, .single lane.hop⟩

def Lane.fill (lane : Lane) : Fill := lane.hop.toFill lane.parts

/-- One stage with a fill for each lane. -/
def laneStage (tokenIn : Address) (lanes : Vec Lane) : Stage :=
  ⟨tokenIn, lanes.map Lane.fill⟩

/-- The stage a hop makes on its own. -/
def Hop.stage (parts : UInt32) (hop : Hop) : Stage :=
  ⟨hop.tokenIn, .single (hop.toFill parts)⟩

/-- The hops lead from `tokenIn` to `tokenOut`, none of them from a token to itself. -/
def IsChain : Address → Address → List Hop → Prop
  | tokenIn, tokenOut, [] => tokenIn = tokenOut
  | tokenIn, tokenOut, hop :: rest =>
      hop.tokenIn = tokenIn ∧ hop.tokenIn ≠ hop.tokenOut ∧ IsChain hop.tokenOut tokenOut rest

section Steps

variable {env : Env V} {tokenIn tokenOut : Address} {deadline : UInt64}

/-- One strand with one hop. -/
theorem strandStep_single {amountIn totalParts allocated : Int} {n i : Nat} {parts : UInt32}
    {hop : Hop} (hin : hop.tokenIn = tokenIn) (hout : hop.tokenOut = tokenOut)
    (hdistinct : tokenIn ≠ tokenOut) :
    strandStep env tokenIn tokenOut amountIn totalParts deadline n i ⟨parts, .single hop⟩
        allocated = (do
      let strandIn ← branchAmount amountIn totalParts n i parts allocated
      let allocated ← checkedAdd allocated strandIn
      let _ ← runHop env deadline hop strandIn
      pure allocated) := by
  unfold strandStep
  refine bind_congr fun strandIn => bind_congr fun allocated => ?_
  rw [panicIf_of_not (show ¬ (Vec.single hop).len = 0 from Nat.one_ne_zero), pure_bind,
    hopLoop_single env hin hout hdistinct]

/-- One fill out of a token it does not lead back to. -/
theorem fillStep_toFill {bal totalParts : Int} {n i : Nat} {parts : UInt32} {hop : Hop}
    {acc : Int × Avail} (hin : hop.tokenIn = tokenIn) (hout : hop.tokenOut ≠ tokenIn) :
    fillStep env deadline tokenIn bal totalParts n i (hop.toFill parts) acc = (do
      let fillIn ← branchAmount bal totalParts n i parts acc.1
      let allocated ← checkedAdd acc.1 fillIn
      panicIf (fillIn ≤ 0) .fillNotPositive
      let produced ← runFill env deadline hop.tokenIn (hop.toFill parts) fillIn
      let avail ← creditAvail acc.2 tokenIn hop.tokenOut fillIn produced
      pure (allocated, avail)) := by
  subst hin
  unfold fillStep
  refine bind_congr fun fillIn => bind_congr fun allocated => ?_
  rw [panicIf_of_not (show ¬ (hop.toFill parts).tokenOut = hop.tokenIn from hout), pure_bind]
  rfl

/-- The two ways to run one edge, with the map brought up to date on one side. -/
theorem runHop_runFill_credit (deadline : UInt64) {hop : Hop} (parts : UInt32) (amount : Int)
    (avail : Avail) {s t : State V} {β γ : Type} {R : β → γ → State V → State V → Prop}
    {f : Int → Exec V β} {g : Avail → Exec V γ} (h : Level id env.contract s t)
    (hout : hop.tokenOut ≠ tokenIn)
    (hpass : 0 < amount → ∀ out s' t',
      TwinOutput id env.contract (fun _ => 0) (fun _ => 0) out out s' t' →
      Lockstep Unreached (fun _ _ _ _ => True) R (f out s')
        (g ((avail.assign tokenIn (avail.amount tokenIn - amount)).assign hop.tokenOut
          (avail.amount hop.tokenOut + out)) t')) :
    Lockstep Unreached (fun _ _ _ _ => True) R ((runHop env deadline hop amount >>= f) s)
      ((do
        panicIf (amount ≤ 0) .fillNotPositive
        let produced ← runFill env deadline hop.tokenIn (hop.toFill parts) amount
        let avail ← creditAvail avail tokenIn hop.tokenOut amount produced
        g avail) t) := by
  by_cases hpos : amount ≤ 0
  · obtain ⟨site, s', hrun⟩ := runHop_of_nonpos env deadline hop hpos s
    rw [panicIf_of hpos, bind_of_error hrun]
    exact .inr (.inr trivial)
  rw [panicIf_of_not hpos, pure_bind]
  refine (Level.runHop_runFill h parts).bind ?_
  rintro out _ s' t' _ _ ⟨rfl, hout', htwin⟩
  rcases creditAvail_cases (V := V) avail amount out hout with
    heq | ⟨panic, hpanic, heq⟩
  · rw [heq, pure_bind]
    exact hpass (by omega) out s' t' ⟨rfl, hout', htwin⟩
  · rw [heq]
    exact .escape_right rfl hpanic

end Steps

section Lanes

variable {env : Env V} {tokenIn tokenOut : Address} {deadline : UInt64} {amountIn : Int}
  {lanes : List Lane} {done rest : List Lane} {lane : Lane}

/-- The two loops over the lanes, once the lanes `done` are through. -/
structure LaneInv (contract tokenIn tokenOut : Address) (amountIn : Int) (parts : List UInt32)
    (done : List Lane) (allocated : Int) (acc : Int × Avail) (s t : State V) : Prop where
  level : Level id contract s t
  allocated_eq : acc.1 = allocated
  running : Allocated amountIn (weights parts) (weights (done.map Lane.parts)) allocated
  left : acc.2.amount tokenIn = amountIn - allocated
  others : ∀ x, x ≠ tokenIn → x ≠ tokenOut → acc.2.amount x = 0

theorem strandStep_fillStep {allocated : Int} {acc : Int × Avail} {s t : State V}
    (hdistinct : tokenIn ≠ tokenOut) (hamount : 0 < amountIn ∧ amountIn ≤ i128Max)
    (htotal : 0 < (weights (lanes.map Lane.parts)).sum)
    (htokens : ∀ lane ∈ lanes, lane.hop.tokenIn = tokenIn ∧ lane.hop.tokenOut = tokenOut)
    (hsplit : done ++ lane :: rest = lanes)
    (h : LaneInv env.contract tokenIn tokenOut amountIn (lanes.map Lane.parts) done allocated acc
      s t) :
    Lockstep Unreached (fun _ _ _ _ => True)
      (LaneInv env.contract tokenIn tokenOut amountIn (lanes.map Lane.parts) (done ++ [lane]))
      (strandStep env tokenIn tokenOut amountIn (weights (lanes.map Lane.parts)).sum deadline
        lanes.length done.length lane.strand allocated s)
      (fillStep env deadline tokenIn amountIn (weights (lanes.map Lane.parts)).sum lanes.length
        done.length lane.fill acc t) := by
  obtain ⟨hin, hout⟩ := htokens lane (by rw [← hsplit]; simp)
  have hback : lane.hop.tokenOut ≠ tokenIn := by rw [hout]; exact hdistinct.symm
  obtain ⟨-, -, hnext⟩ := allocated_branch_map h.running hsplit hamount.1.le htotal
  unfold Lane.strand Lane.fill
  rw [strandStep_single hin hout hdistinct, fillStep_toFill hin hback, h.allocated_eq,
    branch_bind_map_eq h.running hsplit hamount.1.le hamount.2 htotal,
    branch_bind_map_eq h.running hsplit hamount.1.le hamount.2 htotal]
  by_cases hover : BranchOverflows amountIn lanes.length done.length lane.parts
  · rw [if_pos hover, if_pos hover]
    exact .inr (.inr trivial)
  rw [if_neg hover, if_neg hover]
  generalize branch amountIn (weights (lanes.map Lane.parts)) done.length lane.parts.toNat
    allocated = share at hnext ⊢
  refine runHop_runFill_credit deadline lane.parts share acc.2 h.level hback ?_
  rintro hpos out s' t' ⟨_, _, hlevel⟩
  have hleft := h.left
  exact
    { level := hlevel
      allocated_eq := rfl
      running := hnext
      left := by
        rw [Avail.amount_credited hback, if_neg hback, if_pos rfl]
        omega
      others := by
        intro x hne hne'
        rw [Avail.amount_credited hback, if_neg (by rw [hout]; exact hne'.symm),
          if_neg hne.symm, h.others x hne hne']
        rfl }

end Lanes

section Whole

variable {env : Env V} {user tokenIn tokenOut : Address} {amountIn amountOutMin : I128}
  {deadline : UInt64} {world : World V}

/-- The total parts of some lanes. -/
def totalParts (lanes : List Lane) : Int := (weights (lanes.map Lane.parts)).sum

theorem sumParts_lanes (lanes : Vec Lane) :
    (sumParts (lanes.val.map Lane.parts) : Exec V Int) = pure (totalParts lanes.val) :=
  sumParts_eq _ (by rw [List.length_map]; exact lanes.property)

theorem swap_lanes_eq {lanes : Vec Lane} (hne : lanes.val ≠ []) :
    swap env user tokenIn tokenOut amountIn amountOutMin deadline (lanes.map Lane.strand) = (do
      entryChecks env user tokenIn tokenOut amountIn amountOutMin deadline
      let outBefore ← balance tokenOut env.contract
      transfer env tokenIn user env.contract amountIn
      panicIf (totalParts lanes.val ≤ 0) .totalPartsZero
      let _ ← loop (fun i lane allocated => strandStep env tokenIn tokenOut amountIn
        (totalParts lanes.val) deadline lanes.len i lane.strand allocated) 0 lanes.val 0
      forwardOutput env user tokenOut outBefore amountOutMin) := by
  have hlen : ¬ lanes.len = 0 := fun h => hne (List.eq_nil_of_length_eq_zero h)
  have hparts : (lanes.map Lane.strand).val.map Strand.parts = lanes.val.map Lane.parts := by
    rw [Vec.map_val, List.map_map]
    rfl
  unfold swap
  rw [Vec.len_map, panicIf_of_not hlen, hparts, sumParts_lanes, Vec.map_val]
  simp only [pure_bind, loop_map]

theorem swapMerge_lanes_eq {lanes : Vec Lane} :
    swapMerge env user tokenIn tokenOut amountIn amountOutMin deadline
        (.single (laneStage tokenIn lanes)) = (do
      entryChecks env user tokenIn tokenOut amountIn amountOutMin deadline
      let outBefore ← balance tokenOut env.contract
      transfer env tokenIn user env.contract amountIn
      let avail ← stageStep env deadline (laneStage tokenIn lanes) (initialAvail tokenIn amountIn)
      deadEndCheck tokenOut avail
      settleMerge env user tokenOut outBefore amountOutMin (avail.amount tokenOut)) := by
  unfold swapMerge mergeEntry
  rw [panicIf_of_not
    (show ¬ (Vec.single (laneStage tokenIn lanes)).len = 0 from Nat.one_ne_zero)]
  simp only [bind_assoc, pure_bind, Vec.single_val, loop_cons, loop_nil]

theorem stageStep_lanes_eq {lanes : Vec Lane} {avail : Avail} (hne : lanes.val ≠ [])
    (hpos : 0 < avail.amount tokenIn) :
    stageStep env deadline (laneStage tokenIn lanes) avail = (do
      panicIf (totalParts lanes.val ≤ 0) .stagePartsZero
      let acc ← loop (fun i lane acc => fillStep env deadline tokenIn (avail.amount tokenIn)
        (totalParts lanes.val) lanes.len i lane.fill acc) 0 lanes.val (0, avail)
      pure acc.2) := by
  have hlen : ¬ lanes.len = 0 := fun h => hne (List.eq_nil_of_length_eq_zero h)
  have hparts : (laneStage tokenIn lanes).fills.val.map Fill.parts = lanes.val.map Lane.parts := by
    unfold laneStage
    rw [Vec.map_val, List.map_map]
    rfl
  have hfills : (laneStage tokenIn lanes).fills.len = lanes.len := Vec.len_map _ _
  have htoken : (laneStage tokenIn lanes).token = tokenIn := rfl
  unfold stageStep stageHeader
  rw [hparts, hfills, htoken, sumParts_lanes, panicIf_of_not (Int.not_le.mpr hpos),
    panicIf_of_not hlen]
  simp only [bind_assoc, pure_bind]
  rw [show (laneStage tokenIn lanes).fills.val = lanes.val.map Lane.fill from rfl]
  simp only [loop_map]

theorem lanes_lockstep {lanes : Vec Lane} (hne : lanes.val ≠ [])
    (htokens : ∀ lane ∈ lanes.val, lane.hop.tokenIn = tokenIn ∧ lane.hop.tokenOut = tokenOut) :
    Lockstep Unreached (fun _ _ _ _ => True)
      (fun out out' s t => out = out' ∧ Level id env.contract s t)
      (swap env user tokenIn tokenOut amountIn amountOutMin deadline (lanes.map Lane.strand)
        world.start)
      (swapMerge env user tokenIn tokenOut amountIn amountOutMin deadline
        (.single (laneStage tokenIn lanes)) world.start) := by
  have hinitial : (initialAvail tokenIn amountIn).amount tokenIn = amountIn := by
    rw [initialAvail_amount, if_pos rfl]
  rw [swap_lanes_eq hne, swapMerge_lanes_eq]
  refine Level.prelude id fun _ hamount _ hdistinct s t _ hlevel => ?_
  rw [stageStep_lanes_eq hne (by rw [hinitial]; exact hamount), hinitial, bind_assoc]
  refine lockstep_panicIf_bind Iff.rfl trivial fun htotal _ => ?_
  rw [bind_assoc]
  refine Lockstep.bind (R := LaneInv env.contract tokenIn tokenOut amountIn
    (lanes.val.map Lane.parts) lanes.val) (Lockstep.loop ?_ ?_) ?_
  · intro done lane rest hsplit allocated acc s t h
    exact strandStep_fillStep hdistinct ⟨hamount, amountIn.property.2⟩ (by
      unfold totalParts at htotal; omega) htokens hsplit h
  · exact
      { level := hlevel
        allocated_eq := rfl
        running := .start fun h => hne (by simpa [weights] using h)
        left := by rw [hinitial, Int.sub_zero]
        others := fun x hne _ => by rw [initialAvail_amount, if_neg hne] }
  · intro allocated acc s t _ _ h
    -- the stage's token is drained, so there is no dead end
    have hall : allocated = amountIn := h.running.full rfl
    have hzero : ∀ x, x ≠ tokenOut → acc.2.amount x = 0 := by
      intro x hne
      by_cases hx : x = tokenIn
      · rw [hx, h.left, hall, Int.sub_self]
      · exact h.others x hx hne
    rw [pure_bind, deadEndCheck_eq hzero, pure_bind]
    exact h.level.payouts

end Whole

/-! ## One strand -/

section Chain

variable {env : Env V} {user tokenIn tokenOut : Address} {amountIn amountOutMin : I128}
  {deadline : UInt64} {world : World V} {parts : UInt32} {hops done rest : List Hop} {hop : Hop}

theorem IsChain.arrives (h : IsChain tokenIn tokenOut hops) :
    strandToken tokenIn hops = tokenOut := by
  induction hops generalizing tokenIn with
  | nil => exact h
  | cons hop rest ih =>
      rw [strandToken_cons]
      exact ih h.2.2

/-- A hop of a chain goes on where the hops before it arrive. -/
theorem IsChain.at (h : IsChain tokenIn tokenOut (done ++ hop :: rest)) :
    hop.tokenIn = strandToken tokenIn done ∧ hop.tokenIn ≠ hop.tokenOut ∧
      (rest = [] → hop.tokenOut = tokenOut) := by
  induction done generalizing tokenIn with
  | nil =>
      refine ⟨h.1, h.2.1, fun hrest => ?_⟩
      have harrives := h.2.2
      rw [hrest] at harrives
      exact harrives
  | cons first done ih =>
      rw [strandToken_cons]
      exact ih h.2.2

/-- The hop loop and the stage loop, once the hops `done` are through. -/
structure ChainInv (contract tokenIn : Address) (done : List Hop) (hopIn : Int) (avail : Avail)
    (s t : State V) : Prop where
  level : Level id contract s t
  amount : 0 < hopIn ∧ hopIn ≤ i128Max
  here : avail.amount (strandToken tokenIn done) = hopIn
  others : ∀ x, x ≠ strandToken tokenIn done → avail.amount x = 0

theorem sumParts_stage (parts : UInt32) (hop : Hop) :
    (sumParts ((hop.stage parts).fills.val.map Fill.parts) : Exec V Int) =
      pure (parts.toNat : Int) := by
  rw [sumParts_eq _ (by simp [Hop.stage])]
  simp [weights, Hop.stage, Hop.toFill]

theorem stageStep_of_no_parts {avail : Avail} (hparts : (parts.toNat : Int) ≤ 0)
    (hamount : 0 < avail.amount hop.tokenIn) :
    stageStep env deadline (hop.stage parts) avail = throw (.guard .stagePartsZero) := by
  have htoken : (hop.stage parts).token = hop.tokenIn := rfl
  have hlen : (hop.stage parts).fills.len = 1 := rfl
  unfold stageStep stageHeader
  rw [sumParts_stage, htoken, hlen, panicIf_of_not (by omega), panicIf_of_not (by omega)]
  simp only [pure_bind]
  rw [panicIf_of hparts]
  rfl

/-- A stage with one fill hands out everything. -/
theorem stageStep_single {avail : Avail} (hparts : 0 < (parts.toNat : Int))
    (hamount : 0 < avail.amount hop.tokenIn ∧ avail.amount hop.tokenIn ≤ i128Max)
    (hdistinct : hop.tokenIn ≠ hop.tokenOut) :
    stageStep env deadline (hop.stage parts) avail = (do
      panicIf (avail.amount hop.tokenIn ≤ 0) .fillNotPositive
      let produced ← runFill env deadline hop.tokenIn (hop.toFill parts)
        (avail.amount hop.tokenIn)
      creditAvail avail hop.tokenIn hop.tokenOut (avail.amount hop.tokenIn) produced) := by
  have hfit : InI128 (avail.amount hop.tokenIn - 0) := by
    unfold InI128 i128Min
    omega
  have hadd : InI128 (0 + (avail.amount hop.tokenIn - 0)) := by
    unfold InI128 i128Min
    omega
  have htoken : (hop.stage parts).token = hop.tokenIn := rfl
  have hlen : (hop.stage parts).fills.len = 1 := rfl
  unfold stageStep stageHeader
  rw [sumParts_stage, htoken, hlen, panicIf_of_not (by omega), panicIf_of_not (by omega)]
  simp only [pure_bind, bind_assoc]
  rw [panicIf_of_not (by omega), pure_bind,
    show (hop.stage parts).fills.val = [hop.toFill parts] from rfl, loop_cons,
    fillStep_toFill rfl hdistinct.symm]
  unfold branchAmount checkedSub checkedAdd
  rw [if_pos rfl, checked_of_inI128 hfit, pure_bind, checked_of_inI128 hadd, pure_bind,
    Int.sub_zero]
  simp only [bind_assoc, pure_bind, loop_nil, bind_pure]

theorem hopStep_stageStep {hopIn : Int} {avail : Avail} {s t : State V} {hops : Vec Hop}
    (hparts : 0 < (parts.toNat : Int)) (hchain : IsChain tokenIn tokenOut hops.val)
    (hsplit : done ++ hop :: rest = hops.val)
    (h : ChainInv env.contract tokenIn done hopIn avail s t) :
    Lockstep Unreached (fun _ _ _ _ => True) (ChainInv env.contract tokenIn (done ++ [hop]))
      (hopStep env tokenIn tokenOut deadline hops done.length hop hopIn s)
      (stageStep env deadline (hop.stage parts) avail t) := by
  rw [← hsplit] at hchain
  obtain ⟨hstart, hdistinct, hend⟩ := hchain.at
  have hhere := h.here
  rw [← hstart] at hhere
  rw [stageStep_single hparts (by rw [hhere]; exact h.amount) hdistinct, hhere]
  unfold hopStep
  rw [hopChecks_eq _ _ hsplit hdistinct hstart hend, pure_bind]
  have hedge := runHop_runFill_credit (R := ChainInv env.contract tokenIn (done ++ [hop]))
    (f := pure) (g := pure) deadline parts hopIn avail h.level hdistinct.symm ?_
  · simp only [bind_pure] at hedge
    exact hedge
  rintro _ out s' t' ⟨_, hout, hlevel⟩
  have hnew : avail.amount hop.tokenOut = 0 := h.others _ (by rw [← hstart]; exact hdistinct.symm)
  exact
    { level := hlevel
      amount := hout
      here := by
        rw [strandToken_snoc, Avail.amount_assign_self, hnew, Int.zero_add]
      others := by
        intro x hne
        rw [strandToken_snoc] at hne
        rw [Avail.amount_credited hdistinct.symm, if_neg hne.symm]
        by_cases hx : x = hop.tokenIn
        · rw [hx, if_pos rfl, hhere]
          omega
        · rw [if_neg (Ne.symm hx), h.others x (by rw [← hstart]; exact hx)]
          rfl }

theorem chain_lockstep {hops : Vec Hop} (hchain : IsChain tokenIn tokenOut hops.val) :
    Lockstep Unreached (fun _ _ _ _ => True)
      (fun out out' s t => out = out' ∧ Level id env.contract s t)
      (swap env user tokenIn tokenOut amountIn amountOutMin deadline (.single ⟨parts, hops⟩)
        world.start)
      (swapMerge env user tokenIn tokenOut amountIn amountOutMin deadline
        (hops.map (Hop.stage parts)) world.start) := by
  rw [swap_strand_eq]
  unfold swapMerge mergeEntry
  rw [Vec.len_map]
  simp only [bind_assoc, pure_bind, Vec.map_val, loop_map]
  by_cases hempty : hops.val = []
  · -- the empty chain leads nowhere, which the entry checks reject
    rw [hempty] at hchain
    rcases entryChecks_cases env user tokenIn tokenOut amountIn amountOutMin deadline with
      ⟨panic, _, heq⟩ | ⟨_, _, _, hdistinct, _, _⟩
    · rw [heq]
      exact .inr (.inr trivial)
    · exact absurd hchain hdistinct
  have hlen : ¬ hops.len = 0 := fun h => hempty (List.eq_nil_of_length_eq_zero h)
  rw [panicIf_of_not hlen, panicIf_of_not hlen]
  simp only [pure_bind]
  refine Level.prelude id fun _ hamount _ hdistinct s t _ hlevel => ?_
  have hinitial : (initialAvail tokenIn amountIn).amount tokenIn = amountIn := by
    rw [initialAvail_amount, if_pos rfl]
  by_cases hparts : (parts.toNat : Int) ≤ 0
  · -- no parts: the first stage panics, too
    obtain ⟨first, rest, hfirst⟩ := List.exists_cons_of_ne_nil hempty
    rw [hfirst] at hchain
    have hstages : loop (fun _ hop avail => stageStep env deadline (hop.stage parts) avail) 0
        (first :: rest) (initialAvail tokenIn amountIn) = throw (.guard .stagePartsZero) := by
      rw [loop_cons, stageStep_of_no_parts hparts (by rw [hchain.1, hinitial]; exact hamount)]
      rfl
    rw [panicIf_of hparts, hfirst, hstages]
    exact .inr (.inr trivial)
  rw [panicIf_of_not hparts, pure_bind]
  refine Lockstep.bind (R := ChainInv env.contract tokenIn hops.val) (Lockstep.loop ?_ ?_) ?_
  · intro done hop rest hsplit hopIn avail s t h
    exact hopStep_stageStep (by omega) hchain hsplit h
  · exact
      { level := hlevel
        amount := ⟨hamount, amountIn.property.2⟩
        here := hinitial
        others := fun x hne => by
          rw [strandToken_nil] at hne
          rw [initialAvail_amount, if_neg hne] }
  · intro out avail s t _ _ h
    -- the chain has arrived, and holds nothing of any other token
    have hzero := h.others
    rw [hchain.arrives] at hzero
    rw [deadEndCheck_eq hzero, pure_bind]
    exact h.level.payouts

end Chain

/-- **Where the plan languages overlap**, the two executors agree: on strands of one hop
each from `token_in` to `token_out`, against one stage with a fill for each; and on one
strand along a chain, against a stage for each hop. -/
theorem executors_agree (env : Env V) (world : World V) (user tokenIn tokenOut : Address)
    (amountIn amountOutMin : I128) (deadline : UInt64) :
    (∀ lanes : Vec Lane, lanes.val ≠ [] →
      (∀ lane ∈ lanes.val, lane.hop.tokenIn = tokenIn ∧ lane.hop.tokenOut = tokenOut) →
      (EntryCall.invoke env (.swap user tokenIn tokenOut amountIn amountOutMin deadline
        (lanes.map Lane.strand)) world).Agrees id
      (EntryCall.invoke env (.swapMerge user tokenIn tokenOut amountIn amountOutMin deadline
        (.single (laneStage tokenIn lanes))) world)) ∧
    (∀ (parts : UInt32) (hops : Vec Hop), IsChain tokenIn tokenOut hops.val →
      (EntryCall.invoke env (.swap user tokenIn tokenOut amountIn amountOutMin deadline
        (.single ⟨parts, hops⟩)) world).Agrees id
      (EntryCall.invoke env (.swapMerge user tokenIn tokenOut amountIn amountOutMin deadline
        (hops.map (Hop.stage parts))) world)) := by
  have hswap : ∀ (plan : Vec Strand) panic s,
      EntryCall.run env (.swap user tokenIn tokenOut amountIn amountOutMin deadline plan)
        world.start = .error panic s → ¬ Unreached panic :=
    fun plan panic s hrun => (swap_post.error hrun).1
  have hmerge : ∀ (stages : Vec Stage) panic s,
      EntryCall.run env (.swapMerge user tokenIn tokenOut amountIn amountOutMin deadline stages)
        world.start = .error panic s → ¬ Unreached panic :=
    fun stages panic s hrun => (swapMerge_post.error hrun).1
  refine ⟨fun lanes hne htokens => ?_, fun parts hops hchain => ?_⟩
  · exact agrees_of_lockstep (lanes_lockstep hne htokens) (hswap _) (hmerge _)
  · exact agrees_of_lockstep (chain_lockstep hchain) (hswap _) (hmerge _)

/-- Two lanes from 10 to 13, and two hops over 11, at the desks. -/
theorem executors_agree_desk :
    (EntryCall.invoke deskEnv (.swap ⟨1⟩ ⟨10⟩ ⟨13⟩ (.ofUInt32 100) (.ofUInt32 90) 0
        (Vec.map Lane.strand ⟨[⟨1, deskHop 20 10 13⟩, ⟨2, deskHop 21 10 13⟩], by decide⟩))
      (deskWorld 0)).Agrees id
      (EntryCall.invoke deskEnv (.swapMerge ⟨1⟩ ⟨10⟩ ⟨13⟩ (.ofUInt32 100) (.ofUInt32 90) 0
          (.single (laneStage ⟨10⟩ ⟨[⟨1, deskHop 20 10 13⟩, ⟨2, deskHop 21 10 13⟩], by decide⟩)))
        (deskWorld 0)) ∧
    (EntryCall.invoke deskEnv (.swap ⟨1⟩ ⟨10⟩ ⟨13⟩ (.ofUInt32 100) (.ofUInt32 90) 0
        (.single ⟨1, ⟨[deskHop 20 10 11, deskHop 22 11 13], by decide⟩⟩)) (deskWorld 0)).Agrees id
      (EntryCall.invoke deskEnv (.swapMerge ⟨1⟩ ⟨10⟩ ⟨13⟩ (.ofUInt32 100) (.ofUInt32 90) 0
        (Vec.map (Hop.stage 1) ⟨[deskHop 20 10 11, deskHop 22 11 13], by decide⟩))
        (deskWorld 0)) := by
  have hagree := executors_agree deskEnv (deskWorld 0) ⟨1⟩ ⟨10⟩ ⟨13⟩ (.ofUInt32 100)
    (.ofUInt32 90) 0
  constructor
  · apply hagree.1
    · exact List.cons_ne_nil _ _
    · intro lane hlane
      simp only [List.mem_cons, List.not_mem_nil, or_false] at hlane
      rcases hlane with rfl | rfl <;> exact ⟨rfl, rfl⟩
  · apply hagree.2
    exact ⟨rfl, by decide, rfl, by decide, rfl⟩

end WowmaxStellar
