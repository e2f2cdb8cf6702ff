import WowmaxStellar.Logic.SwapRuns

/-!
# Whole calls

A call that returns is a pull, a journal and a payout; a call that panics is stopped
somewhere along its journal, or before it began one.

* `EntryCall.run_post` — every entry point, whatever the venues answer;
* `swap_post`, `swapMerge_post` — what the plan executors establish on top.
-/

namespace WowmaxStellar

open Runs Flow Split

variable {V : Type}

namespace EntryCall

/-- The edges a call names, in the order in which they run. -/
def edges : EntryCall → List Hop
  | .swapSoroswap _ router pool tokenIn tokenOut _ _ path _ =>
      [.soroswap router pool tokenIn tokenOut path]
  | .swapAqua _ router _ poolTokens poolIndex tokenIn tokenOut .. =>
      [.aqua router poolTokens poolIndex tokenIn tokenOut]
  | .swapPhoenix _ pool tokenIn tokenOut .. => [.phoenix pool tokenIn tokenOut]
  | .swapAquaThenSoroswap _ aquaRouter aquaPoolTokens aquaPoolIndex tokenIn midToken
      soroswapRouter soroswapPool soroswapPath tokenOut .. =>
      [.aqua aquaRouter aquaPoolTokens aquaPoolIndex tokenIn midToken,
        .soroswap soroswapRouter soroswapPool midToken tokenOut soroswapPath]
  | .swap _ _ _ _ _ _ plan => swapEdges plan.val
  | .swapMerge _ _ _ _ _ _ stages => mergeEdges stages.val

def deadline : EntryCall → UInt64
  | .swapSoroswap _ _ _ _ _ _ _ _ deadline => deadline
  | .swapAqua _ _ _ _ _ _ _ _ _ deadline => deadline
  | .swapPhoenix _ _ _ _ _ _ deadline => deadline
  | .swapAquaThenSoroswap _ _ _ _ _ _ _ _ _ _ _ _ deadline => deadline
  | .swap _ _ _ _ _ deadline _ => deadline
  | .swapMerge _ _ _ _ _ deadline _ => deadline

/-- The plan executors check and measure every edge on its own. -/
def IsPlan : EntryCall → Prop
  | .swap .. => True
  | .swapMerge .. => True
  | _ => False

/-- A call is judged against the balances the executor had when it began. -/
def scope (env : Env V) (call : EntryCall) (world : World V) : Scope V where
  env := env
  deadline := call.deadline
  base t := world.ledger.balance t env.contract
  plan := call.IsPlan

end EntryCall

/-- No venue has been called yet, and no balance of the executor has fallen. -/
structure Quiet (scope : Scope V) (s : State V) : Prop where
  events : ∀ event ∈ s.trace, (∃ token holder, event = .balance token holder) ∨
    ∃ token src dst amount after,
      src ≠ scope.env.contract ∧ event = .transfer token src dst amount after
  moments : scope.MomentsAbove s.trace

/-- A call that panicked: it was stopped along its edges. -/
def Aborted (scope : Scope V) (edges : List Hop) (s : State V) : Prop :=
  ∃ s0 hops, Quiet scope s0 ∧ hops <+: edges ∧ Halted scope s0 hops s

/-- The checks in front of a call are through and its input is pulled. -/
structure Pulled (env : Env V) (call : EntryCall) (world : World V) (s0 : State V) : Prop where
  signed : call.user ∈ env.signers
  amount_pos : 0 < (call.amountIn : Int)
  min_nonneg : 0 ≤ (call.amountOutMin : Int)
  distinct : call.tokenIn ≠ call.tokenOut
  in_time : ¬ (call.deadline ≠ 0 ∧ env.timestamp > call.deadline)
  quiet : Quiet (call.scope env world) s0
  transfer : world.ledger.transfer call.tokenIn call.user env.contract call.amountIn =
    .ok s0.ledger

/-- A call that returned `out`: `s0` is the state after the pull, `s` the one before the
payout. -/
structure Completed (env : Env V) (call : EntryCall) (world : World V) (s0 : State V)
    (legs : List Leg) (s : State V) (out : Int) (s' : State V) : Prop where
  pulled : Pulled env call world s0
  journal : Journal (call.scope env world) s0 legs s
  hops : legs.map Leg.hop = call.edges
  out_eq : out = s.ledger.balance call.tokenOut env.contract -
    world.ledger.balance call.tokenOut env.contract
  out_pos : 0 < out
  min_le : (call.amountOutMin : Int) ≤ out
  paid : s.ledger.transfer call.tokenOut env.contract call.user out = .ok s'.ledger
  trace : s'.trace =
    s.trace ++ [.transfer call.tokenOut env.contract call.user out s'.ledger]

section Prelude

variable {β : Type} {env : Env V} {scope : Scope V} {s : State V} {Q : β → State V → Prop}
  {E : Panic → State V → Prop}

theorem Quiet.aborted (h : Quiet scope s) (edges : List Hop) : Aborted scope edges s :=
  ⟨s, [], h, List.nil_prefix, .between .start rfl⟩

theorem Quiet.start (scope : Scope V) (world : World V) : Quiet scope world.start where
  events := by simp [World.start]
  moments := by simp [World.start, Scope.MomentsAbove]

theorem Quiet.no_records (h : Quiet scope s) : venueRecords s.trace = [] := by
  unfold venueRecords
  refine List.filterMap_eq_nil_iff.mpr ?_
  intro event hmem
  rcases h.events event hmem with ⟨_, _, rfl⟩ | ⟨_, _, _, _, _, _, rfl⟩ <;> rfl

theorem Quiet.read (h : Quiet scope s) (token : Address) :
    Quiet scope (s.served (.balance token scope.env.contract)) where
  events := by
    intro event hmem
    rcases List.mem_append.mp hmem with hmem | hmem
    · exact h.events event hmem
    · exact .inl ⟨_, _, List.mem_singleton.mp hmem⟩
  moments := by
    refine h.moments.append ?_
    intro event hmem moment hmoment
    rw [List.mem_singleton.mp hmem] at hmoment
    cases hmoment

theorem Quiet.moved (h : Quiet scope s) {token src dst : Address} {amount : Int}
    {ledger : Ledger} (hsrc : src ≠ scope.env.contract)
    (habove : ∀ t, scope.base t ≤ ledger.balance t scope.env.contract) :
    Quiet scope (s.moved token src dst amount ledger) where
  events := by
    intro event hmem
    rcases List.mem_append.mp hmem with hmem | hmem
    · exact h.events event hmem
    · exact .inr ⟨_, _, _, _, _, hsrc, List.mem_singleton.mp hmem⟩
  moments := by
    refine h.moments.append ?_
    intro event hmem moment hmoment
    rw [List.mem_singleton.mp hmem] at hmoment
    rw [List.mem_singleton.mp hmoment]
    exact habove

/-- The checks in front of every entry point: they stop at once, or they are through. -/
theorem entryChecks_cases (env : Env V) (user tokenIn tokenOut : Address)
    (amountIn amountOutMin : Int) (deadline : UInt64) :
    (∃ panic, ¬ Unreached panic ∧
      entryChecks env user tokenIn tokenOut amountIn amountOutMin deadline = throw panic) ∨
    (user ∈ env.signers ∧ 0 < amountIn ∧ 0 ≤ amountOutMin ∧ tokenIn ≠ tokenOut ∧
      ¬ (deadline ≠ 0 ∧ env.timestamp > deadline) ∧
      entryChecks env user tokenIn tokenOut amountIn amountOutMin deadline = pure ()) := by
  unfold entryChecks requireAmounts requireDistinct requireDeadline requireAuth
  by_cases hsigned : user ∈ env.signers
  swap
  · rw [if_neg hsigned]
    exact .inl ⟨_, by simp [Unreached], rfl⟩
  rw [if_pos hsigned, pure_bind, bind_assoc]
  by_cases hamount : amountIn ≤ 0
  · rw [panicIf_of hamount]
    exact .inl ⟨_, by simp [Unreached], rfl⟩
  rw [panicIf_of_not hamount, pure_bind]
  by_cases hmin : amountOutMin < 0
  · rw [panicIf_of hmin]
    exact .inl ⟨_, by simp [Unreached], rfl⟩
  rw [panicIf_of_not hmin, pure_bind]
  by_cases hdistinct : tokenIn = tokenOut
  · rw [panicIf_of hdistinct]
    exact .inl ⟨_, by simp [Unreached], rfl⟩
  rw [panicIf_of_not hdistinct, pure_bind]
  by_cases htime : deadline ≠ 0 ∧ env.timestamp > deadline
  · rw [panicIf_of htime]
    exact .inl ⟨_, by simp [Unreached], rfl⟩
  rw [panicIf_of_not htime]
  exact .inr ⟨hsigned, by omega, by omega, hdistinct, htime, rfl⟩

theorem entryChecks_eq {env : Env V} {user tokenIn tokenOut : Address}
    {amountIn amountOutMin : Int} {deadline : UInt64} (hsigned : user ∈ env.signers)
    (hamount : 0 < amountIn) (hmin : 0 ≤ amountOutMin) (hdistinct : tokenIn ≠ tokenOut)
    (htime : ¬ (deadline ≠ 0 ∧ env.timestamp > deadline)) :
    entryChecks env user tokenIn tokenOut amountIn amountOutMin deadline = pure () := by
  unfold entryChecks requireAmounts requireDistinct requireDeadline requireAuth
  rw [if_pos hsigned, panicIf_of_not (by omega), panicIf_of_not (by omega),
    panicIf_of_not hdistinct, panicIf_of_not htime]
  rfl

theorem post_entryChecks_bind {user tokenIn tokenOut : Address} {amountIn amountOutMin : Int}
    {deadline : UInt64} {f : Unit → Exec V β}
    (hfail : ∀ panic, ¬ Unreached panic → E panic s)
    (hpass : user ∈ env.signers → 0 < amountIn → 0 ≤ amountOutMin → tokenIn ≠ tokenOut →
      ¬ (deadline ≠ 0 ∧ env.timestamp > deadline) → Post (f ()) s Q E) :
    Post (entryChecks env user tokenIn tokenOut amountIn amountOutMin deadline >>= f) s Q E := by
  rcases entryChecks_cases env user tokenIn tokenOut amountIn amountOutMin deadline with
    ⟨panic, hpanic, heq⟩ | ⟨hsigned, hamount, hmin, hdistinct, htime, heq⟩
  · rw [heq]
    exact .throw (hfail panic hpanic)
  · rw [heq, pure_bind]
    exact hpass hsigned hamount hmin hdistinct htime

/-- The pull brings exactly the input onto the executor's account. -/
theorem pulled_balance {ledger ledger' : Ledger} {token user : Address} {amount : Int}
    (h : ledger.transfer token user env.contract amount = .ok ledger')
    (hsigned : user ∈ env.signers) (t : Address) :
    ledger'.balance t env.contract =
      ledger.balance t env.contract + if t = token then amount else 0 := by
  have hne : env.contract ≠ user := fun heq => env.contract_unsigned (heq ▸ hsigned)
  obtain ⟨_, _, hbalance⟩ := Ledger.transfer_ok h
  rw [hbalance, Ledger.share_of_ne hne, Ledger.share_holder]
  omega

theorem post_payOut {user tokenOut : Address} {amountOutMin out : Int}
    {Q : Int → State V → Prop} (hfail : ∀ panic, ¬ Unreached panic → E panic s)
    (hpass : amountOutMin ≤ out → ∀ ledger,
      s.ledger.transfer tokenOut env.contract user out = .ok ledger →
      Q out (s.moved tokenOut env.contract user out ledger)) :
    Post (payOut env user tokenOut amountOutMin out) s Q E := by
  unfold payOut
  refine post_panicIf_bind (fun _ => hfail _ (by simp [Unreached])) fun hmin => ?_
  refine post_transfer_bind (fun e => hfail _ (by simp [Unreached])) fun ledger hledger => ?_
  exact .pure (hpass (by omega) ledger hledger)

end Prelude

section Calls

variable {env : Env V} {call : EntryCall} {world : World V}

/-- What a call has on its books after the pull. -/
def EntryCall.opening (call : EntryCall) (t : Address) : Int :=
  if t = call.tokenIn then call.amountIn else 0

section

variable {s0 : State V} (h : Pulled env call world s0)
include h

theorem Pulled.balance (t : Address) :
    s0.ledger.balance t env.contract =
      world.ledger.balance t env.contract + call.opening t :=
  pulled_balance h.transfer h.signed t

theorem Pulled.opened : (call.scope env world).Opened call.opening s0 where
  base_nonneg t := world.ledger.nonneg t env.contract
  held t := (h.balance t).ge

theorem Pulled.opening_nonneg (t : Address) : 0 ≤ call.opening t := by
  have hpos := h.amount_pos
  unfold EntryCall.opening
  split <;> omega

theorem Pulled.above (t : Address) :
    world.ledger.balance t env.contract ≤ s0.ledger.balance t env.contract := by
  have hbalance := h.balance t
  have hnonneg := h.opening_nonneg t
  omega

theorem Pulled.opening_tokenOut : call.opening call.tokenOut = 0 :=
  if_neg h.distinct.symm

end

/-- The pull does not touch other tokens. -/
theorem Pulled.balance_of_ne {s0 : State V} (h : Pulled env call world s0) {t : Address}
    (hne : t ≠ call.tokenIn) :
    s0.ledger.balance t env.contract = world.ledger.balance t env.contract := by
  rw [h.balance, EntryCall.opening, if_neg hne, Int.add_zero]

/-- The venue calls of a completed call are the records of its legs. -/
theorem Completed.records {s0 s s' : State V} {legs : List Leg} {out : Int}
    (h : Completed env call world s0 legs s out s') :
    venueRecords s'.trace = legs.map Leg.record := by
  rw [h.trace, venueRecords_append, h.journal.records, h.pulled.quiet.no_records]
  simp [venueRecords, Event.record?]

/-- The pull, in front of the rest of a call. -/
theorem post_pull_bind (call : EntryCall) {β : Type} {f : Unit → Exec V β} {s : State V}
    {Q : β → State V → Prop} {P : Panic → Prop} {edges : List Hop}
    (hP : ∀ panic, ¬ Unreached panic → P panic) (hsigned : call.user ∈ env.signers)
    (hamount : 0 < (call.amountIn : Int))
    (hmin : 0 ≤ (call.amountOutMin : Int)) (hdistinct : call.tokenIn ≠ call.tokenOut)
    (htime : ¬ (call.deadline ≠ 0 ∧ env.timestamp > call.deadline))
    (hquiet : Quiet (call.scope env world) s) (hledger : s.ledger = world.ledger)
    (hpass : ∀ s0, Pulled env call world s0 → Post (f ()) s0 Q
      (fun panic s' => P panic ∧ Aborted (call.scope env world) edges s')) :
    Post (transfer env call.tokenIn call.user env.contract call.amountIn >>= f) s Q
      (fun panic s' => P panic ∧ Aborted (call.scope env world) edges s') := by
  refine post_transfer_bind (fun e => ⟨hP _ (by simp [Unreached]), hquiet.aborted _⟩)
    fun ledger htransfer => hpass _ ?_
  rw [hledger] at htransfer
  refine
    { signed := hsigned
      amount_pos := hamount
      min_nonneg := hmin
      distinct := hdistinct
      in_time := htime
      quiet := hquiet.moved (fun heq => env.contract_unsigned (heq ▸ hsigned)) fun t => ?_
      transfer := htransfer }
  show world.ledger.balance t env.contract ≤ ledger.balance t env.contract
  rw [pulled_balance htransfer hsigned t]
  split <;> omega

theorem Journal.aborted {scope : Scope V} {s0 s s' : State V} {legs : List Leg}
    {edges : List Hop} (h : Journal scope s0 legs s) (hquiet : Quiet scope s0)
    (hedges : legs.map Leg.hop <+: edges) (htrace : s'.trace = s.trace) :
    Aborted scope edges s' :=
  ⟨s0, _, hquiet, hedges, .between h htrace⟩

theorem Stopped.aborted {scope : Scope V} {s0 s : State V} {edges : List Hop} {panic : Panic}
    (h : Stopped scope s0 edges panic s) (hquiet : Quiet scope s0) : Aborted scope edges s := by
  obtain ⟨_, hops, hhops, hhalted⟩ := h
  exact ⟨s0, hops, hquiet, hhops, hhalted⟩

/-- The tail common to all calls: a gain that is there is checked and paid out. -/
theorem Journal.payOut_post (call : EntryCall) {P : Panic → Prop} {s0 s : State V}
    {legs : List Leg} {out : Int}
    (h : Journal (call.scope env world) s0 legs s)
    (hP : ∀ panic, ¬ Unreached panic → P panic) (hpulled : Pulled env call world s0)
    (hhops : legs.map Leg.hop = call.edges) (hpos : 0 < out)
    (hout : out = s.ledger.balance call.tokenOut env.contract -
      world.ledger.balance call.tokenOut env.contract) :
    Post (payOut env call.user call.tokenOut call.amountOutMin out) s
      (fun out s' => Completed env call world s0 legs s out s')
      (fun panic s' => P panic ∧ Aborted (call.scope env world) call.edges s') := by
  refine post_payOut ?_ ?_
  · intro panic hpanic
    exact ⟨hP panic hpanic, h.aborted hpulled.quiet (hhops ▸ List.prefix_rfl) rfl⟩
  · intro hmin ledger hledger
    exact
      { pulled := hpulled
        journal := h
        hops := hhops
        out_eq := hout
        out_pos := hpos
        min_le := hmin
        paid := hledger
        trace := rfl }

end Calls

/-! ## `swap_merge` -/

section Merge

variable {env : Env V} {user tokenIn tokenOut : Address} {amountIn amountOutMin : I128}
  {deadline : UInt64} {stages : Vec Stage} {world : World V}

theorem mergeEntry_post :
    Post (mergeEntry env user tokenIn tokenOut amountIn amountOutMin deadline stages) world.start
      (fun outBefore s0 => outBefore = world.ledger.balance tokenOut env.contract ∧
        Pulled env (.swapMerge user tokenIn tokenOut amountIn amountOutMin deadline stages) world
          s0)
      (fun panic s' => ¬ Unreached panic ∧ Aborted
        (EntryCall.scope env
          (.swapMerge user tokenIn tokenOut amountIn amountOutMin deadline stages) world)
        (mergeEdges stages.val) s') := by
  let call : EntryCall := .swapMerge user tokenIn tokenOut amountIn amountOutMin deadline stages
  have hstart := Quiet.start (call.scope env world) world
  unfold mergeEntry
  refine post_entryChecks_bind (fun panic hpanic => ⟨hpanic, hstart.aborted _⟩) ?_
  intro hsigned hamount hmin hdistinct htime
  refine post_panicIf_bind (fun _ => ⟨by simp [Unreached], hstart.aborted _⟩) fun _ => ?_
  refine post_balance_bind ?_
  refine post_pull_bind call (fun _ h => h) hsigned hamount hmin hdistinct htime
    (hstart.read tokenOut) rfl ?_
  intro s0 hpulled
  exact .pure ⟨rfl, hpulled⟩

theorem mergeEntry_venues {outBefore : Int} {s0 : State V}
    (h : mergeEntry env user tokenIn tokenOut amountIn amountOutMin deadline stages world.start =
      .ok outBefore s0) : s0.venues = world.venues := by
  have hpost : Post (mergeEntry env user tokenIn tokenOut amountIn amountOutMin deadline stages)
      world.start (fun _ s => s.venues = world.venues) (fun _ _ => True) := by
    unfold mergeEntry
    refine post_entryChecks_bind (fun _ _ => trivial) fun _ _ _ _ _ => ?_
    refine post_panicIf_bind (fun _ => trivial) fun _ => post_balance_bind ?_
    exact post_transfer_bind (fun _ => trivial) fun _ _ => .pure rfl
  exact hpost.ok h

theorem MergeInv.start {scope : Scope V} {s0 : State V} (hamount : 0 < (amountIn : Int)) :
    MergeInv scope s0 (fun t => if t = tokenIn then (amountIn : Int) else 0) [] []
      (initialAvail tokenIn amountIn) s0 := by
  have hinitial := initialAvail_amount tokenIn amountIn
  exact
    { journal := .start
      stages := rfl
      edges := by simp
      books := fun t => by rw [hinitial]; exact holding_nil.symm
      nonneg := fun t => by rw [hinitial]; split <;> omega
      some_pos := ⟨tokenIn, by rw [hinitial, if_pos rfl]; exact hamount⟩
      drained := .nil }

/-- What a `swap_merge` that returned establishes: every stage drained its token, and
only `token_out` is left on the books. -/
theorem swapMerge_post :
    Post (swapMerge env user tokenIn tokenOut amountIn amountOutMin deadline stages) world.start
      (fun out s' => ∃ s0 runs avail s, MergeInv
          (EntryCall.scope env
            (.swapMerge user tokenIn tokenOut amountIn amountOutMin deadline stages) world)
          s0 (fun t => if t = tokenIn then (amountIn : Int) else 0) runs stages.val avail s ∧
        (∀ t, t ≠ tokenOut → avail.amount t = 0) ∧
        Completed env (.swapMerge user tokenIn tokenOut amountIn amountOutMin deadline stages)
          world s0 (allLegs runs) (s.served (.balance tokenOut env.contract)) out s')
      (fun panic s' => ¬ Unreached panic ∧ Aborted
        (EntryCall.scope env
          (.swapMerge user tokenIn tokenOut amountIn amountOutMin deadline stages) world)
        (mergeEdges stages.val) s') := by
  let call : EntryCall := .swapMerge user tokenIn tokenOut amountIn amountOutMin deadline stages
  unfold swapMerge
  refine mergeEntry_post.bind ?_
  rintro _ s0 ⟨rfl, hpulled⟩
  have hopened : (call.scope env world).Opened
      (fun t => if t = tokenIn then (amountIn : Int) else 0) s0 := hpulled.opened
  refine (stageLoop_post List.prefix_rfl hopened
    (MergeInv.start hpulled.amount_pos)).bind_mono ?_ ?_
  · exact fun panic s' hstopped => ⟨hstopped.1, hstopped.aborted hpulled.quiet⟩
  rintro avail s ⟨runs, hinv⟩
  have hhops : (allLegs runs).map Leg.hop = mergeEdges stages.val := hinv.hops
  refine (deadEndCheck_post tokenOut avail).bind_mono ?_ ?_
  · rintro panic s' ⟨rfl, rfl⟩
    exact ⟨by simp [Unreached],
      hinv.journal.aborted hpulled.quiet (hhops ▸ List.prefix_rfl) rfl⟩
  rintro ⟨⟩ s' ⟨rfl, hzero⟩
  -- the books show a gain in `token_out`, and it is there
  have htracked : 0 < avail.amount tokenOut := by
    obtain ⟨t, ht⟩ := hinv.some_pos
    by_cases hne : t = tokenOut
    · rw [hne] at ht
      exact ht
    · have := hzero t hne
      omega
  have hheld := hinv.held hopened tokenOut
  simp only [EntryCall.scope] at hheld
  have hjournal := hinv.journal.read tokenOut
  unfold settleMerge
  refine post_gain_bind (world.ledger.balance_bounds tokenOut env.contract) ?_
  refine post_panicIf_bind (fun hbad => absurd hbad (by omega)) fun _ => ?_
  refine post_panicIf_bind (fun hbad => absurd hbad (by omega)) fun _ => ?_
  refine (hjournal.payOut_post call (fun _ h => h) hpulled hhops ?_ rfl).mono ?_ ?_
  · show 0 < _ - _
    simp only [State.served_ledger, call, EntryCall.tokenOut]
    omega
  · exact fun out s'' hcompleted => ⟨s0, runs, avail, s', hinv, hzero, hcompleted⟩
  · exact fun panic s'' hpanic => hpanic

end Merge

/-! ## `swap` -/

section Swap

variable {env : Env V} {user tokenIn tokenOut : Address} {amountIn amountOutMin : I128}
  {deadline : UInt64} {plan : Vec Strand} {world : World V}

/-- What a `swap` that returned establishes: the whole input is allocated, and the books
show the outputs of the strands. -/
theorem swap_post :
    Post (swap env user tokenIn tokenOut amountIn amountOutMin deadline plan) world.start
      (fun out s' => ∃ s0 runs s, SwapInv
          (EntryCall.scope env (.swap user tokenIn tokenOut amountIn amountOutMin deadline plan)
            world)
          s0 tokenIn tokenOut amountIn (plan.val.map Strand.parts) runs plan.val amountIn s ∧
        List.Forall₂ (StrandRun.Isolated tokenIn tokenOut)
          (shares amountIn (weights (plan.val.map Strand.parts))) runs ∧
        Completed env (.swap user tokenIn tokenOut amountIn amountOutMin deadline plan)
          world s0 (strandLegs runs) (s.served (.balance tokenOut env.contract)) out s')
      (fun panic s' => ¬ Unreached panic ∧ Aborted
        (EntryCall.scope env (.swap user tokenIn tokenOut amountIn amountOutMin deadline plan)
          world)
        (swapEdges plan.val) s') := by
  let call : EntryCall := .swap user tokenIn tokenOut amountIn amountOutMin deadline plan
  have hstart := Quiet.start (call.scope env world) world
  have hlength : (plan.val.map Strand.parts).length < 2 ^ 32 := by
    rw [List.length_map]
    exact plan.property
  unfold swap
  refine post_entryChecks_bind (fun panic hpanic => ⟨hpanic, hstart.aborted _⟩) ?_
  intro hsigned hamount hmin hdistinct htime
  refine post_panicIf_bind (fun _ => ⟨by simp [Unreached], hstart.aborted _⟩) fun hplan => ?_
  refine post_balance_bind ?_
  refine post_pull_bind call (fun _ h => h) hsigned hamount hmin hdistinct htime
    (hstart.read tokenOut) rfl ?_
  intro s0 hpulled
  rw [sumParts_eq _ hlength, pure_bind]
  refine post_panicIf_bind
    (fun _ => ⟨by simp [Unreached], hpulled.quiet.aborted _⟩) fun htotal => ?_
  have hopened : (call.scope env world).Opened
      (fun t => if t = tokenIn then (amountIn : Int) else 0) s0 := hpulled.opened
  refine (strandLoop_post hopened ⟨hamount, amountIn.property.2⟩
    (by omega) .start).bind_mono ?_ ?_
  · exact fun panic s' hstopped => ⟨hstopped.1, hstopped.aborted hpulled.quiet⟩
  rintro allocated s ⟨runs, hinv, hisolated⟩
  -- the last strand took the remainder
  obtain rfl : allocated = amountIn := hinv.running.full rfl
  rw [List.take_of_length_le] at hisolated
  swap
  · rw [length_shares (weights_ne_nil (by omega)), length_weights, List.length_map]
  have hhops : (strandLegs runs).map Leg.hop = swapEdges plan.val := hinv.hops
  have hgain := hinv.outputs_pos fun hnil => hplan (by unfold Vec.len; rw [hnil]; rfl)
  have hheld := hinv.journal.covered hopened.held tokenOut
  rw [hinv.books, if_neg hdistinct.symm, if_pos rfl] at hheld
  simp only [EntryCall.scope] at hheld
  have hjournal := hinv.journal.read tokenOut
  rw [forwardOutput_eq, World.start_ledger]
  refine post_gain_bind (world.ledger.balance_bounds tokenOut env.contract) ?_
  refine post_panicIf_bind (fun hbad => absurd hbad (by omega)) fun _ => ?_
  refine (hjournal.payOut_post call (fun _ h => h) hpulled hhops ?_ rfl).mono ?_ ?_
  · show 0 < _ - _
    simp only [State.served_ledger, call, EntryCall.tokenOut]
    omega
  · exact fun out s'' hcompleted => ⟨s0, runs, s, hinv, hisolated, hcompleted⟩
  · exact fun panic s'' hpanic => hpanic

end Swap

/-! ## The single-purpose entry points -/

section Direct

variable {env : Env V} {call : EntryCall} {world : World V}

/-- A one-leg call. -/
theorem directSwap_post (call : EntryCall) {hop : Hop} (hedges : call.edges = [hop])
    (hin : call.tokenIn = hop.tokenIn) (hout : call.tokenOut = hop.tokenOut)
    (hplan : ¬ call.IsPlan) :
    Post (directSwap env call.user hop call.amountIn call.amountOutMin call.deadline) world.start
      (fun out s' => ∃ s0 legs s, Completed env call world s0 legs s out s')
      (fun _ s' => Aborted (call.scope env world) call.edges s') := by
  have hstart := Quiet.start (call.scope env world) world
  unfold directSwap
  rw [← hin, ← hout]
  refine post_entryChecks_bind (fun _ _ => hstart.aborted _) ?_
  intro hsigned hamount hmin hdistinct htime
  refine post_balance_bind ?_
  refine (post_pull_bind call (P := fun _ => True)
    (fun _ _ => trivial) hsigned hamount hmin hdistinct htime (hstart.read call.tokenOut) rfl
    ?_).mono (fun _ _ h => h) fun _ _ h => h.2
  intro s0 hpulled
  refine post_balance_bind ?_
  have hopening : Journal (call.scope env world) s0 [] s0 := .start
  refine ((hopening.read call.tokenIn).measuredLeg_post hop (fun h => absurd h hplan)
    (fun h => absurd h hplan) hamount (by rw [← hin, ← hout]; exact hdistinct)
    (by rw [← hin]; exact hpulled.opened.held) (by rw [← hin]; rfl)
    (world.ledger.balance_bounds _ _)).bind_mono ?_ ?_
  · rintro panic s' ⟨hpanic, hhalted⟩
    exact ⟨trivial, s0, _, hpulled.quiet, by rw [hedges]; exact List.prefix_rfl, hhalted⟩
  rintro gain s ⟨hgain, hvalue, out, record, _, hjournal⟩
  rw [← hout] at hvalue
  exact (hjournal.payOut_post call (fun _ _ => trivial) hpulled (by rw [hedges]; rfl) hgain
    hvalue).mono (fun out s' h => ⟨_, _, _, h⟩) fun _ _ h => h

end Direct

/-- The cross-protocol call: leg 2 is fed what leg 1 delivered. Its final gain counts
everything since the call began. -/
theorem swapAquaThenSoroswap_post {env : Env V} {user aquaRouter : Address}
    {aquaPoolTokens : Vec Address} {aquaPoolIndex : BytesN32}
    {tokenIn midToken soroswapRouter soroswapPool : Address} {soroswapPath : Vec Address}
    {tokenOut : Address} {amountIn amountOutMin : I128} {deadline : UInt64} {world : World V} :
    let call : EntryCall := .swapAquaThenSoroswap user aquaRouter aquaPoolTokens aquaPoolIndex
      tokenIn midToken soroswapRouter soroswapPool soroswapPath tokenOut amountIn amountOutMin
      deadline
    Post (call.run env) world.start
      (fun out s' => ∃ s0 legs s, Completed env call world s0 legs s out s')
      (fun _ s' => Aborted (call.scope env world) call.edges s') := by
  intro call
  have hstart := Quiet.start (call.scope env world) world
  have hplan : ¬ (call.scope env world).plan := id
  show Post (swapAquaThenSoroswap env user aquaRouter aquaPoolTokens aquaPoolIndex tokenIn
    midToken soroswapRouter soroswapPool soroswapPath tokenOut amountIn amountOutMin deadline)
    _ _ _
  rw [swapAquaThenSoroswap_eq]
  refine post_entryChecks_bind (fun _ _ => hstart.aborted _) ?_
  intro hsigned hamount hmin hdistinct htime
  refine post_panicIf_bind (fun _ => hstart.aborted _) fun hmid => ?_
  refine post_balance_bind (post_balance_bind ?_)
  refine (post_pull_bind call (P := fun _ => True)
    (fun _ _ => trivial) hsigned hamount hmin hdistinct htime
    ((hstart.read tokenOut).read midToken) rfl ?_).mono (fun _ _ h => h) fun _ _ h => h.2
  intro s0 hpulled
  have hmidBefore : s0.ledger.balance midToken env.contract =
      world.ledger.balance midToken env.contract :=
    hpulled.balance_of_ne fun h => hmid (.inl h)
  -- the first leg spends the pulled input
  let leg1 : Hop := .aqua aquaRouter aquaPoolTokens aquaPoolIndex tokenIn midToken
  let leg2 : Hop := .soroswap soroswapRouter soroswapPool midToken tokenOut soroswapPath
  have hcovers1 : (call.scope env world).Covers leg1.tokenIn amountIn
      (s0.served (.balance tokenIn env.contract)).ledger := hpulled.opened.held
  refine post_balance_bind ?_
  have hopening : Journal (call.scope env world) s0 [] s0 := .start
  refine ((hopening.read tokenIn).measuredLeg_post leg1 (fun h => absurd h hplan)
    (fun h => absurd h hplan) hamount (fun h => hmid (.inl h.symm)) hcovers1 rfl
    (world.ledger.balance_bounds midToken env.contract)).bind_mono ?_ ?_
  · rintro panic s' ⟨hpanic, hhalted⟩
    exact ⟨trivial, s0, _, hpulled.quiet, List.prefix_append [leg1] [leg2], hhalted⟩
  rintro midAmt s1 ⟨hmidPos, hmidAmt, out1, record1, hsame, hjournal1⟩
  obtain rfl : out1 = midAmt := hsame hmidBefore.symm
  -- the second leg spends what the first one brought in
  have hcovers2 : (call.scope env world).Covers leg2.tokenIn out1 s1.ledger := by
    intro t
    have hcovered := hjournal1.covered hpulled.opened.held t
    rw [List.nil_append, List.map_singleton] at hcovered
    unfold holding EntryCall.opening at hcovered
    rw [gainedOf_singleton, spentOf_singleton] at hcovered
    have hcovered' : world.ledger.balance t env.contract +
        ((if t = tokenIn then (amountIn : Int) else 0) + (if midToken = t then out1 else 0) -
          (if tokenIn = t then (amountIn : Int) else 0)) ≤ s1.ledger.balance t env.contract :=
      hcovered
    show world.ledger.balance t env.contract + (if t = midToken then out1 else 0) ≤
      s1.ledger.balance t env.contract
    simp only [eq_comm (a := t)] at hcovered' ⊢
    omega
  refine (hjournal1.measuredLeg_post leg2 (fun h => absurd h hplan) (fun h => absurd h hplan)
    hmidPos (fun h => hmid (.inr h)) hcovers2 ?_
    (world.ledger.balance_bounds tokenOut env.contract)).bind_mono ?_ ?_
  · show world.ledger.balance midToken env.contract + out1 = s1.ledger.balance midToken env.contract
    have : out1 = s1.ledger.balance midToken env.contract -
      world.ledger.balance midToken env.contract := hmidAmt
    omega
  · rintro panic s' ⟨hpanic, hhalted⟩
    exact ⟨trivial, s0, _, hpulled.quiet, List.prefix_rfl, hhalted⟩
  rintro gain s2 ⟨hgain, hvalue, out2, record2, _, hjournal2⟩
  exact (hjournal2.payOut_post call (fun _ _ => trivial) hpulled rfl hgain
    hvalue).mono (fun out s' h => ⟨_, _, _, h⟩) fun _ _ h => h

/-- Every entry point: a call that returns is completed, one that panics was stopped
along its edges. -/
theorem EntryCall.run_post (env : Env V) (call : EntryCall) (world : World V) :
    Post (call.run env) world.start
      (fun out s' => ∃ s0 legs s, Completed env call world s0 legs s out s')
      (fun _ s' => Aborted (call.scope env world) call.edges s') := by
  cases call with
  | swapSoroswap user router pool tokenIn tokenOut amountIn amountOutMin path deadline =>
      simp only [EntryCall.run, swapSoroswap_eq]
      exact directSwap_post (.swapSoroswap user router pool tokenIn tokenOut amountIn
        amountOutMin path deadline) rfl rfl rfl id
  | swapAqua user router pool poolTokens poolIndex tokenIn tokenOut amountIn amountOutMin
      deadline =>
      simp only [EntryCall.run, swapAqua_eq]
      exact directSwap_post (.swapAqua user router pool poolTokens poolIndex tokenIn
        tokenOut amountIn amountOutMin deadline) rfl rfl rfl id
  | swapPhoenix user pool tokenIn tokenOut amountIn amountOutMin deadline =>
      simp only [EntryCall.run, swapPhoenix_eq]
      exact directSwap_post (.swapPhoenix user pool tokenIn tokenOut amountIn
        amountOutMin deadline) rfl rfl rfl id
  | swapAquaThenSoroswap => exact swapAquaThenSoroswap_post
  | swap =>
      refine swap_post.mono ?_ fun panic s' h => h.2
      rintro out s' ⟨s0, runs, s, _, _, hcompleted⟩
      exact ⟨s0, _, _, hcompleted⟩
  | swapMerge =>
      refine swapMerge_post.mono ?_ fun panic s' h => h.2
      rintro out s' ⟨s0, runs, avail, s, _, _, hcompleted⟩
      exact ⟨s0, _, _, hcompleted⟩

end WowmaxStellar
