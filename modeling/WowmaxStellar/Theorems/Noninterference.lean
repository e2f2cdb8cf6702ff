import WowmaxStellar.Logic.Mirror
import WowmaxStellar.Logic.Desk

/-!
# Balances of the executor are invisible

The same call on two worlds that differ only in what the executor holds. With venues
that do not look at the executor's balances the two invocations make the same acts, end
with the same result and change every balance by the same amount, as long as no balance
overflows.
-/

namespace WowmaxStellar

open Runs

variable {V : Type}

/-- The worlds differ in the balances of `contract` only. -/
structure World.SameBut (contract : Address) (first second : World V) : Prop where
  venues : first.venues = second.venues
  others : ∀ token holder, holder ≠ contract →
    first.ledger.balance token holder = second.ledger.balance token holder

/-- Two invocations that an onlooker cannot tell apart. -/
structure Invocation.Indistinguishable (first second : Invocation V) (world world' : World V) :
    Prop where
  result : first.result = second.result
  acts : acts first.trace = acts second.trace
  venues : first.world.venues = second.world.venues
  changes : ∀ token holder,
    first.world.ledger.balance token holder - world.ledger.balance token holder =
      second.world.ledger.balance token holder - world'.ledger.balance token holder

section Calls

variable {env : Env V} {world world' : World V}

/-- The second row of balances. -/
def World.row (world : World V) (contract t : Address) : Int := world.ledger.balance t contract

theorem EntryCall.facing (call : EntryCall) (hblind : env.Blind) :
    (call.scope env world).Facing (world'.row env.contract) where
  blind := hblind
  base_nonneg t := world.ledger.nonneg t _
  base_nonneg' t := world'.ledger.nonneg t _

theorem World.SameBut.mirror (h : world.SameBut env.contract world') (call : EntryCall) :
    Mirror (call.scope env world) (world'.row env.contract) world.start world'.start where
  ledgers :=
    { others := h.others
      gained := fun t => by
        show world.ledger.balance t env.contract - world.ledger.balance t env.contract =
          world'.ledger.balance t env.contract - world'.ledger.balance t env.contract
        omega }
  venues := h.venues
  acts := rfl

/-- What is known once the pull is through, on both sides. -/
structure Scope.PulledAlike (scope : Scope V) (base' : Address → Int) (tokenIn : Address)
    (amountIn : Int) (s t : State V) : Prop where
  mirror : Mirror scope base' s t
  balance : ∀ token, s.ledger.balance token scope.env.contract =
    scope.base token + if token = tokenIn then amountIn else 0

theorem Scope.PulledAlike.opened {scope : Scope V} {base' : Address → Int} {tokenIn : Address}
    {amountIn : Int} {s t : State V} (h : scope.PulledAlike base' tokenIn amountIn s t)
    (hfacing : scope.Facing base') :
    scope.Opened (fun token => if token = tokenIn then amountIn else 0) s where
  base_nonneg := hfacing.base_nonneg
  held token := (h.balance token).ge

theorem Scope.Facing.pull_bind {scope : Scope V} {base' : Address → Int} {s t : State V}
    {α β : Type} {user tokenIn : Address} {amountIn : Int} {f : Unit → Exec V α}
    {g : Unit → Exec V β} {R : α → β → State V → State V → Prop}
    (hfacing : scope.Facing base') (h : Mirror scope base' s t)
    (hsigned : user ∈ scope.env.signers)
    (hstart : ∀ token, s.ledger.balance token scope.env.contract = scope.base token)
    (hpass : ∀ s' t', scope.PulledAlike base' tokenIn amountIn s' t' →
      Lockstep Overflowed SameFailure R (f () s') (g () t')) :
    Lockstep Overflowed SameFailure R
      ((transfer scope.env tokenIn user scope.env.contract amountIn >>= f) s)
      ((transfer scope.env tokenIn user scope.env.contract amountIn >>= g) t) := by
  refine h.transfer_bind hfacing ?_ fun s' t' hpull hmirror =>
    hpass s' t' ⟨hmirror, fun token => ?_⟩
  · intro hself
    exact absurd (hself ▸ hsigned) scope.env.contract_unsigned
  · rw [pulled_balance hpull hsigned, hstart]

/-- What the two runs of a call establish. -/
abbrev EntryCall.RunsAlike (env : Env V) (call : EntryCall) (world world' : World V) : Prop :=
  Lockstep Overflowed SameFailure (fun out out' s t => out = out' ∧
      Mirror (call.scope env world) (world'.row env.contract) s t)
    (call.run env world.start) (call.run env world'.start)

/-- The checks look at neither ledger. -/
theorem Mirror.entryChecks_bind {scope : Scope V} {base' : Address → Int} {s t : State V}
    {α β : Type} {user tokenIn tokenOut : Address} {amountIn amountOutMin : Int}
    {deadline : UInt64} {f : Unit → Exec V α} {g : Unit → Exec V β}
    {R : α → β → State V → State V → Prop} (h : Mirror scope base' s t)
    (hpass : user ∈ scope.env.signers → 0 < amountIn → tokenIn ≠ tokenOut →
      Lockstep Overflowed SameFailure R (f () s) (g () t)) :
    Lockstep Overflowed SameFailure R
      ((entryChecks scope.env user tokenIn tokenOut amountIn amountOutMin deadline >>= f) s)
      ((entryChecks scope.env user tokenIn tokenOut amountIn amountOutMin deadline >>= g) t) := by
  rcases entryChecks_cases scope.env user tokenIn tokenOut amountIn amountOutMin deadline with
    ⟨panic, _, heq⟩ | ⟨hsigned, hamount, _, hdistinct, _, heq⟩
  · rw [heq]
    exact .inr (.inr (.of_seen h.acts))
  · rw [heq, pure_bind, pure_bind]
    exact hpass hsigned hamount hdistinct

/-- Both runs read a balance they have not touched. -/
theorem base_sub_base (scope : Scope V) (base' : Address → Int) (token : Address) :
    scope.base token - scope.base token = base' token - base' token := by
  omega

theorem directSwap_alike (call : EntryCall) {hop : Hop} (hblind : env.Blind)
    (hworlds : world.SameBut env.contract world')
    (hrun : call.run env = directSwap env call.user hop call.amountIn call.amountOutMin
      call.deadline) : call.RunsAlike env world world' := by
  have hfacing : (call.scope env world).Facing (world'.row env.contract) := call.facing hblind
  unfold EntryCall.RunsAlike
  rw [hrun]
  unfold directSwap
  refine (hworlds.mirror call).entryChecks_bind
    fun hsigned hamount _ => lockstep_balance_bind ?_
  refine hfacing.pull_bind ((hworlds.mirror call).read _ _) hsigned
    (fun _ => rfl) fun s t hpulled => lockstep_balance_bind ?_
  have hread := hpulled.mirror.read hop.tokenIn hop.tokenIn
  have hcovered := (hpulled.opened hfacing).held hop.tokenIn
  rw [if_pos rfl] at hcovered
  refine (Twin.measuredLeg hread (Mirror.sameCalls hread hfacing hamount.le hcovered _)
    (hpulled.mirror.gained _) (base_sub_base (call.scope env world) _ hop.tokenOut)
    (fun _ _ _ => .of_seen) fun _ _ => .of_seen).bind ?_
  rintro out _ s' t' hleg _ ⟨rfl, _, hmirror⟩
  obtain ⟨_, _, _, hgain⟩ := measuredLeg_ok hleg
  exact Mirror.payOut hmirror hfacing hgain

theorem swapAquaThenSoroswap_alike {user aquaRouter : Address} {aquaPoolTokens : Vec Address}
    {aquaPoolIndex : BytesN32} {tokenIn midToken soroswapRouter soroswapPool : Address}
    {soroswapPath : Vec Address} {tokenOut : Address} {amountIn amountOutMin : I128}
    {deadline : UInt64} (hblind : env.Blind) (hworlds : world.SameBut env.contract world') :
    EntryCall.RunsAlike env (.swapAquaThenSoroswap user aquaRouter aquaPoolTokens aquaPoolIndex
      tokenIn midToken soroswapRouter soroswapPool soroswapPath tokenOut amountIn amountOutMin
      deadline) world world' := by
  let call : EntryCall := .swapAquaThenSoroswap user aquaRouter aquaPoolTokens aquaPoolIndex
    tokenIn midToken soroswapRouter soroswapPool soroswapPath tokenOut amountIn amountOutMin
    deadline
  let scope := call.scope env world
  have hfacing : scope.Facing (world'.row env.contract) := call.facing hblind
  have hstart : Mirror scope (world'.row env.contract) world.start world'.start :=
    hworlds.mirror call
  unfold EntryCall.RunsAlike
  rw [EntryCall.run, swapAquaThenSoroswap_eq]
  refine hstart.entryChecks_bind fun hsigned hamount _ => ?_
  refine lockstep_panicIf_bind Iff.rfl (.of_seen hstart.acts) fun hmid _ => ?_
  refine lockstep_balance_bind (lockstep_balance_bind ?_)
  refine hfacing.pull_bind ((hstart.read _ _).read _ _) hsigned
    (fun _ => rfl) fun s t hpulled => lockstep_balance_bind ?_
  -- leg 1 spends what was pulled
  have hread := hpulled.mirror.read tokenIn tokenIn
  have hcovered := (hpulled.opened hfacing).held tokenIn
  rw [if_pos rfl] at hcovered
  refine (Twin.measuredLeg hread (Mirror.sameCalls hread hfacing hamount.le hcovered _)
    (hpulled.mirror.gained _) (base_sub_base scope (world'.row _) midToken) (fun _ _ _ => .of_seen)
    fun _ _ => .of_seen).bind ?_
  rintro midAmt _ s1 t1 hleg _ ⟨rfl, hmidAmt, hmirror1⟩
  -- leg 2 spends what leg 1 delivered
  obtain ⟨_, _, _, hgain1⟩ := measuredLeg_ok hleg
  have hmidBase : midAmt = s1.ledger.balance midToken env.contract - scope.base midToken := hgain1
  have hcovered1 : scope.base midToken + midAmt ≤ s1.ledger.balance midToken env.contract := by
    omega
  refine (Twin.measuredLeg hmirror1
    (Mirror.sameCalls hmirror1 hfacing hmidAmt.1.le hcovered1 _) ?_
    (base_sub_base scope (world'.row _) tokenOut) (fun _ _ _ => .of_seen)
    fun _ _ => .of_seen).bind ?_
  · show scope.base midToken + midAmt - scope.base midToken =
      world'.row env.contract midToken + midAmt - world'.row env.contract midToken
    omega
  rintro out _ s2 t2 hleg2 _ ⟨rfl, _, hmirror2⟩
  obtain ⟨_, _, _, hgain2⟩ := measuredLeg_ok hleg2
  exact Mirror.payOut hmirror2 hfacing hgain2

theorem swap_alike {user tokenIn tokenOut : Address} {amountIn amountOutMin : I128}
    {deadline : UInt64} {plan : Vec Strand} (hblind : env.Blind)
    (hworlds : world.SameBut env.contract world') :
    EntryCall.RunsAlike env (.swap user tokenIn tokenOut amountIn amountOutMin deadline plan) world
      world' := by
  let call : EntryCall := .swap user tokenIn tokenOut amountIn amountOutMin deadline plan
  let scope := call.scope env world
  have hfacing : scope.Facing (world'.row env.contract) := call.facing hblind
  have hstart : Mirror scope (world'.row env.contract) world.start world'.start :=
    hworlds.mirror call
  have hlength : (plan.val.map Strand.parts).length < 2 ^ 32 := by
    rw [List.length_map]
    exact plan.property
  show Lockstep _ _ _
    (swap scope.env user tokenIn tokenOut amountIn amountOutMin deadline plan world.start)
    (swap scope.env user tokenIn tokenOut amountIn amountOutMin deadline plan world'.start)
  unfold swap
  refine hstart.entryChecks_bind fun hsigned hamount _ => ?_
  refine lockstep_panicIf_bind Iff.rfl (.of_seen hstart.acts) fun _ _ => ?_
  refine lockstep_balance_bind ?_
  refine hfacing.pull_bind (hstart.read _ _) hsigned (fun _ => rfl)
    fun s t hpulled => ?_
  rw [sumParts_eq _ hlength, pure_bind, pure_bind]
  refine lockstep_panicIf_bind Iff.rfl (.of_seen hpulled.mirror.acts) fun htotal _ => ?_
  refine (hpulled.mirror.strandLoop hfacing (hpulled.opened hfacing)
    ⟨hamount, amountIn.property.2⟩ (by omega) .start).bind ?_
  intro _ _ s' t' _ _ hmirror
  exact Mirror.forwardOutput hmirror hfacing

theorem swapMerge_alike {user tokenIn tokenOut : Address} {amountIn amountOutMin : I128}
    {deadline : UInt64} {stages : Vec Stage} (hblind : env.Blind)
    (hworlds : world.SameBut env.contract world') :
    EntryCall.RunsAlike env
      (.swapMerge user tokenIn tokenOut amountIn amountOutMin deadline stages) world world' := by
  let call : EntryCall := .swapMerge user tokenIn tokenOut amountIn amountOutMin deadline stages
  let scope := call.scope env world
  have hfacing : scope.Facing (world'.row env.contract) := call.facing hblind
  have hstart : Mirror scope (world'.row env.contract) world.start world'.start :=
    hworlds.mirror call
  show Lockstep _ _ _
    (swapMerge scope.env user tokenIn tokenOut amountIn amountOutMin deadline stages world.start)
    (swapMerge scope.env user tokenIn tokenOut amountIn amountOutMin deadline stages world'.start)
  unfold swapMerge mergeEntry
  simp only [bind_assoc]
  refine hstart.entryChecks_bind fun hsigned hamount _ => ?_
  refine lockstep_panicIf_bind Iff.rfl (.of_seen hstart.acts) fun _ _ => ?_
  refine lockstep_balance_bind ?_
  refine hfacing.pull_bind (hstart.read _ _) hsigned (fun _ => rfl)
    fun s t hpulled => ?_
  rw [pure_bind, pure_bind]
  refine (hpulled.mirror.stageLoop hfacing (hpulled.opened hfacing)
    (.start hamount)).bind ?_
  rintro avail _ s' t' _ _ ⟨rfl, hmirror⟩
  refine (steady_deadEndCheck tokenOut avail).lockstep_bind (fun _ => .of_seen hmirror.acts)
    fun _ _ => ?_
  exact Mirror.settleMerge hmirror hfacing

/-- Every entry point runs alike on the two worlds. -/
theorem EntryCall.alike (call : EntryCall) (hblind : env.Blind)
    (hworlds : world.SameBut env.contract world') : call.RunsAlike env world world' := by
  cases call with
  | swapSoroswap =>
      exact directSwap_alike _ hblind hworlds (by rw [EntryCall.run, swapSoroswap_eq]; rfl)
  | swapAqua => exact directSwap_alike _ hblind hworlds (by rw [EntryCall.run, swapAqua_eq]; rfl)
  | swapPhoenix =>
      exact directSwap_alike _ hblind hworlds (by rw [EntryCall.run, swapPhoenix_eq]; rfl)
  | swapAquaThenSoroswap => exact swapAquaThenSoroswap_alike hblind hworlds
  | swap => exact swap_alike hblind hworlds
  | swapMerge => exact swapMerge_alike hblind hworlds

end Calls

/-- **Noninterference.** What the executor holds when a call begins cannot be told from
the call: on two worlds that differ in it only, the call makes the same authorisations and
venue calls, ends with the same result and changes every balance by the same amount. -/
theorem noninterference (env : Env V) (hblind : env.Blind) (call : EntryCall)
    (world world' : World V) (hworlds : world.SameBut env.contract world')
    (hfits : (call.invoke env world).result ≠ .error (.host .balanceOverflow))
    (hfits' : (call.invoke env world').result ≠ .error (.host .balanceOverflow)) :
    (call.invoke env world).Indistinguishable (call.invoke env world') world world' := by
  have halike := call.alike hblind hworlds
  unfold EntryCall.RunsAlike at halike
  have hescape := EntryCall.not_overflowed hfits
  have hescape' := EntryCall.not_overflowed hfits'
  rcases halike.ends hescape hescape' with
    ⟨out, out', s, t, hs, ht, rfl, hmirror⟩ | ⟨panic, panic', s, t, hs, ht, rfl, hseen⟩
  · rw [EntryCall.invoke_of_ok hs, EntryCall.invoke_of_ok ht]
    refine ⟨rfl, ?_, hmirror.venues, fun token holder => ?_⟩
    · simpa [seen] using hmirror.acts
    · show s.ledger.balance token holder - _ = t.ledger.balance token holder - _
      by_cases hholder : holder = env.contract
      · rw [hholder]
        exact hmirror.gained token
      · rw [hworlds.others token holder hholder, hmirror.ledgers.others token holder hholder]
  · -- both runs roll back to where they began
    rw [EntryCall.invoke_of_error hs, EntryCall.invoke_of_error ht]
    refine ⟨rfl, ?_, hworlds.venues, fun token holder => ?_⟩
    · simpa [seen] using hseen
    · show world.ledger.balance token holder - world.ledger.balance token holder =
        world'.ledger.balance token holder - world'.ledger.balance token holder
      omega

theorem deskWorld_sameBut (dust dust' : UInt32) :
    (deskWorld dust).SameBut deskEnv.contract (deskWorld dust') where
  venues := rfl
  others token holder hne := by
    show (if token = ⟨11⟩ ∧ holder = ⟨0⟩ then _ else _) =
      if token = ⟨11⟩ ∧ holder = ⟨0⟩ then _ else _
    rw [if_neg fun h => hne h.2, if_neg fun h => hne h.2]

/-- The desks do the same whether the executor holds dust or not. -/
theorem noninterference_desk :
    ((deskMerge ⟨[deskSplit, deskLeft, deskRight], by decide⟩).invoke deskEnv
        (deskWorld 0)).Indistinguishable
      ((deskMerge ⟨[deskSplit, deskLeft, deskRight], by decide⟩).invoke deskEnv (deskWorld 5))
      (deskWorld 0) (deskWorld 5) :=
  noninterference deskEnv desk_blind _ _ _ (deskWorld_sameBut 0 5) (by decide +kernel)
    (by decide +kernel)

end WowmaxStellar
