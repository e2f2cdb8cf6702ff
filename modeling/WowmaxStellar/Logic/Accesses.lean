import WowmaxStellar.Lib.Emits
import WowmaxStellar.Logic.Leg

/-!
# What a call touches

The accesses of a run are its host calls without the amounts: whose balance of which token was
read, from whom to whom a token went, which venue was called with which arguments. They can be
read off the arguments of the entry point.

* `EntryCall.accesses` — the accesses of a call, in order;
* `emits_runHop`, `emits_runFill` — an edge has the same six accesses, whatever comes of it;
* `EntryCall.emits` — every entry point.
-/

namespace WowmaxStellar

open Runs

/-- A host call of the executor, without amounts and ledgers. -/
inductive Access
  | balance (token holder : Address)
  | transfer (token src dst : Address)
  | authorize (pulls : List (Address × Address × Address))
  | invoke (call : VenueCall)
deriving DecidableEq

/-- The call without the amount that is handed in. -/
def VenueCall.unpriced : VenueCall → VenueCall
  | .swapExactTokensForTokens router _ amountOutMin path recipient deadline =>
      .swapExactTokensForTokens router 0 amountOutMin path recipient deadline
  | .swapChained router user swapsChain tokenIn _ outMin =>
      .swapChained router user swapsChain tokenIn 0 outMin
  | .swap pool sender offerAsset _ askAssetMinAmount maxSpreadBps deadline maxAllowedFeeBps =>
      .swap pool sender offerAsset 0 askAssetMinAmount maxSpreadBps deadline maxAllowedFeeBps

def Event.access : Event → Access
  | .balance token holder => .balance token holder
  | .transfer token src dst _ _ => .transfer token src dst
  | .authorize entries => .authorize (entries.map fun entry => (entry.token, entry.src, entry.dst))
  | .invoke record => .invoke record.call.unpriced

/-- The accesses of a state's trace. -/
def State.accesses {V : Type} (s : State V) : List Access := s.trace.map Event.access

/-! ## The accesses of a call -/

section Static

variable {V : Type} (env : Env V)

/-- An edge from its authorisation to the measurement of its output. -/
def Hop.legAccesses (hop : Hop) (outMin : Option Int) (deadline : UInt64) : List Access :=
  [.authorize [(hop.tokenIn, env.contract, hop.pullTarget)],
    .invoke (hop.call env 0 outMin deadline).unpriced,
    .balance hop.tokenIn env.contract, .balance hop.tokenOut env.contract]

/-- A hop of `swap` reads its output first. -/
def Hop.accesses (hop : Hop) (deadline : UInt64) : List Access :=
  .balance hop.tokenOut env.contract :: .balance hop.tokenIn env.contract ::
    hop.legAccesses env none deadline

/-- A fill of `swap_merge` reads its input first. -/
def Fill.accesses (stageToken : Address) (fill : Fill) (deadline : UInt64) : List Access :=
  .balance stageToken env.contract :: .balance fill.tokenOut env.contract ::
    (fill.toHop stageToken).legAccesses env none deadline

/-- A single-purpose entry point on one edge. -/
def directAccesses (user : Address) (hop : Hop) (amountOutMin : I128) (deadline : UInt64) :
    List Access :=
  .balance hop.tokenOut env.contract :: .transfer hop.tokenIn user env.contract ::
    .balance hop.tokenIn env.contract :: hop.legAccesses env (some amountOutMin) deadline ++
      [.transfer hop.tokenOut env.contract user]

/-- A plan executor around the accesses of its edges. -/
def planAccesses (user tokenIn tokenOut : Address) (edges : List Access) : List Access :=
  .balance tokenOut env.contract :: .transfer tokenIn user env.contract :: edges ++
    [.balance tokenOut env.contract, .transfer tokenOut env.contract user]

def EntryCall.accesses : EntryCall → List Access
  | .swapSoroswap user router pool tokenIn tokenOut _ amountOutMin path deadline =>
      directAccesses env user (.soroswap router pool tokenIn tokenOut path) amountOutMin deadline
  | .swapAqua user router _ poolTokens poolIndex tokenIn tokenOut _ amountOutMin deadline =>
      directAccesses env user (.aqua router poolTokens poolIndex tokenIn tokenOut) amountOutMin
        deadline
  | .swapPhoenix user pool tokenIn tokenOut _ amountOutMin deadline =>
      directAccesses env user (.phoenix pool tokenIn tokenOut) amountOutMin deadline
  | .swapAquaThenSoroswap user aquaRouter aquaPoolTokens aquaPoolIndex tokenIn midToken
      soroswapRouter soroswapPool soroswapPath tokenOut _ _ deadline =>
      .balance tokenOut env.contract :: .balance midToken env.contract ::
        .transfer tokenIn user env.contract :: .balance tokenIn env.contract ::
        (Hop.aqua aquaRouter aquaPoolTokens aquaPoolIndex tokenIn midToken).legAccesses env none
          deadline ++
        ((Hop.soroswap soroswapRouter soroswapPool midToken tokenOut soroswapPath).legAccesses env
          none deadline ++ [.transfer tokenOut env.contract user])
  | .swap user tokenIn tokenOut _ _ deadline plan =>
      planAccesses env user tokenIn tokenOut (plan.val.flatMap fun strand =>
        strand.hops.val.flatMap fun hop => hop.accesses env deadline)
  | .swapMerge user tokenIn tokenOut _ _ deadline stages =>
      planAccesses env user tokenIn tokenOut (stages.val.flatMap fun stage =>
        stage.fills.val.flatMap fun fill => fill.accesses env stage.token deadline)

end Static

/-! ## Runs have these accesses -/

section Emits

variable {V : Type} {env : Env V}

theorem emits_panicIf (c : Prop) [Decidable c] (site : Guard) :
    Emits State.accesses (panicIf c site : Exec V Unit) [] :=
  .ite (.throw _ _) (.pure ())

theorem emits_checked (op : ArithOp) (x : Int) :
    Emits State.accesses (checked op x : Exec V Int) [] :=
  .ite (.pure _) (.throw _ _)

theorem emits_balance (token holder : Address) :
    Emits State.accesses (balance token holder : Exec V Int) [.balance token holder] := by
  intro s
  show (s.trace ++ [_]).map Event.access = s.trace.map Event.access ++ _
  rw [List.map_append]
  rfl

theorem emits_transfer (token src dst : Address) (amount : Int) :
    Emits State.accesses (transfer env token src dst amount) [.transfer token src dst] := by
  intro s
  have hstart : ∃ part, part <+: [Access.transfer token src dst] ∧
      s.accesses = s.accesses ++ part :=
    ⟨[], List.nil_prefix, (List.append_nil _).symm⟩
  unfold Post transfer
  split_ifs
  · exact hstart
  · exact hstart
  cases s.ledger.transfer token src dst amount with
  | error e => exact hstart
  | ok ledger =>
      show (s.trace ++ [_]).map Event.access = s.trace.map Event.access ++ _
      rw [List.map_append]
      rfl

theorem emits_expectReply (replyType : ReplyType) (reply : Reply) :
    Emits State.accesses (expectReply replyType reply : Exec V Unit) [] := by
  cases replyType <;> cases reply
  case amounts.amounts values => exact emits_panicIf _ _
  case u128.u128 => exact .pure ()
  case i128.i128 => exact .pure ()
  all_goals exact .throw _ _

/-- The trace shows the authorisation and the call, whatever the venue does with them. -/
theorem emits_authorizedCall (token target : Address) (amount : Int) (call : VenueCall)
    (replyType : ReplyType) :
    Emits State.accesses (authorizedCall env token target amount call replyType)
      [.authorize [(token, env.contract, target)], .invoke call.unpriced] := by
  intro s
  have hcalled : ∀ ledger venues,
      (s.called (env.record token target amount call s) ledger venues).accesses =
        s.accesses ++ [.authorize [(token, env.contract, target)], .invoke call.unpriced] := by
    intro ledger venues
    show (s.trace ++ _).map Event.access = s.trace.map Event.access ++ _
    rw [List.map_append]
    rfl
  unfold Post
  rw [authorizedCall_eq]
  cases env.settle s.venues s.ledger [⟨token, env.contract, target, amount⟩] call with
  | error e => exact ⟨_, List.prefix_rfl, hcalled _ _⟩
  | ok result =>
      obtain ⟨ledger, venues, reply⟩ := result
      refine (emits_expectReply replyType reply _).mono ?_ ?_
      · rintro ⟨⟩ t h
        rw [h, List.append_nil]
        exact hcalled _ _
      · rintro panic t ⟨part, hpart, h⟩
        rw [List.prefix_nil.mp hpart, List.append_nil] at h
        exact ⟨_, List.prefix_rfl, h.trans (hcalled _ _)⟩

theorem emits_requireConsumed (token : Address) (before expected : Int) :
    Emits State.accesses (requireConsumed env token before expected)
      [.balance token env.contract] := by
  unfold requireConsumed
  refine (emits_balance _ _).cons_bind fun after => ?_
  exact (emits_checked _ _).silent_bind fun _ => emits_panicIf _ _

/-- The call of an edge names its amount in one place. -/
theorem Hop.unpriced_call (hop : Hop) (amount : Int) (outMin : Option Int) (deadline : UInt64) :
    (hop.call env amount outMin deadline).unpriced =
      (hop.call env 0 outMin deadline).unpriced := by
  unfold Hop.call
  split
  · rfl
  split
  · rfl
  · rfl

theorem emits_measuredLeg (hop : Hop) (amount : Int) (outMin : Option Int) (deadline : UInt64)
    (srcBefore outBefore : Int) (site : Guard) :
    Emits State.accesses (measuredLeg env hop amount outMin deadline srcBefore outBefore site)
      (hop.legAccesses env outMin deadline) := by
  unfold measuredLeg Hop.authorizedCall Hop.legAccesses
  rw [← hop.unpriced_call amount]
  refine (emits_authorizedCall _ _ _ _ _).bind fun _ => ?_
  refine (emits_requireConsumed _ _ _).cons_bind fun _ => ?_
  refine (emits_balance _ _).cons_bind fun after => ?_
  exact (emits_checked _ _).silent_bind fun _ => (emits_panicIf _ _).silent_bind fun _ => .pure _

/-- An edge that is not called has no accesses left. -/
theorem emits_measuredEdge (deadline : UInt64) (hop : Hop) (amount srcBefore outBefore : Int)
    (site : Guard) :
    Emits State.accesses (measuredEdge env deadline hop amount srcBefore outBefore site)
      (hop.legAccesses env none deadline) := by
  rcases measuredEdge_cases env deadline hop amount srcBefore outBefore site with
    ⟨_, _, heq⟩ | ⟨_, guard, _, hrun⟩
  · rw [heq]
    exact emits_measuredLeg _ _ _ _ _ _ _
  · intro s
    exact .of_error (hrun s) ⟨[], List.nil_prefix, (List.append_nil _).symm⟩

theorem emits_runHop (deadline : UInt64) (hop : Hop) (amount : Int) :
    Emits State.accesses (runHop env deadline hop amount) (hop.accesses env deadline) := by
  rw [runHop_eq]
  refine (emits_balance _ _).cons_bind fun outBefore => ?_
  refine (emits_balance _ _).cons_bind fun srcBefore => ?_
  exact emits_measuredEdge _ _ _ _ _ _

theorem emits_runFill (deadline : UInt64) (stageToken : Address) (fill : Fill) (amount : Int) :
    Emits State.accesses (runFill env deadline stageToken fill amount)
      (fill.accesses env stageToken deadline) := by
  rw [runFill_eq]
  refine (emits_balance _ _).cons_bind fun srcBefore => ?_
  refine (emits_balance _ _).cons_bind fun outBefore => ?_
  exact emits_measuredEdge _ _ _ _ _ _

/-! ## Plans -/

theorem emits_sumParts (parts : List UInt32) :
    Emits State.accesses (sumParts parts : Exec V Int) [] :=
  .silent_loop fun _ _ _ => emits_checked _ _

theorem emits_branchAmount (amount totalParts : Int) (count index : Nat) (parts : UInt32)
    (allocated : Int) :
    Emits State.accesses (branchAmount amount totalParts count index parts allocated : Exec V Int)
      [] :=
  .ite (emits_checked _ _) ((emits_checked _ _).silent_bind fun _ => .pure _)

theorem emits_hopStep (tokenIn tokenOut : Address) (deadline : UInt64) (hops : Vec Hop) (h : Nat)
    (hop : Hop) (hopIn : Int) :
    Emits State.accesses (hopStep env tokenIn tokenOut deadline hops h hop hopIn)
      (hop.accesses env deadline) := by
  unfold hopStep hopChecks
  refine Emits.silent_bind ?_ fun _ => emits_runHop deadline hop hopIn
  refine (emits_panicIf _ _).silent_bind fun _ => .ite ?_ ?_
  · exact (emits_panicIf _ _).silent_bind fun _ => emits_panicIf _ _
  · exact (emits_panicIf _ _).silent_bind fun _ => emits_panicIf _ _

theorem emits_strandStep (tokenIn tokenOut : Address) (amountIn totalParts : Int)
    (deadline : UInt64) (n i : Nat) (strand : Strand) (allocated : Int) :
    Emits State.accesses
      (strandStep env tokenIn tokenOut amountIn totalParts deadline n i strand allocated)
      (strand.hops.val.flatMap fun hop => hop.accesses env deadline) := by
  unfold strandStep
  refine (emits_branchAmount _ _ _ _ _ _).silent_bind fun strandIn => ?_
  refine (emits_checked _ _).silent_bind fun allocated => ?_
  refine (emits_panicIf _ _).silent_bind fun _ => ?_
  refine Emits.bind_silent ?_ fun _ => .pure _
  exact .loop (fun hop => hop.accesses env deadline) (fun i hop hopIn => emits_hopStep tokenIn
    tokenOut deadline strand.hops i hop hopIn) 0 strandIn

theorem emits_creditAvail (avail : Avail) (stageToken tokenOut : Address)
    (fillIn produced : Int) :
    Emits State.accesses (creditAvail avail stageToken tokenOut fillIn produced : Exec V Avail)
      [] := by
  unfold creditAvail
  refine (emits_checked _ _).silent_bind fun _ => ?_
  exact (emits_checked _ _).silent_bind fun _ => .pure _

theorem emits_fillStep (deadline : UInt64) (stageToken : Address) (bal totalParts : Int)
    (fcount fi : Nat) (fill : Fill) (acc : Int × Avail) :
    Emits State.accesses (fillStep env deadline stageToken bal totalParts fcount fi fill acc)
      (fill.accesses env stageToken deadline) := by
  unfold fillStep
  refine (emits_branchAmount _ _ _ _ _ _).silent_bind fun fillIn => ?_
  refine (emits_checked _ _).silent_bind fun allocated => ?_
  refine (emits_panicIf _ _).silent_bind fun _ => (emits_panicIf _ _).silent_bind fun _ => ?_
  refine (emits_runFill _ _ _ _).bind_silent fun produced => ?_
  exact (emits_creditAvail _ _ _ _ _).silent_bind fun _ => .pure _

theorem emits_stageHeader (stage : Stage) (bal : Int) :
    Emits State.accesses (stageHeader stage bal : Exec V Int) [] := by
  unfold stageHeader
  refine (emits_panicIf _ _).silent_bind fun _ => (emits_panicIf _ _).silent_bind fun _ => ?_
  refine (emits_sumParts _).silent_bind fun totalParts => ?_
  exact (emits_panicIf _ _).silent_bind fun _ => .pure _

theorem emits_stageStep (deadline : UInt64) (stage : Stage) (avail : Avail) :
    Emits State.accesses (stageStep env deadline stage avail)
      (stage.fills.val.flatMap fun fill => fill.accesses env stage.token deadline) := by
  unfold stageStep
  refine (emits_stageHeader _ _).silent_bind fun totalParts => ?_
  refine Emits.bind_silent ?_ fun _ => .pure _
  exact .loop (fun fill => fill.accesses env stage.token deadline) (fun i fill acc =>
    emits_fillStep deadline stage.token _ totalParts _ i fill acc) 0 (0, avail)

theorem emits_deadEndCheck (tokenOut : Address) (avail : Avail) :
    Emits State.accesses (deadEndCheck tokenOut avail : Exec V Unit) [] :=
  .silent_loop fun _ _ _ => emits_panicIf _ _

/-! ## Entry points -/

theorem emits_entryChecks (user tokenIn tokenOut : Address) (amountIn amountOutMin : Int)
    (deadline : UInt64) :
    Emits State.accesses (entryChecks env user tokenIn tokenOut amountIn amountOutMin deadline)
      [] := by
  unfold entryChecks requireAuth requireAmounts requireDistinct requireDeadline
  refine Emits.silent_bind (.ite (.pure ()) (.throw _ _)) fun _ => Emits.silent_bind ?_ fun _ => ?_
  · exact (emits_panicIf _ _).silent_bind fun _ => emits_panicIf _ _
  · exact (emits_panicIf _ _).silent_bind fun _ => emits_panicIf _ _

theorem emits_payOut (user tokenOut : Address) (amountOutMin out : Int) :
    Emits State.accesses (payOut env user tokenOut amountOutMin out)
      [.transfer tokenOut env.contract user] := by
  unfold payOut
  refine (emits_panicIf _ _).silent_bind fun _ => ?_
  exact (emits_transfer _ _ _ _).bind_silent fun _ => .pure _

theorem emits_directSwap (user : Address) (hop : Hop) (amountIn amountOutMin : I128)
    (deadline : UInt64) :
    Emits State.accesses (directSwap env user hop amountIn amountOutMin deadline)
      (directAccesses env user hop amountOutMin deadline) := by
  unfold directSwap directAccesses
  refine (emits_entryChecks _ _ _ _ _ _).silent_bind fun _ => ?_
  refine (emits_balance _ _).cons_bind fun outBefore => ?_
  refine (emits_transfer _ _ _ _).cons_bind fun _ => ?_
  refine (emits_balance _ _).cons_bind fun srcBefore => ?_
  exact (emits_measuredLeg _ _ _ _ _ _ _).bind fun out => emits_payOut _ _ _ _

theorem emits_forwardOutput (user tokenOut : Address) (outBefore amountOutMin : Int) :
    Emits State.accesses (forwardOutput env user tokenOut outBefore amountOutMin)
      [.balance tokenOut env.contract, .transfer tokenOut env.contract user] := by
  rw [forwardOutput_eq]
  refine (emits_balance _ _).cons_bind fun after => ?_
  refine (emits_checked _ _).silent_bind fun out => ?_
  exact (emits_panicIf _ _).silent_bind fun _ => emits_payOut _ _ _ _

theorem emits_swap (user tokenIn tokenOut : Address) (amountIn amountOutMin : I128)
    (deadline : UInt64) (plan : Vec Strand) :
    Emits State.accesses (swap env user tokenIn tokenOut amountIn amountOutMin deadline plan)
      (planAccesses env user tokenIn tokenOut (plan.val.flatMap fun strand =>
        strand.hops.val.flatMap fun hop => hop.accesses env deadline)) := by
  unfold swap planAccesses
  refine (emits_entryChecks _ _ _ _ _ _).silent_bind fun _ => ?_
  refine (emits_panicIf _ _).silent_bind fun _ => ?_
  refine (emits_balance _ _).cons_bind fun outBefore => ?_
  refine (emits_transfer _ _ _ _).cons_bind fun _ => ?_
  refine (emits_sumParts _).silent_bind fun totalParts => ?_
  refine (emits_panicIf _ _).silent_bind fun _ => ?_
  refine Emits.bind ?_ fun _ => emits_forwardOutput _ _ _ _
  exact .loop (fun strand => strand.hops.val.flatMap fun hop => hop.accesses env deadline)
    (fun i strand allocated => emits_strandStep tokenIn tokenOut amountIn totalParts deadline _ i
      strand allocated) 0 0

theorem emits_settleMerge (user tokenOut : Address) (outBefore amountOutMin trackedOut : Int) :
    Emits State.accesses (settleMerge env user tokenOut outBefore amountOutMin trackedOut)
      [.balance tokenOut env.contract, .transfer tokenOut env.contract user] := by
  unfold settleMerge
  refine (emits_balance _ _).cons_bind fun after => ?_
  refine (emits_checked _ _).silent_bind fun actualOut => ?_
  refine (emits_panicIf _ _).silent_bind fun _ => (emits_panicIf _ _).silent_bind fun _ => ?_
  refine (emits_panicIf _ _).silent_bind fun _ => ?_
  exact (emits_transfer _ _ _ _).bind_silent fun _ => .pure _

theorem emits_swapMerge (user tokenIn tokenOut : Address) (amountIn amountOutMin : I128)
    (deadline : UInt64) (stages : Vec Stage) :
    Emits State.accesses
      (swapMerge env user tokenIn tokenOut amountIn amountOutMin deadline stages)
      (planAccesses env user tokenIn tokenOut (stages.val.flatMap fun stage =>
        stage.fills.val.flatMap fun fill => fill.accesses env stage.token deadline)) := by
  unfold swapMerge mergeEntry planAccesses
  rw [bind_assoc]
  refine (emits_entryChecks _ _ _ _ _ _).silent_bind fun _ => ?_
  rw [bind_assoc]
  refine (emits_panicIf _ _).silent_bind fun _ => ?_
  rw [bind_assoc]
  refine (emits_balance _ _).cons_bind fun outBefore => ?_
  rw [bind_assoc]
  refine (emits_transfer _ _ _ _).cons_bind fun _ => ?_
  rw [pure_bind]
  refine Emits.bind ?_ fun avail => ?_
  · exact .loop (fun stage => stage.fills.val.flatMap fun fill => fill.accesses env stage.token
      deadline) (fun _ stage avail => emits_stageStep deadline stage avail) 0 _
  · exact (emits_deadEndCheck _ _).silent_bind fun _ => emits_settleMerge _ _ _ _ _

theorem emits_swapAquaThenSoroswap (user aquaRouter : Address) (aquaPoolTokens : Vec Address)
    (aquaPoolIndex : BytesN32) (tokenIn midToken soroswapRouter soroswapPool : Address)
    (soroswapPath : Vec Address) (tokenOut : Address) (amountIn amountOutMin : I128)
    (deadline : UInt64) :
    Emits State.accesses
      (swapAquaThenSoroswap env user aquaRouter aquaPoolTokens aquaPoolIndex tokenIn midToken
        soroswapRouter soroswapPool soroswapPath tokenOut amountIn amountOutMin deadline)
      ((EntryCall.swapAquaThenSoroswap user aquaRouter aquaPoolTokens aquaPoolIndex tokenIn
        midToken soroswapRouter soroswapPool soroswapPath tokenOut amountIn amountOutMin
        deadline).accesses env) := by
  rw [swapAquaThenSoroswap_eq]
  unfold EntryCall.accesses
  refine (emits_entryChecks _ _ _ _ _ _).silent_bind fun _ => ?_
  refine (emits_panicIf _ _).silent_bind fun _ => ?_
  refine (emits_balance _ _).cons_bind fun outBefore => ?_
  refine (emits_balance _ _).cons_bind fun midBefore => ?_
  refine (emits_transfer _ _ _ _).cons_bind fun _ => ?_
  refine (emits_balance _ _).cons_bind fun srcBefore => ?_
  refine (emits_measuredLeg _ _ _ _ _ _ _).bind fun midAmt => ?_
  exact (emits_measuredLeg _ _ _ _ _ _ _).bind fun out => emits_payOut _ _ _ _

/-- Every entry point has the accesses its arguments name. -/
theorem EntryCall.emits (call : EntryCall) :
    Emits State.accesses (call.run env) (call.accesses env) := by
  cases call with
  | swapSoroswap =>
      dsimp only [EntryCall.run]
      rw [swapSoroswap_eq]
      exact emits_directSwap _ _ _ _ _
  | swapAqua =>
      dsimp only [EntryCall.run]
      rw [swapAqua_eq]
      exact emits_directSwap _ _ _ _ _
  | swapPhoenix =>
      dsimp only [EntryCall.run]
      rw [swapPhoenix_eq]
      exact emits_directSwap _ _ _ _ _
  | swapAquaThenSoroswap =>
      exact emits_swapAquaThenSoroswap _ _ _ _ _ _ _ _ _ _ _ _ _
  | swap => exact emits_swap _ _ _ _ _ _ _
  | swapMerge => exact emits_swapMerge _ _ _ _ _ _ _

end Emits

end WowmaxStellar
