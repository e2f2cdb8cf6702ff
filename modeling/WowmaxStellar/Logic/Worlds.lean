import WowmaxStellar.Lib.View
import WowmaxStellar.Logic.Agreement
import WowmaxStellar.Logic.MergeRuns

/-!
# Runs see the world only

The executor has no storage, and an authorisation is given right before the call it is for. So
all a fill or a stage knows of what came before it is the ledger, the venues, and, for a
stage, the amounts in the availability map.

* `sees_runFill` — one fill;
* `stageStep_sameAmounts`, `stages_sameAmounts` — stages, on maps that show the same.
-/

namespace WowmaxStellar

open Runs

variable {V : Type} {env : Env V}

theorem sees_panicIf (c : Prop) [Decidable c] (site : Guard) :
    Sees State.world (panicIf c site : Exec V Unit) :=
  .ite (.throw _) (.pure _)

theorem sees_checked (op : ArithOp) (x : Int) : Sees State.world (checked op x : Exec V Int) :=
  .ite (.pure _) (.throw _)

theorem sees_balance (token holder : Address) :
    Sees State.world (balance token holder : Exec V Int) := by
  intro s t h
  have hledger : s.ledger = t.ledger := congrArg World.ledger h
  show (Except.ok (s.ledger.balance token holder), s.world) =
    (Except.ok (t.ledger.balance token holder), t.world)
  rw [hledger, h]

theorem sees_transfer (token src dst : Address) (amount : Int) :
    Sees State.world (transfer env token src dst amount) := by
  intro s t h
  have hledger : s.ledger = t.ledger := congrArg World.ledger h
  have hvenues : s.venues = t.venues := congrArg World.venues h
  unfold transfer
  rw [hledger, hvenues]
  split
  · exact congrArg (Prod.mk _) h
  split
  · exact congrArg (Prod.mk _) h
  cases t.ledger.transfer token src dst amount with
  | error e => exact congrArg (Prod.mk _) h
  | ok ledger =>
      show (Except.ok (), World.mk ledger s.venues) = (Except.ok (), World.mk ledger t.venues)
      rw [hvenues]

theorem sees_expectReply (replyType : ReplyType) (reply : Reply) :
    Sees State.world (expectReply replyType reply : Exec V Unit) := by
  cases replyType <;> cases reply
  case amounts.amounts values => exact sees_panicIf _ _
  case u128.u128 => exact .pure ()
  case i128.i128 => exact .pure ()
  all_goals exact .throw _

/-- The authorisations in force are those of the call itself. -/
theorem sees_authorizedCall (token target : Address) (amount : Int) (call : VenueCall)
    (replyType : ReplyType) :
    Sees State.world (authorizedCall env token target amount call replyType) := by
  intro s t h
  have hledger : s.ledger = t.ledger := congrArg World.ledger h
  have hvenues : s.venues = t.venues := congrArg World.venues h
  rw [authorizedCall_eq, authorizedCall_eq, hledger, hvenues]
  cases env.settle t.venues t.ledger [⟨token, env.contract, target, amount⟩] call with
  | error e => rfl
  | ok result =>
      obtain ⟨ledger, venues, reply⟩ := result
      exact sees_expectReply replyType reply _ _ rfl

theorem sees_requireConsumed (token : Address) (before expected : Int) :
    Sees State.world (requireConsumed env token before expected) := by
  unfold requireConsumed
  refine (sees_balance _ _).bind fun after => ?_
  exact (sees_checked _ _).bind fun _ => sees_panicIf _ _

theorem sees_execHop (hop : Hop) (amount : Int) (deadline : UInt64) :
    Sees State.world (execHop env hop amount deadline) := by
  unfold execHop
  refine .ite ?_ (.ite ?_ (.ite ?_ (.throw _)))
  · refine (sees_panicIf _ _).bind fun _ => Sees.bind ?_ fun _ => sees_authorizedCall _ _ _ _ _
    exact (sees_panicIf _ _).bind fun _ => sees_panicIf _ _
  · refine (sees_panicIf _ _).bind fun _ => Sees.bind ?_ fun _ => sees_authorizedCall _ _ _ _ _
    exact (sees_panicIf _ _).bind fun _ => sees_panicIf _ _
  · exact (sees_panicIf _ _).bind fun _ => sees_authorizedCall _ _ _ _ _

theorem sees_runFill (deadline : UInt64) (stageToken : Address) (fill : Fill) (amount : Int) :
    Sees State.world (runFill env deadline stageToken fill amount) := by
  unfold runFill
  refine (sees_balance _ _).bind fun _ => (sees_balance _ _).bind fun _ => ?_
  rw [execFill_eq_execHop]
  refine (sees_execHop _ _ _).bind fun _ => (sees_requireConsumed _ _ _).bind fun _ => ?_
  refine (sees_balance _ _).bind fun _ => (sees_checked _ _).bind fun _ => ?_
  exact (sees_panicIf _ _).bind fun _ => .pure _

theorem sees_sumParts (parts : List UInt32) : Sees State.world (sumParts parts : Exec V Int) :=
  .loop fun _ _ _ => sees_checked _ _

theorem sees_branchAmount (amount totalParts : Int) (count index : Nat) (parts : UInt32)
    (allocated : Int) :
    Sees State.world (branchAmount amount totalParts count index parts allocated : Exec V Int) :=
  .ite (sees_checked _ _) ((sees_checked _ _).bind fun _ => .pure _)

theorem sees_stageHeader (stage : Stage) (bal : Int) :
    Sees State.world (stageHeader stage bal : Exec V Int) := by
  unfold stageHeader
  refine (sees_panicIf _ _).bind fun _ => (sees_panicIf _ _).bind fun _ => ?_
  exact (sees_sumParts _).bind fun _ => (sees_panicIf _ _).bind fun _ => .pure _

theorem sees_requireAuth (user : Address) : Sees State.world (requireAuth env user) :=
  .ite (.pure _) (.throw _)

theorem sees_entryChecks (user tokenIn tokenOut : Address) (amountIn amountOutMin : Int)
    (deadline : UInt64) :
    Sees State.world (entryChecks env user tokenIn tokenOut amountIn amountOutMin deadline) := by
  unfold entryChecks requireAmounts requireDistinct requireDeadline
  refine (sees_requireAuth user).bind fun _ => Sees.bind ?_ fun _ => ?_
  · exact (sees_panicIf _ _).bind fun _ => sees_panicIf _ _
  · exact (sees_panicIf _ _).bind fun _ => sees_panicIf _ _

theorem sees_settleMerge (user tokenOut : Address) (outBefore amountOutMin trackedOut : Int) :
    Sees State.world (settleMerge env user tokenOut outBefore amountOutMin trackedOut) := by
  unfold settleMerge
  refine (sees_balance _ _).bind fun _ => (sees_checked _ _).bind fun _ => ?_
  refine (sees_panicIf _ _).bind fun _ => (sees_panicIf _ _).bind fun _ => ?_
  exact (sees_panicIf _ _).bind fun _ => (sees_transfer _ _ _ _).bind fun _ => .pure _

/-! ## Stages on maps that show the same -/

/-- The amounts in two maps are the same, and so are the two worlds. -/
def SameAmounts (avail avail' : Avail) (s t : State V) : Prop :=
  avail.amount = avail'.amount ∧ s.world = t.world

theorem Avail.amount_assign (avail : Avail) (token : Address) (amount : Int) :
    (avail.assign token amount).amount = Function.update avail.amount token amount := by
  funext t
  by_cases h : t = token
  · subst h
    rw [Avail.amount_assign_self, Function.update_self]
  · rw [Avail.amount_assign_ne h, Function.update_of_ne h]

section Stages

variable {X : Panic → Prop} {s t : State V} {avail avail' : Avail}

theorem creditAvail_sameAmounts (stageToken tokenOut : Address) (fillIn produced : Int)
    (h : SameAmounts avail avail' s t) :
    Lockstep X (fun _ _ _ _ => True) SameAmounts
      (creditAvail avail stageToken tokenOut fillIn produced s)
      (creditAvail avail' stageToken tokenOut fillIn produced t) := by
  obtain ⟨hamount, hworld⟩ := h
  unfold creditAvail
  rw [hamount]
  refine (sees_checked _ _).lockstep_bind hworld fun srcLeft s t hworld => ?_
  simp only [Avail.amount_assign, hamount]
  refine (sees_checked _ _).lockstep_bind hworld fun dstHave s t hworld => ?_
  refine ⟨?_, hworld⟩
  simp only [Avail.amount_assign, hamount]

/-- What a fill loop threads shows the same on both sides. -/
def SameProgress (acc acc' : Int × Avail) (s t : State V) : Prop :=
  acc.1 = acc'.1 ∧ SameAmounts acc.2 acc'.2 s t

theorem fillStep_sameProgress (deadline : UInt64) (stageToken : Address) (bal totalParts : Int)
    (fcount fi : Nat) (fill : Fill) {acc acc' : Int × Avail} (h : SameProgress acc acc' s t) :
    Lockstep X (fun _ _ _ _ => True) SameProgress
      (fillStep env deadline stageToken bal totalParts fcount fi fill acc s)
      (fillStep env deadline stageToken bal totalParts fcount fi fill acc' t) := by
  obtain ⟨hallocated, hamount, hworld⟩ := h
  unfold fillStep
  rw [hallocated]
  refine (sees_branchAmount _ _ _ _ _ _).lockstep_bind hworld fun fillIn s t hworld => ?_
  refine (sees_checked _ _).lockstep_bind hworld fun allocated s t hworld => ?_
  refine (sees_panicIf _ _).lockstep_bind hworld fun _ s t hworld => ?_
  refine (sees_panicIf _ _).lockstep_bind hworld fun _ s t hworld => ?_
  refine (sees_runFill _ _ _ _).lockstep_bind hworld fun produced s t hworld => ?_
  refine (creditAvail_sameAmounts stageToken fill.tokenOut fillIn produced
    ⟨hamount, hworld⟩).bind ?_
  rintro avail avail' s t - - hsame
  exact ⟨rfl, hsame⟩

/-- A stage knows of the map what it shows. -/
theorem stageStep_sameAmounts (deadline : UInt64) (stage : Stage)
    (h : SameAmounts avail avail' s t) :
    Lockstep X (fun _ _ _ _ => True) SameAmounts (stageStep env deadline stage avail s)
      (stageStep env deadline stage avail' t) := by
  obtain ⟨hamount, hworld⟩ := h
  unfold stageStep
  rw [hamount]
  refine (sees_stageHeader _ _).lockstep_bind hworld fun totalParts s t hworld => ?_
  refine Lockstep.bind (R := SameProgress) ?_ ?_
  · refine Lockstep.loop (I := fun _ => SameProgress) ?_ ⟨rfl, hamount, hworld⟩
    intro done fill rest _ acc acc' s t hsame
    exact fillStep_sameProgress deadline stage.token _ totalParts _ done.length fill hsame
  · rintro acc acc' s t - - hsame
    exact hsame.2

theorem stages_sameAmounts (deadline : UInt64) (stages : List Stage)
    (h : SameAmounts avail avail' s t) :
    Lockstep X (fun _ _ _ _ => True) SameAmounts
      (loop (fun _ => stageStep env deadline) 0 stages avail s)
      (loop (fun _ => stageStep env deadline) 0 stages avail' t) := by
  refine Lockstep.loop (I := fun _ => SameAmounts) ?_ h
  intro done stage rest _ avail avail' s t hsame
  exact stageStep_sameAmounts deadline stage hsame

end Stages

end WowmaxStellar
