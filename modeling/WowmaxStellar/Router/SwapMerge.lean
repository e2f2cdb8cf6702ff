import WowmaxStellar.Router.Swap
import Mathlib.Data.List.AList

/-!
# `swap_merge`: the stage executor

A stage splits everything the call holds of its token over its fills. What the call
holds is tracked in the availability map: the pulled input, plus the measured output
of every fill, minus what the fills were handed.
-/

namespace WowmaxStellar

open Runs

/-- The `avail` map of `swap_merge`. -/
abbrev Avail := AList fun _ : Address => Int

/-- `avail.get(token).unwrap_or(0)` -/
def Avail.amount (avail : Avail) (token : Address) : Int :=
  (AList.lookup token avail).getD 0

/-- `avail.set(token, amount)` -/
def Avail.assign (avail : Avail) (token : Address) (amount : Int) : Avail :=
  AList.insert token amount avail

@[simp] theorem Avail.amount_assign_self (avail : Avail) (token : Address) (amount : Int) :
    (avail.assign token amount).amount token = amount := by
  unfold Avail.amount Avail.assign
  rw [AList.lookup_insert]
  rfl

@[simp] theorem Avail.amount_assign_ne {token other : Address} (hne : other ≠ token)
    (avail : Avail) (amount : Int) :
    (avail.assign token amount).amount other = avail.amount other := by
  unfold Avail.amount Avail.assign
  rw [AList.lookup_insert_ne hne]

theorem Avail.amount_of_not_mem {avail : Avail} {token : Address} (h : token ∉ avail.keys) :
    avail.amount token = 0 := by
  have hnone : AList.lookup token avail = none :=
    AList.lookup_eq_none.mpr (fun hmem => h (AList.mem_keys.mp hmem))
  unfold Avail.amount
  rw [hnone]
  rfl

variable {V : Type} (env : Env V)

/-- Run one fill and measure what the venue delivered. -/
def runFill (deadline : UInt64) (stageToken : Address) (fill : Fill) (fillIn : Int) :
    Exec V Int := do
  let srcBefore ← balance stageToken env.contract
  let dstBefore ← balance fill.tokenOut env.contract
  execFill env stageToken fill fillIn deadline
  requireConsumed env stageToken srcBefore fillIn
  let dstAfter ← balance fill.tokenOut env.contract
  let produced ← checkedSub dstAfter dstBefore
  panicIf (produced ≤ 0) .fillNoOutput
  pure produced

/-- Move `fillIn` out of the stage token's entry and `produced` into the output's. -/
def creditAvail (avail : Avail) (stageToken tokenOut : Address) (fillIn produced : Int) :
    Exec V Avail := do
  let srcLeft ← checkedSub (avail.amount stageToken) fillIn
  let avail := avail.assign stageToken srcLeft
  -- read from the map that has been written to already
  let dstHave ← checkedAdd (avail.amount tokenOut) produced
  pure (avail.assign tokenOut dstHave)

/-- One turn of the fill loop; threads what is allocated so far and the map. -/
def fillStep (deadline : UInt64) (stageToken : Address) (bal totalParts : Int)
    (fcount fi : Nat) (fill : Fill) (acc : Int × Avail) : Exec V (Int × Avail) := do
  let fillIn ← branchAmount bal totalParts fcount fi fill.parts acc.1
  let allocated ← checkedAdd acc.1 fillIn
  panicIf (fill.tokenOut = stageToken) .degenerateFill
  -- a zero-weight branch, or a split too fine for the pooled amount
  panicIf (fillIn ≤ 0) .fillNotPositive
  let produced ← runFill env deadline stageToken fill fillIn
  let avail ← creditAvail acc.2 stageToken fill.tokenOut fillIn produced
  pure (allocated, avail)

/-- The checks of a stage before its first fill; returns its total parts. -/
def stageHeader (stage : Stage) (bal : Int) : Exec V Int := do
  panicIf (bal ≤ 0) .stageNoBalance
  panicIf (stage.fills.len = 0) .emptyStage
  let totalParts ← sumParts (stage.fills.val.map Fill.parts)
  panicIf (totalParts ≤ 0) .stagePartsZero
  pure totalParts

/-- One turn of the stage loop. -/
def stageStep (deadline : UInt64) (stage : Stage) (avail : Avail) : Exec V Avail := do
  let totalParts ← stageHeader stage (avail.amount stage.token)
  let acc ← loop (fillStep env deadline stage.token (avail.amount stage.token) totalParts
    stage.fills.len) 0 stage.fills.val (0, avail)
  pure acc.2

/-- The dead-end check over the keys of the availability map. -/
def deadEndCheck (tokenOut : Address) (avail : Avail) : Exec V Unit :=
  loop (fun _ k _ => panicIf (k ≠ tokenOut ∧ avail.amount k ≠ 0) .unconsumedBalance) 0
    avail.keys ()

/-- Check the gain against the tracked figure and pay it out. -/
def settleMerge (user tokenOut : Address) (outBefore amountOutMin trackedOut : Int) :
    Exec V Int := do
  let outAfter ← balance tokenOut env.contract
  let actualOut ← checkedSub outAfter outBefore
  -- the tracked figure is a lower bound: a venue may deliver more than its fill declares
  panicIf (actualOut < trackedOut) .accountingMismatch
  panicIf (actualOut ≤ 0) .noOutput
  panicIf (actualOut < amountOutMin) .amountOutMinNotMet
  transfer env tokenOut env.contract user actualOut
  pure actualOut

/-- Everything before the stage loop: checks, the first balance and the input pull.
Returns `out_before`. -/
def mergeEntry (user tokenIn tokenOut : Address) (amountIn amountOutMin : I128)
    (deadline : UInt64) (stages : Vec Stage) : Exec V Int := do
  entryChecks env user tokenIn tokenOut amountIn amountOutMin deadline
  panicIf (stages.len = 0) .emptyStages
  let outBefore ← balance tokenOut env.contract
  transfer env tokenIn user env.contract amountIn
  pure outBefore

/-- The availability map the stage loop starts from. -/
def initialAvail (tokenIn : Address) (amountIn : Int) : Avail :=
  Avail.assign ∅ tokenIn amountIn

theorem initialAvail_amount (tokenIn : Address) (amountIn : Int) (t : Address) :
    (initialAvail tokenIn amountIn).amount t = if t = tokenIn then amountIn else 0 := by
  unfold initialAvail
  by_cases ht : t = tokenIn
  · rw [ht, Avail.amount_assign_self, if_pos rfl]
  · rw [Avail.amount_assign_ne ht, if_neg ht]
    rfl

/-- Execute a list of stages. -/
def swapMerge (user tokenIn tokenOut : Address) (amountIn amountOutMin : I128)
    (deadline : UInt64) (stages : Vec Stage) : Exec V Int := do
  let outBefore ← mergeEntry env user tokenIn tokenOut amountIn amountOutMin deadline stages
  let avail ← loop (fun _ => stageStep env deadline) 0 stages.val
    (initialAvail tokenIn amountIn)
  deadEndCheck tokenOut avail
  settleMerge env user tokenOut outBefore amountOutMin (avail.amount tokenOut)

end WowmaxStellar
