import WowmaxStellar.Lib.Loop
import WowmaxStellar.Router.Direct

/-!
# `swap`: the strand executor

The input is split over parallel strands by integer parts, the last strand taking
the remainder; within a strand each hop consumes the measured output of the hop
before it.
-/

namespace WowmaxStellar

open Runs

variable {V : Type} (env : Env V)

/-- `total_parts += parts as i128` over the whole list. -/
def sumParts (parts : List UInt32) : Exec V Int :=
  loop (fun _ parts totalParts => checkedAdd totalParts (parts.toNat : Int)) 0 parts 0

/-- The amount of the branch at `index` out of `count`: the rounded-down proportion,
the last branch taking what is not allocated yet. -/
def branchAmount (amount totalParts : Int) (count index : Nat) (parts : UInt32)
    (allocated : Int) : Exec V Int :=
  if index = count - 1 then checkedSub amount allocated
  else do
    let scaled ← checkedMul amount (parts.toNat : Int)
    pure (scaled.tdiv totalParts)

/-- Token continuity of the hop at index `h` of a strand. -/
def hopChecks (tokenIn tokenOut : Address) (hops : Vec Hop) (h : Nat) (hop : Hop) :
    Exec V Unit := do
  panicIf (hop.tokenIn = hop.tokenOut) .degenerateHop
  -- otherwise the hop would spend whatever the executor happens to hold of its token
  if h = 0 then panicIf (hop.tokenIn ≠ tokenIn) .strandStart
  else panicIf (hops.val[h - 1]?.map Hop.tokenOut ≠ some hop.tokenIn) .hopMismatch
  panicIf (h = hops.len - 1 ∧ hop.tokenOut ≠ tokenOut) .strandEnd

/-- Run one hop and measure what the venue delivered. -/
def runHop (deadline : UInt64) (hop : Hop) (hopIn : Int) : Exec V Int := do
  let hopBefore ← balance hop.tokenOut env.contract
  let srcBefore ← balance hop.tokenIn env.contract
  execHop env hop hopIn deadline
  requireConsumed env hop.tokenIn srcBefore hopIn
  let hopAfter ← balance hop.tokenOut env.contract
  let out ← checkedSub hopAfter hopBefore
  panicIf (out ≤ 0) .hopNoOutput
  pure out

/-- One turn of the hop loop: the next hop is fed what the last one produced. -/
def hopStep (tokenIn tokenOut : Address) (deadline : UInt64) (hops : Vec Hop) (h : Nat)
    (hop : Hop) (hopIn : Int) : Exec V Int := do
  hopChecks tokenIn tokenOut hops h hop
  runHop env deadline hop hopIn

/-- One turn of the strand loop; threads what is allocated so far. -/
def strandStep (tokenIn tokenOut : Address) (amountIn totalParts : Int) (deadline : UInt64)
    (n s : Nat) (strand : Strand) (allocated : Int) : Exec V Int := do
  let strandIn ← branchAmount amountIn totalParts n s strand.parts allocated
  let allocated ← checkedAdd allocated strandIn
  panicIf (strand.hops.len = 0) .emptyStrand
  let _ ← loop (hopStep env tokenIn tokenOut deadline strand.hops) 0 strand.hops.val strandIn
  pure allocated

/-- Execute a plan of parallel strands. -/
def swap (user tokenIn tokenOut : Address) (amountIn amountOutMin : I128) (deadline : UInt64)
    (plan : Vec Strand) : Exec V Int := do
  entryChecks env user tokenIn tokenOut amountIn amountOutMin deadline
  panicIf (plan.len = 0) .emptyPlan
  let outBefore ← balance tokenOut env.contract
  transfer env tokenIn user env.contract amountIn
  let totalParts ← sumParts (plan.val.map Strand.parts)
  panicIf (totalParts ≤ 0) .totalPartsZero
  let _ ← loop (strandStep env tokenIn tokenOut amountIn totalParts deadline plan.len) 0
    plan.val 0
  forwardOutput env user tokenOut outBefore amountOutMin

end WowmaxStellar
