import WowmaxStellar.Router.Host
import WowmaxStellar.Router.Plan

/-!
# Guards

The checks every entry point runs before it moves anything, the checks on the
untrusted routing data of an edge, and the check that a venue took its input.
-/

namespace WowmaxStellar

variable {V : Type}

/-- `deadline == 0` means "no deadline"; Soroswap would read it as 1970. -/
def venueDeadline (deadline : UInt64) : UInt64 :=
  if deadline = 0 then 18446744073709551615 else deadline

def requireAmounts (amountIn amountOutMin : Int) : Exec V Unit := do
  panicIf (amountIn ≤ 0) .amountInNotPositive
  panicIf (amountOutMin < 0) .amountOutMinNegative

def requireDeadline (env : Env V) (deadline : UInt64) : Exec V Unit :=
  panicIf (deadline ≠ 0 ∧ env.timestamp > deadline) .deadlinePassed

/-- The venue must have taken exactly what it was handed. -/
def requireConsumed (env : Env V) (token : Address) (before expected : Int) : Exec V Unit := do
  let after ← balance token env.contract
  let taken ← checkedSub before after
  panicIf (taken ≠ expected) .inputNotConsumed

def requireSoroswapPath (path : Vec Address) (tokenIn tokenOut : Address) : Exec V Unit := do
  panicIf (path.len ≠ 2) .soroswapPathLength
  panicIf (path.val[0]? ≠ some tokenIn ∨ path.val[1]? ≠ some tokenOut) .soroswapPathEndpoints

/-- Order is pool-defined, so either arrangement of the pair is accepted. -/
def requireAquaTokens (tokens : Vec Address) (tokenIn tokenOut : Address) : Exec V Unit := do
  panicIf (tokens.len ≠ 2) .aquaPoolLength
  panicIf (¬ ((tokens.val[0]? = some tokenIn ∧ tokens.val[1]? = some tokenOut) ∨
      (tokens.val[0]? = some tokenOut ∧ tokens.val[1]? = some tokenIn))) .aquaPoolTokens

def requireDistinct (tokenIn tokenOut : Address) : Exec V Unit :=
  panicIf (tokenIn = tokenOut) .tokensEqual

/-- The checks in front of every entry point. -/
def entryChecks (env : Env V) (user tokenIn tokenOut : Address) (amountIn amountOutMin : Int)
    (deadline : UInt64) : Exec V Unit := do
  requireAuth env user
  requireAmounts amountIn amountOutMin
  requireDistinct tokenIn tokenOut
  requireDeadline env deadline

end WowmaxStellar
