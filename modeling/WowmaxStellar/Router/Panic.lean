import WowmaxStellar.Soroban.Ledger

/-!
# Panics of the executor

Every way in which a call of the executor can fail: one of its own `panic!`s, a
checked `i128` operation that overflows, or an error of the host (a token or venue
call that fails).
-/

namespace WowmaxStellar

/-- The executor's `panic!` sites, one constructor a message. -/
inductive Guard
  | amountInNotPositive
  | amountOutMinNegative
  | deadlinePassed
  | inputNotConsumed
  | soroswapPathLength
  | soroswapPathEndpoints
  | aquaPoolLength
  | aquaPoolTokens
  | tokensEqual
  | emptyRouterResponse
  | noOutput
  | amountOutMinNotMet
  | midTokenNotDistinct
  | legOneNoOutput
  | emptyPlan
  | totalPartsZero
  | emptyStrand
  | degenerateHop
  | strandStart
  | hopMismatch
  | strandEnd
  | badVenue
  | hopNoOutput
  | emptyStages
  | stageNoBalance
  | emptyStage
  | stagePartsZero
  | degenerateFill
  | fillNotPositive
  | fillNoOutput
  | unconsumedBalance
  | accountingMismatch
  | hopAmountNotPositive
deriving DecidableEq, Repr

/-- The message each site panics with. -/
def Guard.message : Guard → String
  | .amountInNotPositive => "amount_in must be positive"
  | .amountOutMinNegative => "amount_out_min must be non-negative"
  | .deadlinePassed => "deadline passed"
  | .inputNotConsumed => "venue did not consume the exact input"
  | .soroswapPathLength => "soroswap path must be [token_in, token_out]"
  | .soroswapPathEndpoints => "soroswap path endpoints mismatch"
  | .aquaPoolLength => "aqua pool must have exactly two tokens"
  | .aquaPoolTokens => "aqua pool tokens do not match the hop"
  | .tokensEqual => "token_in equals token_out"
  | .emptyRouterResponse => "empty router response"
  | .noOutput => "no output"
  | .amountOutMinNotMet => "amount_out_min not met"
  | .midTokenNotDistinct => "mid_token must differ from token_in and token_out"
  | .legOneNoOutput => "leg 1 produced no output"
  | .emptyPlan => "empty plan"
  | .totalPartsZero => "total parts zero"
  | .emptyStrand => "empty strand"
  | .degenerateHop => "degenerate hop"
  | .strandStart => "strand must start at token_in"
  | .hopMismatch => "hop token mismatch"
  | .strandEnd => "strand must end at token_out"
  | .badVenue => "bad venue"
  | .hopNoOutput => "hop produced no output"
  | .emptyStages => "empty stages"
  | .stageNoBalance => "stage token has no current-call balance"
  | .emptyStage => "empty stage"
  | .stagePartsZero => "stage parts zero"
  | .degenerateFill => "degenerate fill"
  | .fillNotPositive => "fill amount must be positive"
  | .fillNoOutput => "fill produced no output"
  | .unconsumedBalance => "plan leaves an unconsumed balance"
  | .accountingMismatch => "accounting mismatch"
  | .hopAmountNotPositive => "hop amount must be positive"

/-- The checked `i128` operations; the release profile keeps overflow checks on. -/
inductive ArithOp
  | add
  | sub
  | mul
deriving DecidableEq, Repr

/-- Why a call of the executor failed. -/
inductive Panic
  | guard (site : Guard)
  | overflow (op : ArithOp)
  | host (error : HostError)
deriving DecidableEq, Repr

end WowmaxStellar
