import WowmaxStellar.Lib.Path
import WowmaxStellar.Adapters.Adapter
import Mathlib.Order.MinMax

/-!
# What a request asks for

The venues' reading of the requests: the trades a request orders, one after the other, and
the amounts it and its reply name, each with the token it is counted in.

* `Request.route` — the trades of a swap request;
* `Exchange.stated` — the amounts of an exchange;
* `convertToSwapsChain_eq`, `convertToSwaps_eq` — the encoders write the path down leg by leg;
* `chainRoute_legs` — and the chain is read back so.
-/

namespace WowmaxStellar.Adapters

open Paths

/-- The Aquarius pool a trade goes through. -/
structure Pool where
  tokens : List Address
  hash : BytesN32
deriving DecidableEq

/-- One trade of a route; `pool` where the request names one. -/
structure Trade where
  sell : Address
  buy : Address
  pool : Option Pool
deriving DecidableEq

def Trade.leg (trade : Trade) : Address × Address := (trade.sell, trade.buy)

/-- An Aquarius chain sells, in each link, what the link before it bought. -/
def chainRoute : Address → List ChainLink → List Trade
  | _, [] => []
  | held, (tokens, hash, tokenOut) :: rest =>
      ⟨held, tokenOut, some ⟨tokens.val, hash⟩⟩ :: chainRoute tokenOut rest

/-- A trade that leaves the pool to the venue. -/
def plainTrade (leg : Address × Address) : Trade := ⟨leg.1, leg.2, none⟩

/-- The trades a swap request orders; a simulation orders none. -/
def Request.route : Request → Option (List Trade)
  | .swapExactTokensForTokens _ _ path _ _ => some ((legs path.val).map plainTrade)
  | .swapTokensForExactTokens _ _ path _ _ => some ((legs path.val).map plainTrade)
  | .swapChained _ swapsChain tokenIn _ _ => some (chainRoute tokenIn swapsChain)
  | .swapChainedStrictReceive _ swapsChain tokenIn _ _ => some (chainRoute tokenIn swapsChain)
  | .swap _ operations _ _ _ _ _ =>
      some (operations.map fun op => plainTrade (op.offerAsset, op.askAsset))
  | .simulateReverseSwap .. => none
  | .swapExactAmountIn tokenIn _ tokenOut _ _ _ => some [plainTrade (tokenIn, tokenOut)]
  | .swapExactAmountOut tokenIn _ tokenOut _ _ _ => some [plainTrade (tokenIn, tokenOut)]

/-- The last token of a chain, with an amount of it. -/
def received (swapsChain : List ChainLink) (amount : Nat) : List (Address × Int) :=
  (swapsChain.getLast?.map fun link => (link.2.2, (amount : Int))).toList

/-- The first asset of a list of swaps, with an amount of it. -/
def offered (operations : List Swap) (amount : Int) : List (Address × Int) :=
  (operations.head?.map fun op => (op.offerAsset, amount)).toList

/-- The amounts an exchange names, each with its token. A reverse simulation lists its
swaps from the last one back, so its amount is of the first swap's ask asset and its answer
of the last swap's offer asset. -/
def Exchange.stated (exchange : Exchange) : List (Address × Int) :=
  match exchange.request, exchange.reply with
  | .swapExactTokensForTokens _ _ path _ _, .amounts values => path.val.zip (values.val.map (·.val))
  | .swapTokensForExactTokens _ _ path _ _, .amounts values => path.val.zip (values.val.map (·.val))
  | .swapChained _ swapsChain tokenIn inAmount _, .u128 outAmount =>
      (tokenIn, (inAmount : Int)) :: received swapsChain outAmount.val
  | .swapChainedStrictReceive _ swapsChain tokenIn outAmount _, .u128 inAmount =>
      (tokenIn, (inAmount.val : Int)) :: received swapsChain outAmount
  | .swap _ operations _ amount _ _ _, .unit => offered operations amount
  | .simulateReverseSwap operations amount _, .offer offerAmount =>
      (operations.head?.map fun op => (op.askAsset, amount)).toList ++
        (operations.getLast?.map fun op => (op.offerAsset, offerAmount.val)).toList
  | .swapExactAmountIn tokenIn amountIn tokenOut _ _ _, .amountAndPrice amountOut _ =>
      [(tokenIn, amountIn), (tokenOut, amountOut.val)]
  | .swapExactAmountOut tokenIn _ tokenOut amountOut _ _, .amountAndPrice amountIn _ =>
      [(tokenIn, amountIn.val), (tokenOut, amountOut)]
  | _, _ => []

/-! ## The encoders, leg by leg -/

/-- The link of an Aquarius chain for one leg. -/
def legLink (leg : Address × Address) (hash : BytesN32) : ChainLink :=
  (swapChainPath leg.1 leg.2, hash, leg.2)

/-- The swap of a Phoenix list for one leg. -/
def legSwap (leg : Address × Address) : Swap := ⟨leg.1, leg.2, none⟩

/-- The trade of a leg in the pool of its two tokens with the given hash. -/
def pooledTrade (leg : Address × Address) (hash : BytesN32) : Trade :=
  ⟨leg.1, leg.2, some ⟨[min leg.1 leg.2, max leg.1 leg.2], hash⟩⟩

theorem swapChainPath_val (tokenIn tokenOut : Address) :
    (swapChainPath tokenIn tokenOut).val = [min tokenIn tokenOut, max tokenIn tokenOut] := by
  unfold swapChainPath
  split
  · rename_i hlt
    rw [min_eq_left hlt.le, max_eq_right hlt.le]
    rfl
  · rename_i hge
    rw [min_eq_right (not_lt.mp hge), max_eq_left (not_lt.mp hge)]
    rfl

theorem path_ends (path : Vec Address) (hlen : 2 ≤ path.len) :
    ∃ first last, path.val.head? = some first ∧ path.val.getLast? = some last ∧
      path.val[0]? = some first ∧ path.val[path.len - 1]? = some last := by
  have hfirst : 0 < path.val.length := by
    show 0 < path.len
    omega
  have hlast : path.len - 1 < path.val.length := by
    show path.len - 1 < path.len
    omega
  refine ⟨path.val[0], path.val[path.len - 1], ?_, ?_, List.getElem?_eq_getElem hfirst,
    List.getElem?_eq_getElem hlast⟩
  · rw [List.head?_eq_getElem?]
    exact List.getElem?_eq_getElem hfirst
  · rw [List.getLast?_eq_getElem?]
    exact List.getElem?_eq_getElem hlast

/-- The Aquarius encoder writes one link per leg, with the hash at its index. -/
theorem convertToSwapsChain_eq {path : Vec Address} {poolHashesVec : Vec BytesN32}
    (hpath : 2 ≤ path.len) (hhashes : poolHashesVec.len = path.len - 1) :
    convertToSwapsChain path (some poolHashesVec) =
      .ok (List.zipWith legLink (legs path.val) poolHashesVec.val) := by
  have hlength : (List.zipWith legLink (legs path.val) poolHashesVec.val).length =
      path.len - 1 := by
    rw [List.length_zipWith, length_legs]
    show min (path.len - 1) poolHashesVec.len = _
    omega
  unfold convertToSwapsChain
  simp only
  rw [if_neg (by omega), if_neg (not_not.mpr hhashes), ← hlength]
  apply foldlM_push
  intro i link hlink
  obtain ⟨leg, hash, hleg, hhash, rfl⟩ := List.getElem?_zipWith_eq_some.mp hlink
  obtain ⟨hin, hout⟩ := getElem?_legs.mp hleg
  unfold chainLink
  rw [hin, hout, hhash]
  rfl

/-- The Aquarius encoder returns only for a path of two tokens or more with a hash for each
leg, and then one link per leg. -/
theorem convertToSwapsChain_ok {path : Vec Address} {bytes : Option (Vec BytesN32)}
    {swapsChain : List ChainLink} (h : convertToSwapsChain path bytes = .ok swapsChain) :
    ∃ poolHashesVec : Vec BytesN32, bytes = some poolHashesVec ∧ 2 ≤ path.len ∧
      poolHashesVec.len = path.len - 1 ∧
      swapsChain = List.zipWith legLink (legs path.val) poolHashesVec.val := by
  cases bytes with
  | none => cases h
  | some poolHashesVec =>
      by_cases hpath : path.len < 2
      · unfold convertToSwapsChain at h
        simp only [if_pos hpath] at h
        cases h
      by_cases hhashes : poolHashesVec.len = path.len - 1
      · rw [convertToSwapsChain_eq (by omega) hhashes] at h
        exact ⟨poolHashesVec, rfl, by omega, hhashes, (Except.ok.inj h).symm⟩
      · unfold convertToSwapsChain at h
        simp only [if_neg hpath, if_pos hhashes] at h
        cases h

/-- The Phoenix encoder writes one swap per leg. -/
theorem convertToSwaps_eq {path : Vec Address} (hpath : path.len ≠ 0) :
    convertToSwaps path = .ok ((legs path.val).map legSwap) := by
  have hlength : ((legs path.val).map legSwap).length = path.len - 1 := by
    rw [List.length_map, length_legs]
    rfl
  unfold convertToSwaps lenMinusOne
  rw [if_neg hpath, ← hlength]
  apply foldlM_push
  intro i swap hswap
  rw [List.getElem?_map, Option.map_eq_some_iff] at hswap
  obtain ⟨leg, hleg, rfl⟩ := hswap
  obtain ⟨hin, hout⟩ := getElem?_legs.mp hleg
  unfold swapAt
  rw [hin, hout]
  rfl

theorem convertToSwaps_ok {path : Vec Address} {swaps : List Swap}
    (h : convertToSwaps path = .ok swaps) : swaps = (legs path.val).map legSwap := by
  by_cases hpath : path.len = 0
  · unfold convertToSwaps lenMinusOne at h
    rw [if_pos hpath] at h
    cases h
  · rw [convertToSwaps_eq hpath] at h
    exact (Except.ok.inj h).symm

/-- Read from the first token of the path on, the chain trades leg by leg. -/
theorem chainRoute_legs (tokenIn : Address) (rest : List Address) (hashes : List BytesN32) :
    chainRoute tokenIn (List.zipWith legLink (legs (tokenIn :: rest)) hashes) =
      List.zipWith pooledTrade (legs (tokenIn :: rest)) hashes := by
  induction rest generalizing tokenIn hashes with
  | nil => rfl
  | cons tokenOut rest ih =>
      cases hashes with
      | nil => rfl
      | cons hash hashes =>
          rw [legs_cons_cons, List.zipWith_cons_cons, List.zipWith_cons_cons]
          show _ :: chainRoute tokenOut _ = _
          rw [ih, swapChainPath_val]
          rfl

end WowmaxStellar.Adapters
