import WowmaxStellar.Adapters.Routes

/-!
# The route encoders

The Aquarius encoder turns a path and its pool hashes into a chain of links, the Phoenix
encoder a path into a list of swaps. Both keep everything: the path and the hashes can be
read off again. Both know the way back: the encoding of the reversed path goes through the
same pools from the last one on.

* `convertToSwapsChain_lossless`, `convertToSwapsChain_rejects` — the Aquarius chain;
* `convertToSwaps_lossless` — the Phoenix list, and what the reverse simulation is given;
* `encoders_lossless` — the result.
-/

namespace WowmaxStellar.Adapters

open Paths

/-! ## Aquarius -/

/-- The path as read off a chain: where it starts, and the token each link buys. -/
def chainTokens (tokenIn : Address) (swapsChain : List ChainLink) : List Address :=
  tokenIn :: swapsChain.map fun link => link.2.2

def chainHashes (swapsChain : List ChainLink) : List BytesN32 :=
  swapsChain.map fun link => link.2.1

/-- The pools of a chain: the two tokens and the hash of each. -/
def chainPools (swapsChain : List ChainLink) : List (List Address × BytesN32) :=
  swapsChain.map fun link => (link.1.val, link.2.1)

/-- A chain keeps the path and the hashes, pairs them leg by leg, and is the way back of the
chain of the reversed path. -/
structure ChainLossless (path : Vec Address) (poolHashesVec : Vec BytesN32)
    (swapsChain : List ChainLink) : Prop where
  tokens : ∃ tokenIn, path.val.head? = some tokenIn ∧ chainTokens tokenIn swapsChain = path.val
  hashes : chainHashes swapsChain = poolHashesVec.val
  pairs : ∀ i a b, path.val[i]? = some a → path.val[i + 1]? = some b →
    swapsChain[i]?.map (fun link => link.1.val) = some [min a b, max a b]
  backwards : ∃ back, convertToSwapsChain path.reverse (some poolHashesVec.reverse) = .ok back ∧
    chainPools back = (chainPools swapsChain).reverse

/-- A path and hashes the Aquarius encoder is made for. -/
def Chainable (path : Vec Address) (bytes : Option (Vec BytesN32)) : Prop :=
  ∃ poolHashesVec, bytes = some poolHashesVec ∧ 2 ≤ path.len ∧ poolHashesVec.len = path.len - 1

section Aqua

variable {path : Vec Address} {poolHashesVec : Vec BytesN32}

theorem exists_head?_of_len (hpath : 2 ≤ path.len) :
    ∃ tokenIn rest, path.val = tokenIn :: rest := by
  cases hval : path.val with
  | nil =>
      have hlen : path.val.length = 0 := by rw [hval]; rfl
      have hpath : 2 ≤ path.val.length := hpath
      omega
  | cons tokenIn rest => exact ⟨tokenIn, rest, rfl⟩

theorem chainPools_zipWith (legs : List (Address × Address)) (hashes : List BytesN32) :
    chainPools (List.zipWith legLink legs hashes) =
      List.zipWith (fun leg hash => ([min leg.1 leg.2, max leg.1 leg.2], hash)) legs hashes := by
  unfold chainPools
  rw [List.map_zipWith]
  congr 1
  funext leg hash
  unfold legLink
  rw [swapChainPath_val]

theorem convertToSwapsChain_lossless (hpath : 2 ≤ path.len)
    (hhashes : poolHashesVec.len = path.len - 1) :
    ∃ swapsChain, convertToSwapsChain path (some poolHashesVec) = .ok swapsChain ∧
      ChainLossless path poolHashesVec swapsChain := by
  have hlength : (legs path.val).length = poolHashesVec.val.length := by
    rw [length_legs]
    exact hhashes.symm
  refine ⟨_, convertToSwapsChain_eq hpath hhashes, ?_⟩
  exact
    { tokens := by
        obtain ⟨tokenIn, rest, hval⟩ := exists_head?_of_len hpath
        refine ⟨tokenIn, by rw [hval]; rfl, ?_⟩
        unfold chainTokens
        rw [List.map_zipWith]
        show tokenIn :: List.zipWith (fun leg _ => Prod.snd leg) _ _ = _
        rw [zipWith_left Prod.snd hlength, hval, cons_map_legs]
      hashes := by
        unfold chainHashes
        rw [List.map_zipWith]
        show List.zipWith (fun _ hash => id hash) _ _ = _
        rw [zipWith_right id hlength, List.map_id]
      pairs := by
        intro i a b ha hb
        have hleg : (legs path.val)[i]? = some (a, b) := getElem?_legs.mpr ⟨ha, hb⟩
        have hi : i < poolHashesVec.val.length := by
          rw [← hlength]
          exact (List.getElem?_eq_some_iff.mp hleg).1
        rw [List.getElem?_zipWith, hleg, List.getElem?_eq_getElem hi]
        show some (swapChainPath a b).val = _
        rw [swapChainPath_val]
      backwards := by
        refine ⟨_, convertToSwapsChain_eq ?_ ?_, ?_⟩
        · rw [Vec.len_reverse]
          exact hpath
        · rw [Vec.len_reverse, Vec.len_reverse]
          exact hhashes
        -- a pool's tokens are in the order of their addresses, whichever way it is crossed
        rw [chainPools_zipWith, chainPools_zipWith, List.reverse_zipWith hlength, Vec.reverse_val,
          Vec.reverse_val, legs_reverse, ← List.map_reverse, List.zipWith_map_left]
        congr 1
        funext leg hash
        rw [Prod.fst_swap, Prod.snd_swap, min_comm, max_comm] }

/-- Anything else is refused with one of three errors, and without a panic. -/
theorem convertToSwapsChain_rejects {bytes : Option (Vec BytesN32)}
    (hrejected : ¬ Chainable path bytes) :
    ∃ error ∈ [AdapterError.missingPoolHashes, .wrongMinimumPathLength, .wrongPoolHashesLength],
      convertToSwapsChain path bytes = .error (.adapter error) := by
  cases bytes with
  | none => exact ⟨.missingPoolHashes, by simp, rfl⟩
  | some poolHashesVec =>
      unfold convertToSwapsChain
      simp only
      by_cases hpath : path.len < 2
      · exact ⟨.wrongMinimumPathLength, by simp, by rw [if_pos hpath]⟩
      · have hhashes : poolHashesVec.len ≠ path.len - 1 := by
          intro hlen
          exact hrejected ⟨poolHashesVec, rfl, by omega, hlen⟩
        exact ⟨.wrongPoolHashesLength, by simp, by rw [if_neg hpath, if_pos hhashes]⟩

end Aqua

/-! ## Phoenix -/

/-- The swap the other way round. -/
def Swap.exchanged (swap : Swap) : Swap :=
  { swap with offerAsset := swap.askAsset, askAsset := swap.offerAsset }

/-- The path as read off a list of swaps. -/
def swapTokens (swaps : List Swap) : List Address :=
  (swaps.head?.map Swap.offerAsset).toList ++ swaps.map Swap.askAsset

/-- A list of swaps goes from token to token along the path and keeps it. Reversed, it is
the list of the reversed path with offer and ask exchanged, and that is what the exact-output
swap gives to the reverse simulation. -/
structure SwapsLossless (path : Vec Address) (swaps : List Swap) : Prop where
  length : swaps.length + 1 = path.len
  linked : ∀ i swap next, swaps[i]? = some swap → swaps[i + 1]? = some next →
    swap.askAsset = next.offerAsset
  tokens : swapTokens swaps = path.val
  backwards : ∃ back, convertToSwaps path.reverse = .ok back ∧
    swaps.reverse = back.map Swap.exchanged ∧
    ∀ {V : Type} (env : Env V) (amountOut amountInMax : Int) (recipient : Address),
      Phoenix.protocolSwapTokensForExactTokens env amountOut amountInMax path recipient = do
        let phoenixMultihop ← getProtocolAddress
        let offerAmount ← callVenue env phoenixMultihop
          (.simulateReverseSwap (back.map Swap.exchanged) amountOut .xyk) Reply.offer?
        panicIf (offerAmount > amountInMax) .amountInAboveMax
        callVenue env phoenixMultihop
          (.swap recipient swaps none offerAmount .xyk none none) Reply.unit?
        pure [offerAmount, amountOut]

theorem convertToSwaps_lossless {path : Vec Address} (hpath : 2 ≤ path.len) :
    ∃ swaps, convertToSwaps path = .ok swaps ∧ SwapsLossless path swaps := by
  have hlength : ((legs path.val).map legSwap).length = path.len - 1 := by
    rw [List.length_map, length_legs]
    rfl
  have hforward : convertToSwaps path = .ok ((legs path.val).map legSwap) :=
    convertToSwaps_eq (by omega)
  have hback : convertToSwaps path.reverse = .ok ((legs path.reverse.val).map legSwap) := by
    apply convertToSwaps_eq
    rw [Vec.len_reverse]
    omega
  have hreverse : ((legs path.val).map legSwap).reverse =
      ((legs path.reverse.val).map legSwap).map Swap.exchanged := by
    rw [Vec.reverse_val, legs_reverse, ← List.map_reverse, ← List.map_reverse, List.map_map,
      List.map_map]
    rfl
  refine ⟨_, hforward, ?_⟩
  exact
    { length := by
        rw [hlength]
        omega
      linked := by
        intro i swap next hswap hnext
        rw [List.getElem?_map, Option.map_eq_some_iff] at hswap hnext
        obtain ⟨leg, hleg, rfl⟩ := hswap
        obtain ⟨leg', hleg', rfl⟩ := hnext
        have harrives := (getElem?_legs.mp hleg).2
        have hleaves := (getElem?_legs.mp hleg').1
        exact Option.some.inj (harrives.symm.trans hleaves)
      tokens := by
        obtain ⟨tokenIn, rest, hval⟩ := exists_head?_of_len hpath
        unfold swapTokens
        rw [List.head?_map, Option.map_map]
        show ((legs path.val).head?.map Prod.fst).toList ++ _ = _
        rw [head?_legs hpath, hval, List.map_map]
        exact cons_map_legs tokenIn rest
      backwards := by
        refine ⟨_, hback, hreverse, ?_⟩
        intro V env amountOut amountInMax recipient
        unfold Phoenix.protocolSwapTokensForExactTokens
        rw [hforward, ← hreverse]
        rfl }

/-! ## Both -/

/-- **The encoders lose nothing.** -/
theorem encoders_lossless (path : Vec Address) (bytes : Option (Vec BytesN32)) :
    (∀ poolHashesVec, bytes = some poolHashesVec → 2 ≤ path.len →
        poolHashesVec.len = path.len - 1 →
        ∃ swapsChain, convertToSwapsChain path bytes = .ok swapsChain ∧
          ChainLossless path poolHashesVec swapsChain) ∧
      (¬ Chainable path bytes →
        ∃ error ∈
            [AdapterError.missingPoolHashes, .wrongMinimumPathLength, .wrongPoolHashesLength],
          convertToSwapsChain path bytes = .error (.adapter error)) ∧
      (2 ≤ path.len → ∃ swaps, convertToSwaps path = .ok swaps ∧ SwapsLossless path swaps) := by
  refine ⟨?_, convertToSwapsChain_rejects, convertToSwaps_lossless⟩
  rintro poolHashesVec rfl hpath hhashes
  exact convertToSwapsChain_lossless hpath hhashes

/-- A path whose addresses go down and up again. -/
theorem encoders_lossless_zigzag :
    (∃ swapsChain, convertToSwapsChain ⟨[⟨30⟩, ⟨10⟩, ⟨20⟩], by decide⟩
        (some (.pair (.replicate 32 1) (.replicate 32 2))) = .ok swapsChain ∧
      ChainLossless ⟨[⟨30⟩, ⟨10⟩, ⟨20⟩], by decide⟩ (.pair (.replicate 32 1) (.replicate 32 2))
        swapsChain) ∧
    ∃ swaps, convertToSwaps ⟨[⟨30⟩, ⟨10⟩, ⟨20⟩], by decide⟩ = .ok swaps ∧
      SwapsLossless ⟨[⟨30⟩, ⟨10⟩, ⟨20⟩], by decide⟩ swaps := by
  have hboth := encoders_lossless ⟨[⟨30⟩, ⟨10⟩, ⟨20⟩], by decide⟩
    (some (.pair (.replicate 32 1) (.replicate 32 2)))
  exact ⟨hboth.1 _ rfl (by decide) (by decide), hboth.2.2 (by decide)⟩

end WowmaxStellar.Adapters
