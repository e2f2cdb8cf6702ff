import WowmaxStellar.Adapters.Host

/-!
# Route encoders

How a path becomes what a venue takes: a chain of pool triples for Aquarius, a list of
swaps for Phoenix. Both are built by a loop over the indices of the path that pushes one
element per consecutive pair. Soroswap takes the path itself and Comet two tokens.
-/

namespace WowmaxStellar.Adapters

/-- The tokens of an Aquarius pool, in the order of their addresses. -/
def swapChainPath (tokenIn tokenOut : Address) : Vec Address :=
  if tokenIn < tokenOut then .pair tokenIn tokenOut else .pair tokenOut tokenIn

/-- The body of the Aquarius loop. -/
def chainLink (path : Vec Address) (poolHashesVec : Vec BytesN32) (i : Nat) :
    Except Fault ChainLink := do
  let tokenIn ← expect .unwrapNone path.val[i]?
  let tokenOut ← expect .unwrapNone path.val[i + 1]?
  let poolHash ← expect .unwrapNone poolHashesVec.val[i]?
  pure (swapChainPath tokenIn tokenOut, poolHash, tokenOut)

def convertToSwapsChain (path : Vec Address) (bytes : Option (Vec BytesN32)) :
    Except Fault (List ChainLink) :=
  match bytes with
  | none => .error (.adapter .missingPoolHashes)
  | some poolHashesVec =>
      if path.len < 2 then .error (.adapter .wrongMinimumPathLength)
      else if poolHashesVec.len ≠ path.len - 1 then .error (.adapter .wrongPoolHashesLength)
      else
        (List.range (path.len - 1)).foldlM (fun swapsChain i => do
          let link ← chainLink path poolHashesVec i
          pure (swapsChain ++ [link])) []

/-- The body of the Phoenix loop. -/
def swapAt (path : Vec Address) (i : Nat) : Except Fault Swap := do
  let offerAsset ← expect .noOfferAsset path.val[i]?
  let askAsset ← expect .noAskAsset path.val[i + 1]?
  pure { offerAsset := offerAsset, askAsset := askAsset, askAssetMinAmount := none }

def convertToSwaps (path : Vec Address) : Except Fault (List Swap) := do
  let n ← lenMinusOne .subOverflow path
  (List.range n).foldlM (fun swaps i => do
    let swap ← swapAt path i
    pure (swaps ++ [swap])) []

end WowmaxStellar.Adapters
