import WowmaxStellar.Adapters.Runs

/-!
# What a swap sells

A swap request lets the venue take up to an amount of one token from one account. So does the
call of a swap, for whoever signs it.

* `Request.sale?`, `SwapCall.sale`, `Event.sale?` — what they let go of;
* `Sold` — one order to sell reached the venue, none beyond the call it was made for;
* `run_sold` — that holds of every swap of an adapter that returned.
-/

namespace WowmaxStellar.Adapters

open Runs Paths

variable {V : Type}

/-- An order to sell up to `limit` of a token that `account` holds. -/
structure Sale where
  account : Address
  token : Option Address
  limit : Int
deriving DecidableEq

/-- What an order may take of `token` from `account`. -/
def Sale.takes (sale : Sale) (token account : Address) : Int :=
  match sale.token with
  | none => 0
  | some sold => Ledger.share sold sale.account (max 0 sale.limit) token account

/-- What several orders may take together. -/
def takesOf (sales : List Sale) (token account : Address) : Int :=
  (sales.map (·.takes token account)).sum

/-- What a request lets the venue take; a simulation takes nothing. -/
def Request.sale? : Request → Option Sale
  | .swapExactTokensForTokens amountIn _ path recipient _ =>
      some ⟨recipient, path.val.head?, amountIn⟩
  | .swapTokensForExactTokens _ amountInMax path recipient _ =>
      some ⟨recipient, path.val.head?, amountInMax⟩
  | .swapChained user _ tokenIn inAmount _ => some ⟨user, some tokenIn, inAmount⟩
  | .swapChainedStrictReceive user _ tokenIn _ maxIn => some ⟨user, some tokenIn, maxIn⟩
  | .swap recipient operations _ amount _ _ _ =>
      some ⟨recipient, operations.head?.map Swap.offerAsset, amount⟩
  | .simulateReverseSwap .. => none
  | .swapExactAmountIn tokenIn amountIn _ _ _ user => some ⟨user, some tokenIn, amountIn⟩
  | .swapExactAmountOut tokenIn maxAmountIn _ _ _ user => some ⟨user, some tokenIn, maxAmountIn⟩

/-- What the event of a swap says was let go of. -/
def Event.sale? : Event → Option Sale
  | .initialized .. => none
  | .swap _ amountIn path recipient => some ⟨recipient, path.val.head?, amountIn⟩

/-- What the recipient of a swap signs away: the first token of the path, up to the amount
that is exact or the bound on it. -/
def SwapCall.sale : SwapCall → Sale
  | .swapExactTokensForTokens amountIn _ path recipient _ _ =>
      ⟨recipient, path.val.head?, amountIn⟩
  | .swapTokensForExactTokens _ amountInMax path recipient _ _ =>
      ⟨recipient, path.val.head?, amountInMax⟩

/-- `sale` takes from the same account and no more than `bound`. -/
structure Sale.Within (sale bound : Sale) : Prop where
  account : sale.account = bound.account
  token : ∀ token, sale.token = some token → bound.token = some token
  limit : sale.limit ≤ bound.limit

theorem Sale.takes_nonneg (sale : Sale) (token account : Address) :
    0 ≤ sale.takes token account := by
  unfold Sale.takes
  split
  · exact le_rfl
  · exact Ledger.share_nonneg (le_max_left _ _) _ _ _ _

/-- Only the account of an order is taken from. -/
theorem Sale.takes_of_ne {sale : Sale} {account : Address} (hne : account ≠ sale.account)
    (token : Address) : sale.takes token account = 0 := by
  unfold Sale.takes
  split
  · rfl
  · exact Ledger.share_of_ne hne _ _ _

theorem SwapCall.sale_account (call : SwapCall) : call.sale.account = call.recipient := by
  cases call with
  | swapExactTokensForTokens => rfl
  | swapTokensForExactTokens => rfl

theorem Sale.Within.takes_le {sale bound : Sale} (h : sale.Within bound)
    (token account : Address) : sale.takes token account ≤ bound.takes token account := by
  cases htoken : sale.token with
  | none =>
      have hzero : sale.takes token account = 0 := by
        unfold Sale.takes
        rw [htoken]
      rw [hzero]
      exact bound.takes_nonneg token account
  | some sold =>
      unfold Sale.takes
      rw [htoken, h.token sold htoken, h.account]
      exact Ledger.share_mono (max_le_max le_rfl h.limit) _ _ _ _

section TakesOf

variable {token account : Address}

@[simp] theorem takesOf_nil : takesOf [] token account = 0 := rfl

@[simp] theorem takesOf_cons (sale : Sale) (sales : List Sale) :
    takesOf (sale :: sales) token account =
      sale.takes token account + takesOf sales token account := by
  simp [takesOf]

@[simp] theorem takesOf_append (sales sales' : List Sale) :
    takesOf (sales ++ sales') token account =
      takesOf sales token account + takesOf sales' token account := by
  simp [takesOf]

theorem takesOf_nonneg (sales : List Sale) : 0 ≤ takesOf sales token account := by
  induction sales with
  | nil => exact le_rfl
  | cons sale sales ih =>
      rw [takesOf_cons]
      exact add_nonneg (sale.takes_nonneg token account) ih

theorem takesOf_filterMap_cons {α : Type} (sale? : α → Option Sale) (a : α) (rest : List α) :
    takesOf ((a :: rest).filterMap sale?) token account =
      takesOf (sale? a).toList token account + takesOf (rest.filterMap sale?) token account := by
  cases h : sale? a with
  | none => rw [List.filterMap_cons_none h, Option.toList_none, takesOf_nil, zero_add]
  | some sale =>
      rw [List.filterMap_cons_some h, Option.toList_some, takesOf_cons, takesOf_cons, takesOf_nil,
        add_zero]

end TakesOf

/-- The venues take from `account` no more than they are asked to. -/
def KeepsToOrders (venue : V → Ledger → Address → Request → Except HostError (Answer V))
    (account : Address) : Prop :=
  ∀ venues ledger address request answer token,
    venue venues ledger address request = .ok answer →
    ledger.balance token account - answer.ledger.balance token account ≤
      takesOf request.sale?.toList token account

/-- A venue did answer the request so. -/
def Exchange.Answered (env : Env V) (exchange : Exchange) : Prop :=
  ∃ venues answer, env.venue venues exchange.before exchange.venue exchange.request = .ok answer ∧
    exchange.after = answer.ledger

/-- From `s` to `s'` one order to sell reached a venue, within what the call lets go of. -/
def Sold (env : Env V) (call : SwapCall) (s s' : State V) : Prop :=
  ∃ made sale, s'.exchanges = s.exchanges ++ made ∧
    (∀ exchange ∈ made, exchange.Answered env) ∧
    made.filterMap (·.request.sale?) = [sale] ∧ sale.Within call.sale

section Sold

variable {env : Env V} {call : SwapCall} {s : State V} {venue : Address} {request : Request}
  {answer : Answer V}

theorem Sold.of_exchanged {sale : Sale} {events : List Event}
    (hanswer : env.venue s.venues s.ledger venue request = .ok answer)
    (hsale : request.sale? = some sale) (hwithin : sale.Within call.sale) :
    Sold env call s { s.exchanged venue request answer with events := events } := by
  refine ⟨[_], sale, rfl, ?_, by simp [hsale], hwithin⟩
  intro exchange hmem
  rw [List.mem_singleton.mp hmem]
  exact ⟨s.venues, answer, hanswer, rfl⟩

/-- A question to the venue before the sale takes nothing. -/
theorem Sold.after_simulation {s' : State V}
    (hanswer : env.venue s.venues s.ledger venue request = .ok answer)
    (hsale : request.sale? = none) (h : Sold env call (s.exchanged venue request answer) s') :
    Sold env call s s' := by
  obtain ⟨made, sale, hmade, hanswered, hone, hwithin⟩ := h
  refine ⟨⟨venue, request, answer.reply, s.ledger, answer.ledger⟩ :: made, sale, ?_, ?_, ?_,
    hwithin⟩
  · rw [hmade]
    exact List.append_assoc _ [_] _
  · intro exchange hmem
    rcases List.mem_cons.mp hmem with rfl | hmem
    · exact ⟨s.venues, answer, hanswer, rfl⟩
    · exact hanswered exchange hmem
  · refine Eq.trans ?_ hone
    exact List.filterMap_cons_none hsale

end Sold

/-! ## The four adapters -/

section Adapters

variable (env : Env V) (call : SwapCall) (s : State V)

theorem soroswap_sold :
    Returns (Adapter.soroswap.run env call) s fun _ s' => Sold env call s s' := by
  cases call with
  | swapExactTokensForTokens amountIn amountOutMin path recipient deadline bytes =>
      show Returns (Soroswap.swapExactTokensForTokens env _ _ _ _ _) _ _
      unfold Soroswap.swapExactTokensForTokens Soroswap.protocolSwapExactTokensForTokens
      simp only [bind_assoc]
      refine returns_checkInitialized_bind fun _ => returns_requireAuth_bind fun _ => ?_
      refine returns_getProtocolAddress_bind fun venue _ => ?_
      refine returns_callVenue_bind fun answer out hanswer _ => returns_publish ?_
      exact .of_exchanged hanswer rfl ⟨rfl, fun _ h => h, le_rfl⟩
  | swapTokensForExactTokens amountOut amountInMax path recipient deadline bytes =>
      show Returns (Soroswap.swapTokensForExactTokens env _ _ _ _ _) _ _
      unfold Soroswap.swapTokensForExactTokens Soroswap.protocolSwapTokensForExactTokens
      simp only [bind_assoc]
      refine returns_checkInitialized_bind fun _ => returns_requireAuth_bind fun _ => ?_
      refine returns_getProtocolAddress_bind fun venue _ => ?_
      refine returns_callVenue_bind fun answer out hanswer _ => returns_publish ?_
      exact .of_exchanged hanswer rfl ⟨rfl, fun _ h => h, le_rfl⟩

theorem head?_of_zero {site : PanicSite} {path : Vec Address} {tokenIn token : Address}
    (h : expect site path.val[0]? = .ok tokenIn) (heq : some tokenIn = some token) :
    path.val.head? = some token := by
  rw [List.head?_eq_getElem?, expect_ok h, heq]

theorem aqua_sold : Returns (Adapter.aqua.run env call) s fun _ s' => Sold env call s s' := by
  cases call with
  | swapExactTokensForTokens amountIn amountOutMin path recipient deadline bytes =>
      show Returns (Aqua.swapExactTokensForTokens env _ _ _ _ _) _ _
      unfold Aqua.swapExactTokensForTokens Aqua.protocolSwapExactTokensForTokens
      simp only [bind_assoc]
      refine returns_checkInitialized_bind fun _ => returns_requireAuth_bind fun _ => ?_
      refine returns_checkNonnegativeAmount_bind fun hamount =>
        returns_checkNonnegativeAmount_bind fun _ => ?_
      refine returns_getProtocolAddress_bind fun venue _ => ?_
      refine returns_liftResult_bind fun swapsChain _ => ?_
      refine returns_liftResult_bind fun tokenIn htokenIn => ?_
      refine returns_liftResult_bind fun index _ => returns_liftResult_bind fun tokenOut _ => ?_
      refine returns_balance_bind (returns_callVenue_bind fun answer _ hanswer _ => ?_)
      refine returns_balance_bind (returns_checkedSub_bind fun _ => ?_)
      refine returns_panicIf_bind fun _ => ?_
      rw [pure_bind]
      refine returns_publish (.of_exchanged hanswer rfl ⟨rfl, fun _ => head?_of_zero htokenIn, ?_⟩)
      exact (asU128_of_nonneg hamount amountIn.property.2).le
  | swapTokensForExactTokens amountOut amountInMax path recipient deadline bytes =>
      show Returns (Aqua.swapTokensForExactTokens env _ _ _ _ _) _ _
      unfold Aqua.swapTokensForExactTokens Aqua.protocolSwapTokensForExactTokens
      simp only [bind_assoc]
      refine returns_checkInitialized_bind fun _ => returns_requireAuth_bind fun _ => ?_
      refine returns_checkNonnegativeAmount_bind fun _ =>
        returns_checkNonnegativeAmount_bind fun hamount => ?_
      refine returns_getProtocolAddress_bind fun venue _ => ?_
      refine returns_liftResult_bind fun swapsChain _ => ?_
      refine returns_liftResult_bind fun tokenIn htokenIn => ?_
      refine returns_callVenue_bind fun answer _ hanswer _ => ?_
      rw [pure_bind]
      refine returns_publish (.of_exchanged hanswer rfl ⟨rfl, fun _ => head?_of_zero htokenIn, ?_⟩)
      exact (asU128_of_nonneg hamount amountInMax.property.2).le

/-- The swaps of a path offer its first token first, if there is one to trade. -/
theorem head?_offered {path : Vec Address} {operations : List Swap} {token : Address}
    (h : convertToSwaps path = .ok operations)
    (hsold : operations.head?.map Swap.offerAsset = some token) :
    path.val.head? = some token := by
  obtain rfl := convertToSwaps_ok h
  obtain ⟨tokens, _⟩ := path
  match tokens with
  | [] => cases hsold
  | [_] => cases hsold
  | _ :: _ :: _ => exact hsold

/-- An exact output is sold for what the simulation asks, which is within the bound. -/
theorem phoenix_sold : Returns (Adapter.phoenix.run env call) s fun _ s' => Sold env call s s' := by
  cases call with
  | swapExactTokensForTokens amountIn amountOutMin path recipient deadline bytes =>
      show Returns (Phoenix.swapExactTokensForTokens env _ _ _ _ _) _ _
      unfold Phoenix.swapExactTokensForTokens Phoenix.protocolSwapExactTokensForTokens
      simp only [bind_assoc]
      refine returns_checkInitialized_bind fun _ => returns_requireAuth_bind fun _ => ?_
      refine returns_checkNonnegativeAmount_bind fun _ =>
        returns_checkNonnegativeAmount_bind fun _ => returns_checkDeadline_bind fun _ => ?_
      refine returns_getProtocolAddress_bind fun venue _ => ?_
      refine returns_liftResult_bind fun operations hoperations => ?_
      refine returns_liftResult_bind fun index _ => returns_liftResult_bind fun tokenOut _ => ?_
      refine returns_balance_bind (returns_callVenue_bind fun answer _ hanswer _ => ?_)
      refine returns_balance_bind (returns_checkedSub_bind fun _ => ?_)
      refine returns_panicIf_bind fun _ => ?_
      rw [pure_bind]
      exact returns_publish
        (.of_exchanged hanswer rfl ⟨rfl, fun _ => head?_offered hoperations, le_rfl⟩)
  | swapTokensForExactTokens amountOut amountInMax path recipient deadline bytes =>
      show Returns (Phoenix.swapTokensForExactTokens env _ _ _ _ _) _ _
      unfold Phoenix.swapTokensForExactTokens Phoenix.protocolSwapTokensForExactTokens
      simp only [bind_assoc]
      refine returns_checkInitialized_bind fun _ => returns_requireAuth_bind fun _ => ?_
      refine returns_checkNonnegativeAmount_bind fun _ =>
        returns_checkNonnegativeAmount_bind fun _ => returns_checkDeadline_bind fun _ => ?_
      refine returns_getProtocolAddress_bind fun venue _ => ?_
      refine returns_liftResult_bind fun operations hoperations => ?_
      refine returns_callVenue_bind fun quote offerAmount hquote _ => ?_
      refine returns_panicIf_bind fun hmax => ?_
      refine returns_callVenue_bind fun answer _ hanswer _ => ?_
      rw [pure_bind]
      refine returns_publish (.after_simulation hquote rfl ?_)
      exact .of_exchanged hanswer rfl
        ⟨rfl, fun _ => head?_offered hoperations, not_lt.mp hmax⟩

theorem comet_sold : Returns (Adapter.comet.run env call) s fun _ s' => Sold env call s s' := by
  cases call with
  | swapExactTokensForTokens amountIn amountOutMin path recipient deadline bytes =>
      show Returns (Comet.swapExactTokensForTokens env _ _ _ _ _) _ _
      unfold Comet.swapExactTokensForTokens Comet.protocolSwapExactTokensForTokens
      simp only [bind_assoc]
      refine returns_checkInitialized_bind fun _ => returns_checkDeadline_bind fun _ =>
        returns_requireAuth_bind fun _ => ?_
      refine returns_getProtocolAddress_bind fun venue _ => ?_
      refine returns_liftResult_bind fun tokenIn htokenIn => ?_
      refine returns_liftResult_bind fun tokenOut _ => ?_
      refine returns_callVenue_bind fun answer amounts hanswer _ => ?_
      rw [pure_bind]
      refine returns_publish (.of_exchanged hanswer rfl ⟨rfl, fun _ => ?_, le_rfl⟩)
      exact head?_of_zero htokenIn
  | swapTokensForExactTokens amountOut amountInMax path recipient deadline bytes =>
      show Returns (Comet.swapTokensForExactTokens env _ _ _ _ _) _ _
      unfold Comet.swapTokensForExactTokens Comet.protocolSwapTokensForExactTokens
      simp only [bind_assoc]
      refine returns_checkInitialized_bind fun _ => returns_checkDeadline_bind fun _ =>
        returns_requireAuth_bind fun _ => ?_
      refine returns_getProtocolAddress_bind fun venue _ => ?_
      refine returns_liftResult_bind fun tokenIn htokenIn => ?_
      refine returns_liftResult_bind fun tokenOut _ => ?_
      refine returns_callVenue_bind fun answer amounts hanswer _ => ?_
      rw [pure_bind]
      refine returns_publish (.of_exchanged hanswer rfl ⟨rfl, fun _ => ?_, le_rfl⟩)
      exact head?_of_zero htokenIn

theorem run_sold (adapter : Adapter) :
    Returns (adapter.run env call) s fun _ s' => Sold env call s s' := by
  cases adapter with
  | soroswap => exact soroswap_sold env call s
  | aqua => exact aqua_sold env call s
  | phoenix => exact phoenix_sold env call s
  | comet => exact comet_sold env call s

end Adapters

end WowmaxStellar.Adapters
