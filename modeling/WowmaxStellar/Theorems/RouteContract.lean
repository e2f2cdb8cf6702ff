import WowmaxStellar.Adapters.Runs

/-!
# The route contract of the adapters

The interface promises a swap along the whole path: the first element is sold, the last one
is bought, and the elements between are traded through in order. What reaches the venue is
compared with that here, together with the tokens the returned amounts are counted in.

* `Follows` — a route trades a path leg by leg;
* `HonoursRoute` — what the interface promises of a swap that returned;
* `honoursRoute_iff` — Soroswap, Aquarius and Phoenix keep the promise for every path, Comet
  for paths of two tokens only: it sends the first two and drops the rest.
-/

namespace WowmaxStellar.Adapters

open Runs Paths

variable {V : Type}

/-- A route that sells the first token of the path, trades its legs in order, on Aquarius
each in the pool of its two tokens with the hash given for it, and ends in the last token. -/
structure Follows (adapter : Adapter) (call : SwapCall) (route : List Trade) : Prop where
  sells : route.head?.map Trade.sell = call.path.val.head?
  trades : route.map Trade.leg = legs call.path.val
  buys : route.getLast?.map Trade.buy = call.path.val.getLast?
  pools : adapter = .aqua → ∃ hashes, call.bytes = some hashes ∧
    route = List.zipWith pooledTrade (legs call.path.val) hashes.val

/-- The swap paid `amount` of `token` out to `recipient`. -/
def PaidOut (made : List Exchange) (token recipient : Address) (amount : Int) : Prop :=
  ∃ exchange ∈ made, exchange.request.route.isSome ∧
    exchange.after.balance token recipient - exchange.before.balance token recipient = amount

/-- One swap request, along the path. -/
def SendsRoute (adapter : Adapter) (call : SwapCall) (made : List Exchange) : Prop :=
  ∃ route, made.filterMap (·.request.route) = [route] ∧ Follows adapter call route

/-- The interface's promise: one swap request, along the path, and the first and the last
amount returned are amounts of the first and of the last token. -/
structure HonoursRoute (adapter : Adapter) (call : SwapCall) (made : List Exchange)
    (out : List Int) : Prop where
  request : SendsRoute adapter call made
  sold : ∃ token amount, call.path.val.head? = some token ∧ out.head? = some amount ∧
    (token, amount) ∈ made.flatMap Exchange.stated
  bought : ∃ token amount, call.path.val.getLast? = some token ∧ out.getLast? = some amount ∧
    ((token, amount) ∈ made.flatMap Exchange.stated ∨ PaidOut made token call.recipient amount)

/-- The exchanges a run has added. -/
def newExchanges (s s' : State V) : List Exchange := s'.exchanges.drop s.exchanges.length

/-- The path a Soroswap request hands to the router. -/
def Request.routerPath : Request → Option (Vec Address)
  | .swapExactTokensForTokens _ _ path _ _ => some path
  | .swapTokensForExactTokens _ _ path _ _ => some path
  | _ => none

/-- The venues report on the route they were given: Soroswap's router answers with one
amount for each token of the path, and Aquarius with amounts a token can have. -/
structure Env.ReportsRoute (env : Env V) : Prop where
  perToken : ∀ {venues ledger venue request answer values path},
    env.venue venues ledger venue request = .ok answer → answer.reply = .amounts values →
    request.routerPath = some path → values.len = path.len
  fits : ∀ {venues ledger venue request answer value},
    env.venue venues ledger venue request = .ok answer → answer.reply = .u128 value →
    (value.val : Int) ≤ i128Max

/-- What a swap keeps of the promise: its request whatever the venues answer, and all of it
with venues that report on the route. -/
structure KeepsRoute (env : Env V) (adapter : Adapter) (call : SwapCall) (made : List Exchange)
    (out : List Int) : Prop where
  sends : SendsRoute adapter call made
  honours : env.ReportsRoute → HonoursRoute adapter call made out

theorem HonoursRoute.keeps {env : Env V} {adapter : Adapter} {call : SwapCall}
    {made : List Exchange} {out : List Int} (h : HonoursRoute adapter call made out) :
    KeepsRoute env adapter call made out :=
  ⟨h.request, fun _ => h⟩

section Routes

variable {adapter : Adapter} {call : SwapCall}

theorem map_leg_plainTrade (path : List Address) :
    ((legs path).map plainTrade).map Trade.leg = legs path := by
  rw [List.map_map]
  exact List.map_id _

theorem map_leg_pooledTrade {trades : List (Address × Address)} {hashes : List BytesN32}
    (hlen : hashes.length = trades.length) :
    (List.zipWith pooledTrade trades hashes).map Trade.leg = trades := by
  rw [← List.map_uncurry_zip_eq_zipWith, List.map_map]
  exact List.map_fst_zip hlen.ge

/-- The ends of a route are those of its legs. -/
theorem Follows.of_trades {route : List Trade} (hlen : 2 ≤ call.path.len)
    (htrades : route.map Trade.leg = legs call.path.val)
    (hpools : adapter = .aqua → ∃ hashes, call.bytes = some hashes ∧
      route = List.zipWith pooledTrade (legs call.path.val) hashes.val) :
    Follows adapter call route where
  sells := by
    rw [← head?_legs hlen, ← htrades, List.head?_map, Option.map_map]
    rfl
  trades := htrades
  buys := by
    rw [← getLast?_legs hlen, ← htrades, List.getLast?_map, Option.map_map]
    rfl
  pools := hpools

/-- A request that passes the path on, or spells its legs out, follows it. -/
theorem Follows.plain (hlen : 2 ≤ call.path.len) (hadapter : adapter ≠ .aqua) :
    Follows adapter call ((legs call.path.val).map plainTrade) :=
  .of_trades hlen (map_leg_plainTrade _) fun h => absurd h hadapter

theorem mem_zip_of_getElem? {α β : Type} {xs : List α} {ys : List β} {i : Nat} {a : α} {b : β}
    (ha : xs[i]? = some a) (hb : ys[i]? = some b) : (a, b) ∈ xs.zip ys :=
  List.mem_of_getElem? (List.getElem?_zip_eq_some.mpr ⟨ha, hb⟩)

/-- The router's vector has an amount for each token, the first and the last included. -/
theorem HonoursRoute.of_amounts {exchange : Exchange} {values : List Int}
    (hlen : 2 ≤ call.path.len) (hadapter : adapter ≠ .aqua)
    (hroute : exchange.request.route = some ((legs call.path.val).map plainTrade))
    (hstated : exchange.stated = call.path.val.zip values)
    (hvalues : values.length = call.path.len) :
    HonoursRoute adapter call [exchange] values := by
  obtain ⟨first, last, hhead, hlast, hzero, hend⟩ := path_ends call.path hlen
  have hone : [exchange].flatMap Exchange.stated = call.path.val.zip values := by
    rw [List.flatMap_singleton, hstated]
  refine ⟨⟨_, by simp [hroute], .plain hlen hadapter⟩, ?_, ?_⟩
  · refine ⟨first, values[0], hhead, ?_, ?_⟩
    · rw [List.head?_eq_getElem?]
      exact List.getElem?_eq_getElem (by omega)
    · rw [hone]
      exact mem_zip_of_getElem? hzero (List.getElem?_eq_getElem (by omega))
  · refine ⟨last, values[values.length - 1], hlast, ?_, .inl ?_⟩
    · rw [List.getLast?_eq_getElem?]
      exact List.getElem?_eq_getElem (by omega)
    · rw [hone]
      refine mem_zip_of_getElem? hend ?_
      rw [← hvalues]
      exact List.getElem?_eq_getElem (by omega)

end Routes

section Adapters

variable {env : Env V} {s : State V}

theorem newExchanges_exchanged (venue : Address) (request : Request) (answer : Answer V)
    (events : List Event) :
    newExchanges s { s.exchanged venue request answer with events := events } =
      [⟨venue, request, answer.reply, s.ledger, answer.ledger⟩] := by
  show List.drop s.exchanges.length (s.exchanges ++ [_]) = _
  rw [List.drop_left]

theorem newExchanges_exchanged_exchanged (venue venue' : Address) (request request' : Request)
    (answer answer' : Answer V) (events : List Event) :
    newExchanges s { (s.exchanged venue request answer).exchanged venue' request' answer' with
        events := events } =
      [⟨venue, request, answer.reply, s.ledger, answer.ledger⟩,
        ⟨venue', request', answer'.reply, answer.ledger, answer'.ledger⟩] := by
  show List.drop s.exchanges.length (s.exchanges ++ [_] ++ [_]) = _
  rw [List.append_assoc, List.drop_left]
  rfl

/-- A request that hands the path to the router, its answer and the event. -/
theorem returns_router {call : SwapCall} {request : Request} {event : Event}
    (hlen : 2 ≤ call.path.len)
    (hpath : request.routerPath = some call.path)
    (hroute : request.route = some ((legs call.path.val).map plainTrade))
    (hstated : ∀ venue values before after,
      Exchange.stated ⟨venue, request, .amounts values, before, after⟩ =
        call.path.val.zip (values.val.map (·.val))) :
    Returns (do
      let venue ← getProtocolAddress
      let out ← callVenue env venue request Reply.amounts?
      publish event
      pure out) s
      (fun out s' => KeepsRoute env .soroswap call (newExchanges s s') out) := by
  refine returns_getProtocolAddress_bind fun venue _ => ?_
  refine returns_callVenue_bind fun answer out hanswer hreply => returns_publish ?_
  obtain ⟨values, hvalues, rfl⟩ := Reply.amounts?_eq_some.mp hreply
  rw [newExchanges_exchanged]
  refine ⟨⟨_, by simp [hroute], .plain hlen (by decide)⟩, fun hreports => ?_⟩
  refine .of_amounts hlen (by decide) hroute ?_ ?_
  · rw [hvalues]
    exact hstated _ _ _ _
  · rw [List.length_map]
    exact hreports.perToken hanswer hvalues hpath

/-- Soroswap's router gets the path as it came. -/
theorem soroswap_keepsRoute (call : SwapCall) (hlen : 2 ≤ call.path.len) :
    Returns (Adapter.soroswap.run env call) s
      (fun out s' => KeepsRoute env .soroswap call (newExchanges s s') out) := by
  cases call with
  | swapExactTokensForTokens amountIn amountOutMin path recipient deadline bytes =>
      show Returns (Soroswap.swapExactTokensForTokens env _ _ _ _ _) _ _
      unfold Soroswap.swapExactTokensForTokens Soroswap.protocolSwapExactTokensForTokens
      simp only [bind_assoc]
      refine returns_checkInitialized_bind fun _ => returns_requireAuth_bind fun _ => ?_
      exact returns_router hlen rfl rfl fun _ _ _ _ => rfl
  | swapTokensForExactTokens amountOut amountInMax path recipient deadline bytes =>
      show Returns (Soroswap.swapTokensForExactTokens env _ _ _ _ _) _ _
      unfold Soroswap.swapTokensForExactTokens Soroswap.protocolSwapTokensForExactTokens
      simp only [bind_assoc]
      refine returns_checkInitialized_bind fun _ => returns_requireAuth_bind fun _ => ?_
      exact returns_router hlen rfl rfl fun _ _ _ _ => rfl

/-! ## Aquarius -/

/-- The chain of a path, read from the first token on, trades the path leg by leg. -/
theorem chainRoute_path {path : Vec Address} {first : Address} (hfirst : path.val[0]? = some first)
    (hashes : List BytesN32) :
    chainRoute first (List.zipWith legLink (legs path.val) hashes) =
      List.zipWith pooledTrade (legs path.val) hashes := by
  obtain ⟨tokens, hbound⟩ := path
  cases tokens with
  | nil => cases hfirst
  | cons token rest =>
      obtain rfl : token = first := Option.some.inj hfirst
      exact chainRoute_legs token rest hashes

/-- The chain of a path ends in its last token. -/
theorem received_path {path : Vec Address} {last : Address} {hashes : Vec BytesN32}
    (hlen : 2 ≤ path.len) (hhashes : hashes.len = path.len - 1)
    (hlast : path.val.getLast? = some last) (amount : Nat) :
    received (List.zipWith legLink (legs path.val) hashes.val) amount =
      [(last, (amount : Int))] := by
  have htokens : (List.zipWith legLink (legs path.val) hashes.val).map (·.2.2) =
      (legs path.val).map Prod.snd := by
    have hzip : (legs path.val).length ≤ hashes.val.length := by
      rw [length_legs]
      exact hhashes.ge
    rw [← List.map_uncurry_zip_eq_zipWith, List.map_map, ← List.map_fst_zip hzip, List.map_map,
      List.map_fst_zip hzip]
    rfl
  have hend : ((List.zipWith legLink (legs path.val) hashes.val).getLast?.map (·.2.2)) =
      some last := by
    rw [← List.getLast?_map, htokens, List.getLast?_map, getLast?_legs hlen, hlast]
  obtain ⟨link, hlink, rfl⟩ := Option.map_eq_some_iff.mp hend
  unfold received
  rw [hlink]
  rfl

/-- A request with the chain of the path follows it, each leg in the pool of its hash. -/
theorem chain_request {call : SwapCall} {exchange : Exchange} {first : Address}
    {hashes : Vec BytesN32} (hlen : 2 ≤ call.path.len) (hbytes : call.bytes = some hashes)
    (hhashes : hashes.len = call.path.len - 1) (hfirst : call.path.val[0]? = some first)
    (hroute : exchange.request.route =
      some (chainRoute first (List.zipWith legLink (legs call.path.val) hashes.val))) :
    SendsRoute .aqua call [exchange] := by
  rw [chainRoute_path hfirst] at hroute
  refine ⟨_, by simp [hroute], .of_trades hlen (map_leg_pooledTrade ?_) fun _ =>
    ⟨hashes, hbytes, rfl⟩⟩
  rw [length_legs]
  exact hhashes

theorem aqua_exactInput {amountIn amountOutMin : I128} {path : Vec Address} {recipient : Address}
    {deadline : UInt64} {bytes : Option (Vec BytesN32)} :
    Returns (Adapter.aqua.run env
        (.swapExactTokensForTokens amountIn amountOutMin path recipient deadline bytes)) s
      (fun out s' => KeepsRoute env .aqua
        (.swapExactTokensForTokens amountIn amountOutMin path recipient deadline bytes)
        (newExchanges s s') out) := by
  show Returns (Aqua.swapExactTokensForTokens env _ _ _ _ _) _ _
  unfold Aqua.swapExactTokensForTokens Aqua.protocolSwapExactTokensForTokens
  simp only [bind_assoc]
  refine returns_checkInitialized_bind fun _ => returns_requireAuth_bind fun _ => ?_
  refine returns_checkNonnegativeAmount_bind fun hamount =>
    returns_checkNonnegativeAmount_bind fun _ => ?_
  refine returns_getProtocolAddress_bind fun venue _ => ?_
  refine returns_liftResult_bind fun swapsChain hchain => ?_
  refine returns_liftResult_bind fun tokenIn htokenIn => ?_
  refine returns_liftResult_bind fun index hindex => ?_
  refine returns_liftResult_bind fun tokenOut htokenOut => returns_balance_bind ?_
  refine returns_callVenue_bind fun answer _ hanswer hreply => returns_balance_bind ?_
  refine returns_checkedSub_bind fun _ => returns_panicIf_bind fun _ => ?_
  rw [pure_bind]
  refine returns_publish ?_
  obtain ⟨hashes, hbytes, hlen, hhashes, rfl⟩ := convertToSwapsChain_ok hchain
  obtain ⟨first, last, hhead, hlast, hzero, hend⟩ := path_ends path hlen
  obtain rfl : first = tokenIn := Option.some.inj (hzero.symm.trans (expect_ok htokenIn))
  obtain rfl : last = tokenOut := Option.some.inj
    (hend.symm.trans ((lenMinusOne_ok hindex) ▸ expect_ok htokenOut))
  obtain ⟨value, hvalue, rfl⟩ := Reply.u128?_eq_some.mp hreply
  rw [newExchanges_exchanged]
  have hcast := asU128_of_nonneg hamount amountIn.property.2
  refine HonoursRoute.keeps ⟨chain_request hlen hbytes hhashes hzero rfl,
    ⟨first, amountIn, hhead, rfl, ?_⟩,
    ⟨last, _, hlast, rfl, .inr ⟨_, List.mem_singleton_self _, rfl, rfl⟩⟩⟩
  rw [List.flatMap_singleton, hvalue]
  show _ ∈ (first, (asU128 amountIn.val : Int)) :: _
  rw [hcast]
  exact List.mem_cons_self

theorem aqua_exactOutput {amountOut amountInMax : I128} {path : Vec Address} {recipient : Address}
    {deadline : UInt64} {bytes : Option (Vec BytesN32)} :
    Returns (Adapter.aqua.run env
        (.swapTokensForExactTokens amountOut amountInMax path recipient deadline bytes)) s
      (fun out s' => KeepsRoute env .aqua
        (.swapTokensForExactTokens amountOut amountInMax path recipient deadline bytes)
        (newExchanges s s') out) := by
  show Returns (Aqua.swapTokensForExactTokens env _ _ _ _ _) _ _
  unfold Aqua.swapTokensForExactTokens Aqua.protocolSwapTokensForExactTokens
  simp only [bind_assoc]
  refine returns_checkInitialized_bind fun _ => returns_requireAuth_bind fun _ => ?_
  refine returns_checkNonnegativeAmount_bind fun hamount =>
    returns_checkNonnegativeAmount_bind fun _ => ?_
  refine returns_getProtocolAddress_bind fun venue _ => ?_
  refine returns_liftResult_bind fun swapsChain hchain => ?_
  refine returns_liftResult_bind fun tokenIn htokenIn => ?_
  refine returns_callVenue_bind fun answer _ hanswer hreply => ?_
  rw [pure_bind]
  refine returns_publish ?_
  obtain ⟨hashes, hbytes, hlen, hhashes, rfl⟩ := convertToSwapsChain_ok hchain
  obtain ⟨first, last, hhead, hlast, hzero, hend⟩ := path_ends path hlen
  obtain rfl : first = tokenIn := Option.some.inj (hzero.symm.trans (expect_ok htokenIn))
  obtain ⟨value, hvalue, rfl⟩ := Reply.u128?_eq_some.mp hreply
  rw [newExchanges_exchanged]
  refine ⟨chain_request hlen hbytes hhashes hzero rfl, fun hreports => ?_⟩
  rw [asI128_of_le (hreports.fits hanswer hvalue)]
  have hcast := asU128_of_nonneg hamount amountOut.property.2
  refine ⟨chain_request hlen hbytes hhashes hzero rfl, ⟨first, _, hhead, rfl, ?_⟩,
    ⟨last, amountOut, hlast, rfl, .inl ?_⟩⟩
  · rw [List.flatMap_singleton, hvalue]
    exact List.mem_cons_self
  · rw [List.flatMap_singleton, hvalue]
    show _ ∈ _ :: received _ _
    rw [received_path hlen hhashes hlast, hcast]
    exact List.mem_cons_of_mem _ (List.mem_singleton_self _)

/-- Aquarius gets a chain with one link per leg, in the pool of the leg's hash. -/
theorem aqua_keepsRoute (call : SwapCall) :
    Returns (Adapter.aqua.run env call) s
      (fun out s' => KeepsRoute env .aqua call (newExchanges s s') out) := by
  cases call with
  | swapExactTokensForTokens _ _ _ _ _ _ => exact aqua_exactInput
  | swapTokensForExactTokens _ _ _ _ _ _ => exact aqua_exactOutput

/-! ## Phoenix -/

theorem route_legSwap (path : List Address) :
    ((legs path).map legSwap).map (fun op => plainTrade (op.offerAsset, op.askAsset)) =
      (legs path).map plainTrade := by
  rw [List.map_map]
  rfl

/-- The swaps of a path offer its first token first. -/
theorem offered_path {path : Vec Address} {first : Address} (hlen : 2 ≤ path.len)
    (hfirst : path.val.head? = some first) (amount : Int) :
    offered ((legs path.val).map legSwap) amount = [(first, amount)] := by
  have hlegs := head?_legs hlen
  rw [hfirst] at hlegs
  obtain ⟨leg, hleg, rfl⟩ := Option.map_eq_some_iff.mp hlegs
  unfold offered
  rw [List.head?_map, hleg]
  rfl

/-- The reversed swaps of a path ask for its last token first. -/
theorem asked_path {path : Vec Address} {last : Address} (hlen : 2 ≤ path.len)
    (hlast : path.val.getLast? = some last) :
    ∃ op, ((legs path.val).map legSwap).reverse.head? = some op ∧ op.askAsset = last := by
  have hlegs := getLast?_legs hlen
  rw [hlast] at hlegs
  obtain ⟨leg, hleg, rfl⟩ := Option.map_eq_some_iff.mp hlegs
  refine ⟨legSwap leg, ?_, rfl⟩
  rw [List.head?_reverse, List.getLast?_map, hleg]
  rfl

theorem phoenix_exactInput {amountIn amountOutMin : I128} {path : Vec Address} {recipient : Address}
    {deadline : UInt64} {bytes : Option (Vec BytesN32)}
    (hlen : 2 ≤ path.len) :
    Returns (Adapter.phoenix.run env
        (.swapExactTokensForTokens amountIn amountOutMin path recipient deadline bytes)) s
      (fun out s' => HonoursRoute .phoenix
        (.swapExactTokensForTokens amountIn amountOutMin path recipient deadline bytes)
        (newExchanges s s') out) := by
  obtain ⟨first, last, hhead, hlast, hzero, hend⟩ := path_ends path hlen
  show Returns (Phoenix.swapExactTokensForTokens env _ _ _ _ _) _ _
  unfold Phoenix.swapExactTokensForTokens Phoenix.protocolSwapExactTokensForTokens
  simp only [bind_assoc]
  refine returns_checkInitialized_bind fun _ => returns_requireAuth_bind fun _ => ?_
  refine returns_checkNonnegativeAmount_bind fun _ =>
    returns_checkNonnegativeAmount_bind fun _ => returns_checkDeadline_bind fun _ => ?_
  refine returns_getProtocolAddress_bind fun venue _ => ?_
  refine returns_liftResult_bind fun operations hoperations => ?_
  refine returns_liftResult_bind fun index hindex => ?_
  refine returns_liftResult_bind fun tokenOut htokenOut => returns_balance_bind ?_
  refine returns_callVenue_bind fun answer _ _ hreply => returns_balance_bind ?_
  refine returns_checkedSub_bind fun _ => returns_panicIf_bind fun _ => ?_
  rw [pure_bind]
  refine returns_publish ?_
  obtain rfl := convertToSwaps_ok hoperations
  obtain rfl : last = tokenOut := Option.some.inj
    (hend.symm.trans ((lenMinusOne_ok hindex) ▸ expect_ok htokenOut))
  rw [newExchanges_exchanged, Reply.unit?_eq_some.mp hreply]
  refine ⟨⟨_, ?_, .plain hlen (by decide)⟩, ⟨first, amountIn, hhead, rfl, ?_⟩,
    ⟨last, _, hlast, rfl, .inr ⟨_, List.mem_singleton_self _, rfl, rfl⟩⟩⟩
  · rw [← route_legSwap]
    rfl
  · rw [List.flatMap_singleton]
    show _ ∈ offered _ _
    rw [offered_path hlen hhead]
    exact List.mem_singleton_self _

theorem phoenix_exactOutput {amountOut amountInMax : I128} {path : Vec Address}
    {recipient : Address} {deadline : UInt64} {bytes : Option (Vec BytesN32)}
    (hlen : 2 ≤ path.len) :
    Returns (Adapter.phoenix.run env
        (.swapTokensForExactTokens amountOut amountInMax path recipient deadline bytes)) s
      (fun out s' => HonoursRoute .phoenix
        (.swapTokensForExactTokens amountOut amountInMax path recipient deadline bytes)
        (newExchanges s s') out) := by
  obtain ⟨first, last, hhead, hlast, -, -⟩ := path_ends path hlen
  show Returns (Phoenix.swapTokensForExactTokens env _ _ _ _ _) _ _
  unfold Phoenix.swapTokensForExactTokens Phoenix.protocolSwapTokensForExactTokens
  simp only [bind_assoc]
  refine returns_checkInitialized_bind fun _ => returns_requireAuth_bind fun _ => ?_
  refine returns_checkNonnegativeAmount_bind fun _ =>
    returns_checkNonnegativeAmount_bind fun _ => returns_checkDeadline_bind fun _ => ?_
  refine returns_getProtocolAddress_bind fun venue _ => ?_
  refine returns_liftResult_bind fun operations hoperations => ?_
  refine returns_callVenue_bind fun quote offerAmount _ hquote => ?_
  refine returns_panicIf_bind fun _ => ?_
  refine returns_callVenue_bind fun answer _ _ hreply => ?_
  rw [pure_bind]
  refine returns_publish ?_
  obtain rfl := convertToSwaps_ok hoperations
  obtain ⟨offerAmount, hoffer, rfl⟩ := Reply.offer?_eq_some.mp hquote
  rw [newExchanges_exchanged_exchanged, hoffer, Reply.unit?_eq_some.mp hreply]
  refine ⟨⟨_, ?_, .plain hlen (by decide)⟩, ⟨first, offerAmount, hhead, rfl, ?_⟩,
    ⟨last, amountOut, hlast, rfl, .inl ?_⟩⟩
  · rw [← route_legSwap]
    rfl
  · -- the swap sells what the simulation quoted
    refine List.mem_flatMap.mpr ⟨_, List.mem_cons_of_mem _ (List.mem_singleton_self _), ?_⟩
    show _ ∈ offered _ _
    rw [offered_path hlen hhead]
    exact List.mem_singleton_self _
  · -- the amount out was the simulation's
    refine List.mem_flatMap.mpr ⟨_, List.mem_cons_self, ?_⟩
    obtain ⟨op, hop, rfl⟩ := asked_path hlen hlast
    refine List.mem_append_left _ ?_
    rw [hop]
    exact List.mem_singleton_self _

/-- Phoenix gets one swap per leg. -/
theorem phoenix_honoursRoute (call : SwapCall) (hlen : 2 ≤ call.path.len) :
    Returns (Adapter.phoenix.run env call) s
      (fun out s' => HonoursRoute .phoenix call (newExchanges s s') out) := by
  cases call with
  | swapExactTokensForTokens _ _ _ _ _ _ => exact phoenix_exactInput hlen
  | swapTokensForExactTokens _ _ _ _ _ _ => exact phoenix_exactOutput hlen

/-! ## Comet -/

/-- Comet's pool is asked to trade the first two tokens. -/
structure FirstPair (call : SwapCall) (made : List Exchange) (out : List Int) : Prop where
  traded : ∃ first second, call.path.val[0]? = some first ∧ call.path.val[1]? = some second ∧
    made.filterMap (·.request.route) = [[plainTrade (first, second)]] ∧
    ∃ amountIn amountOut, out = [amountIn, amountOut] ∧
      (first, amountIn) ∈ made.flatMap Exchange.stated ∧
      (second, amountOut) ∈ made.flatMap Exchange.stated

theorem comet_firstPair (call : SwapCall) :
    Returns (Adapter.comet.run env call) s
      (fun out s' => FirstPair call (newExchanges s s') out) := by
  cases call with
  | swapExactTokensForTokens amountIn amountOutMin path recipient deadline bytes =>
      show Returns (Comet.swapExactTokensForTokens env _ _ _ _ _) _ _
      unfold Comet.swapExactTokensForTokens Comet.protocolSwapExactTokensForTokens
      simp only [bind_assoc]
      refine returns_checkInitialized_bind fun _ => returns_checkDeadline_bind fun _ =>
        returns_requireAuth_bind fun _ => ?_
      refine returns_getProtocolAddress_bind fun venue _ => ?_
      refine returns_liftResult_bind fun tokenIn htokenIn => ?_
      refine returns_liftResult_bind fun tokenOut htokenOut => ?_
      refine returns_callVenue_bind fun answer amounts _ hreply => ?_
      obtain ⟨amountOut, price, hvalue, rfl⟩ := Reply.amountAndPrice?_eq_some.mp hreply
      rw [pure_bind]
      refine returns_publish ?_
      rw [newExchanges_exchanged, hvalue]
      refine ⟨tokenIn, tokenOut, expect_ok htokenIn, expect_ok htokenOut, rfl, _, _, rfl, ?_, ?_⟩
      · exact List.mem_cons_self
      · exact List.mem_cons_of_mem _ List.mem_cons_self
  | swapTokensForExactTokens amountOut amountInMax path recipient deadline bytes =>
      show Returns (Comet.swapTokensForExactTokens env _ _ _ _ _) _ _
      unfold Comet.swapTokensForExactTokens Comet.protocolSwapTokensForExactTokens
      simp only [bind_assoc]
      refine returns_checkInitialized_bind fun _ => returns_checkDeadline_bind fun _ =>
        returns_requireAuth_bind fun _ => ?_
      refine returns_getProtocolAddress_bind fun venue _ => ?_
      refine returns_liftResult_bind fun tokenIn htokenIn => ?_
      refine returns_liftResult_bind fun tokenOut htokenOut => ?_
      refine returns_callVenue_bind fun answer amounts _ hreply => ?_
      obtain ⟨amountIn, price, hvalue, rfl⟩ := Reply.amountAndPrice?_eq_some.mp hreply
      rw [pure_bind]
      refine returns_publish ?_
      rw [newExchanges_exchanged, hvalue]
      refine ⟨tokenIn, tokenOut, expect_ok htokenIn, expect_ok htokenOut, rfl, _, _, rfl, ?_, ?_⟩
      · exact List.mem_cons_self
      · exact List.mem_cons_of_mem _ List.mem_cons_self

section FirstPair

variable {call : SwapCall} {made : List Exchange} {out : List Int}

/-- The first two tokens are the path exactly when there are no more. -/
theorem FirstPair.sends_iff (h : FirstPair call made out) :
    SendsRoute .comet call made ↔ call.path.len = 2 := by
  obtain ⟨first, second, hfirst, hsecond, hroute, -⟩ := h.traded
  constructor
  · rintro ⟨route, hone, hfollows⟩
    obtain rfl : [plainTrade (first, second)] = route :=
      List.singleton_injective (hroute.symm.trans hone)
    have hlength := congrArg List.length hfollows.trades
    rw [length_legs] at hlength
    have hlen : 1 < call.path.val.length := (List.getElem?_eq_some_iff.mp hsecond).1
    show call.path.val.length = 2
    simp only [List.map_cons, List.map_nil, List.length_singleton] at hlength
    omega
  · intro hlen
    obtain ⟨a, b, hpath⟩ := List.length_eq_two.mp hlen
    rw [hpath] at hfirst hsecond
    obtain rfl : a = first := Option.some.inj hfirst
    obtain rfl : b = second := Option.some.inj hsecond
    refine ⟨_, hroute, .of_trades hlen.ge ?_ fun hadapter => nomatch hadapter⟩
    rw [hpath]
    rfl

theorem FirstPair.honours_iff (h : FirstPair call made out) :
    HonoursRoute .comet call made out ↔ call.path.len = 2 := by
  rw [← h.sends_iff]
  constructor
  · exact HonoursRoute.request
  · intro hsends
    obtain ⟨first, second, hfirst, hsecond, -, amountIn, amountOut, rfl, hsold, hbought⟩ :=
      h.traded
    obtain ⟨a, b, hpath⟩ := List.length_eq_two.mp (h.sends_iff.mp hsends)
    rw [hpath] at hfirst hsecond
    obtain rfl : a = first := Option.some.inj hfirst
    obtain rfl : b = second := Option.some.inj hsecond
    refine ⟨hsends, ⟨a, amountIn, ?_, rfl, hsold⟩, ⟨b, amountOut, ?_, rfl, .inl hbought⟩⟩
    all_goals
      rw [hpath]
      rfl

end FirstPair

theorem run_keepsRoute {adapter : Adapter} (call : SwapCall) (hadapter : adapter ≠ .comet)
    (hlen : 2 ≤ call.path.len) :
    Returns (adapter.run env call) s
      (fun out s' => KeepsRoute env adapter call (newExchanges s s') out) := by
  cases adapter with
  | soroswap => exact soroswap_keepsRoute call hlen
  | aqua => exact aqua_keepsRoute call
  | phoenix =>
      exact (phoenix_honoursRoute call hlen).mono (fun _ _ h => h.keeps) fun _ _ => id
  | comet => exact absurd rfl hadapter

/-- **The route contract.** A swap that returned on a path of two tokens or more has sent its
venue along the path, unless it was Comet's and the path was longer; and with venues that
report on the route they were given, the promise of the interface was kept in just these
cases. -/
theorem honoursRoute_iff {adapter : Adapter} {call : SwapCall} {s' : State V} {out : List Int}
    (hlen : 2 ≤ call.path.len) (hrun : adapter.run env call s = .ok out s') :
    (SendsRoute adapter call (newExchanges s s') ↔ (adapter = .comet → call.path.len = 2)) ∧
      (env.ReportsRoute → (HonoursRoute adapter call (newExchanges s s') out ↔
        (adapter = .comet → call.path.len = 2))) := by
  by_cases hadapter : adapter = .comet
  · subst hadapter
    have hpair := (comet_firstPair call).ok hrun
    have hcond : (Adapter.comet = .comet → call.path.len = 2) ↔ call.path.len = 2 :=
      ⟨fun h => h rfl, fun h _ => h⟩
    rw [hcond]
    exact ⟨hpair.sends_iff, fun _ => hpair.honours_iff⟩
  · have hkeeps := (run_keepsRoute call hadapter hlen).ok hrun
    have hcond : adapter = .comet → call.path.len = 2 := fun h => absurd h hadapter
    refine ⟨iff_of_true hkeeps.sends hcond, fun hreports => ?_⟩
    exact iff_of_true (hkeeps.honours hreports) hcond

end Adapters

/-- A venue that took `amount` of one token from the user and paid as much of another has
made two transfers. -/
theorem oneForOne_ok {ledger : Ledger} {tokenIn tokenOut user venue : Address} {amount : Int}
    {reply : Reply} {answer : Answer Unit}
    (h : (do
        let paid ← ledger.transfer tokenIn user venue amount
        let after ← paid.transfer tokenOut venue user amount
        (.ok ⟨after, (), reply⟩ : Except HostError (Answer Unit))) = .ok answer) :
    ∃ paid, ledger.transfer tokenIn user venue amount = .ok paid ∧
      paid.transfer tokenOut venue user amount = .ok answer.ledger ∧ answer.reply = reply := by
  cases hpaid : ledger.transfer tokenIn user venue amount with
  | error e =>
      rw [hpaid] at h
      cases h
  | ok paid =>
      rw [hpaid] at h
      change (paid.transfer tokenOut venue user amount >>= _) = _ at h
      cases hafter : paid.transfer tokenOut venue user amount with
      | error e =>
          rw [hafter] at h
          cases h
      | ok after =>
          rw [hafter] at h
          cases h
          exact ⟨paid, rfl, hafter, rfl⟩

/-! ## A Comet pool -/

/-- A pool that trades one for one, from and to the user; it answers nothing else. -/
def cometPool (ledger : Ledger) (pool : Address) : Request → Except HostError (Answer Unit)
  | .swapExactAmountIn tokenIn amountIn tokenOut _ _ user =>
      if hfits : InI128 amountIn then do
        let paid ← ledger.transfer tokenIn user pool amountIn
        let after ← paid.transfer tokenOut pool user amountIn
        .ok ⟨after, (), .amountAndPrice ⟨amountIn, hfits⟩ ⟨1, by decide⟩⟩
      else .error .refused
  | _ => .error .refused

def cometEnv : Env Unit where
  timestamp := 0
  signers := [⟨1⟩]
  venue _ := cometPool

/-- An initialised adapter; the user at address 1 holds token 10 and the pool token 11. -/
def cometState : State Unit where
  storage := ⟨true, some "comet", some ⟨20⟩⟩
  ledger := (Ledger.empty.set ⟨10⟩ ⟨1⟩ 2000 (by decide)).set ⟨11⟩ ⟨20⟩ 2000 (by decide)
  venues := ()
  exchanges := []
  events := []

/-- 100 units of the first token of a path. -/
def cometCall (path : Vec Address) : SwapCall :=
  .swapExactTokensForTokens (.ofUInt32 100) (.ofUInt32 90) path ⟨1⟩ 1 none

theorem cometPool_reply {ledger : Ledger} {pool : Address} {request : Request}
    {answer : Answer Unit} (h : cometPool ledger pool request = .ok answer) :
    ∃ amount price, answer.reply = .amountAndPrice amount price := by
  unfold cometPool at h
  split at h
  next =>
    split at h
    next =>
      obtain ⟨_, _, _, hreply⟩ := oneForOne_ok h
      exact ⟨_, _, hreply⟩
    next => cases h
  next => cases h

theorem cometEnv_reportsRoute : cometEnv.ReportsRoute where
  perToken hanswer hreply _ := by
    obtain ⟨_, _, heq⟩ := cometPool_reply hanswer
    rw [hreply] at heq
    cases heq
  fits hanswer hreply := by
    obtain ⟨_, _, heq⟩ := cometPool_reply hanswer
    rw [hreply] at heq
    cases heq

/-! ## An Aquarius router -/

/-- A router that trades one for one along a chain, from and to the user. -/
def aquaRouter (ledger : Ledger) (router : Address) : Request → Except HostError (Answer Unit)
  | .swapChained user swapsChain tokenIn inAmount _ =>
      match swapsChain.getLast? with
      | none => .error .refused
      | some link =>
          if hfits : inAmount < 2 ^ 128 then do
            let paid ← ledger.transfer tokenIn user router inAmount
            let after ← paid.transfer link.2.2 router user inAmount
            .ok ⟨after, (), .u128 ⟨inAmount, hfits⟩⟩
          else .error .refused
  | _ => .error .refused

/-- At time 100, with the user at address 1 signing. -/
def aquaEnv : Env Unit where
  timestamp := 100
  signers := [⟨1⟩]
  venue _ := aquaRouter

/-- The user holds token 10 and the router token 11. -/
def aquaState : State Unit where
  storage := ⟨true, some "aquarius", some ⟨20⟩⟩
  ledger := (Ledger.empty.set ⟨10⟩ ⟨1⟩ 500 (by decide)).set ⟨11⟩ ⟨20⟩ 500 (by decide)
  venues := ()
  exchanges := []
  events := []

/-- Every amount it answers was on the user's account. -/
theorem aquaRouter_reply {ledger : Ledger} {router : Address} {request : Request}
    {answer : Answer Unit} (h : aquaRouter ledger router request = .ok answer) :
    ∃ value : U128, answer.reply = .u128 value ∧ (value.val : Int) ≤ i128Max := by
  unfold aquaRouter at h
  split at h
  next user swapsChain tokenIn inAmount outMin =>
    split at h
    · cases h
    next link hlast =>
      split at h
      next hfits =>
        obtain ⟨_, hpaid, _, hreply⟩ := oneForOne_ok h
        obtain ⟨-, hheld, -⟩ := Ledger.transfer_ok hpaid
        exact ⟨⟨inAmount, hfits⟩, hreply, hheld.trans (ledger.le_max _ _)⟩
      next => cases h
  next => cases h

theorem aquaEnv_reportsRoute : aquaEnv.ReportsRoute where
  perToken hanswer hreply _ := by
    obtain ⟨_, heq, _⟩ := aquaRouter_reply hanswer
    rw [hreply] at heq
    cases heq
  fits hanswer hreply := by
    obtain ⟨_, heq, hmax⟩ := aquaRouter_reply hanswer
    rw [hreply] at heq
    cases heq
    exact hmax

/-- 100 units of token 10 for token 11, by way of token 12. -/
def aquaCall : SwapCall :=
  .swapExactTokensForTokens (.ofUInt32 100) (.ofUInt32 90) ⟨[⟨10⟩, ⟨12⟩, ⟨11⟩], by decide⟩ ⟨1⟩ 1
    (some (.pair (.replicate 32 0) (.replicate 32 1)))

/-- Comet on a path of two tokens, and Aquarius on a path of three. -/
theorem honoursRoute_iff_pools :
    (∃ s', Adapter.comet.run cometEnv (cometCall (.pair ⟨10⟩ ⟨11⟩)) cometState =
        .ok [100, 100] s' ∧
      HonoursRoute .comet (cometCall (.pair ⟨10⟩ ⟨11⟩)) (newExchanges cometState s')
        [100, 100]) ∧
    ∃ s', Adapter.aqua.run aquaEnv aquaCall aquaState = .ok [100, 100] s' ∧
      SendsRoute .aqua aquaCall (newExchanges aquaState s') ∧
      HonoursRoute .aqua aquaCall (newExchanges aquaState s') [100, 100] := by
  obtain ⟨s, hcomet⟩ : ∃ s', Adapter.comet.run cometEnv (cometCall (.pair ⟨10⟩ ⟨11⟩))
      cometState = .ok [100, 100] s' := ⟨_, rfl⟩
  obtain ⟨s', haqua⟩ : ∃ s', Adapter.aqua.run aquaEnv aquaCall aquaState = .ok [100, 100] s' :=
    ⟨_, rfl⟩
  obtain ⟨-, hcometIff⟩ := honoursRoute_iff (by decide) hcomet
  obtain ⟨hsendsIff, haquaIff⟩ := honoursRoute_iff (by decide) haqua
  refine ⟨⟨s, hcomet, ?_⟩, s', haqua, ?_, ?_⟩
  · exact (hcometIff cometEnv_reportsRoute).mpr fun _ => rfl
  · exact hsendsIff.mpr nofun
  · exact (haquaIff aquaEnv_reportsRoute).mpr nofun

/-- On the path from 10 over 11 to 12, Comet's swap returns and never mentions token 12. -/
theorem comet_drops_last_token :
    cometEnv.ReportsRoute ∧ ∃ s', Adapter.comet.run cometEnv
        (cometCall ⟨[⟨10⟩, ⟨11⟩, ⟨12⟩], by decide⟩) cometState = .ok [100, 100] s' ∧
      ¬ HonoursRoute .comet (cometCall ⟨[⟨10⟩, ⟨11⟩, ⟨12⟩], by decide⟩)
        (newExchanges cometState s') [100, 100] := by
  obtain ⟨s', hrun⟩ : ∃ s', Adapter.comet.run cometEnv
      (cometCall ⟨[⟨10⟩, ⟨11⟩, ⟨12⟩], by decide⟩) cometState = .ok [100, 100] s' := ⟨_, rfl⟩
  refine ⟨cometEnv_reportsRoute, s', hrun, fun hhonours => ?_⟩
  exact absurd (((comet_firstPair _).ok hrun).honours_iff.mp hhonours) (by decide)

end WowmaxStellar.Adapters
