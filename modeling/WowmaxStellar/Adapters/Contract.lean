import WowmaxStellar.Adapters.Sales
import WowmaxStellar.Lib.Moves

/-!
# Adapters as contracts

An adapter exports five functions. `Call` is a call of one of them, `Adapter.perform` carries
it out, and `Performed` is everything a call that returned can have done: initialising writes
the protocol once, a swap goes through the venue written there and publishes one event, and
the two readers change nothing.
-/

namespace WowmaxStellar.Adapters

open Runs

variable {V : Type}

/-- A call of an exported function. -/
inductive Call
  | initializeWith (protocolId : String) (protocolAddress : Address)
  | swap (call : SwapCall)
  | getProtocolId
  | getProtocolAddress

/-- What the exported functions return. -/
inductive Returned
  | void
  | amounts (values : List Int)
  | string (value : String)
  | address (value : Address)
deriving DecidableEq

def Adapter.perform (adapter : Adapter) (env : Env V) : Call → Exec V Returned
  | .initializeWith protocolId protocolAddress => do
      adapter.initializeWith protocolId protocolAddress
      pure .void
  | .swap call => do
      let amounts ← adapter.run env call
      pure (.amounts amounts)
  | .getProtocolId => do
      let protocolId ← readProtocolId
      pure (.string protocolId)
  | .getProtocolAddress => do
      let protocolAddress ← readProtocolAddress
      pure (.address protocolAddress)

/-! ## Through a venue -/

/-- From one ledger to another by venue calls, each from where the one before it stopped. -/
def Linked : Ledger → List Exchange → Ledger → Prop
  | ledger, [], ledger' => ledger = ledger'
  | ledger, exchange :: rest, ledger' =>
      ledger = exchange.before ∧ Linked exchange.after rest ledger'

theorem Linked.append {ledger middle ledger' : Ledger} {made made' : List Exchange}
    (h : Linked ledger made middle) (h' : Linked middle made' ledger') :
    Linked ledger (made ++ made') ledger' := by
  induction made generalizing ledger with
  | nil =>
      obtain rfl : ledger = middle := h
      exact h'
  | cons exchange rest ih => exact ⟨h.1, ih h.2⟩

/-- From `s` to `s'` nothing happened but calls of `venue`. -/
structure Through (venue : Address) (s s' : State V) : Prop where
  storage : s'.storage = s.storage
  events : s'.events = s.events
  exchanges : ∃ made, s'.exchanges = s.exchanges ++ made ∧
    (∀ exchange ∈ made, exchange.venue = venue) ∧ Linked s.ledger made s'.ledger

theorem Through.refl (venue : Address) (s : State V) : Through venue s s :=
  ⟨rfl, rfl, [], (List.append_nil _).symm, by simp, rfl⟩

theorem Through.trans {venue : Address} (s t u : State V) (h : Through venue s t)
    (h' : Through venue t u) : Through venue s u := by
  obtain ⟨made, hmade, hvenue, hlinked⟩ := h.exchanges
  obtain ⟨made', hmade', hvenue', hlinked'⟩ := h'.exchanges
  refine ⟨h'.storage.trans h.storage, h'.events.trans h.events, made ++ made', ?_, ?_,
    hlinked.append hlinked'⟩
  · rw [hmade', hmade, List.append_assoc]
  · intro exchange hmem
    rcases List.mem_append.mp hmem with hmem | hmem
    · exact hvenue exchange hmem
    · exact hvenue' exchange hmem

section Moves

variable {venue : Address} {α β : Type}

theorem moves_bind {x : Exec V α} {f : α → Exec V β} (hx : Moves (Through venue) x)
    (hf : ∀ a, Moves (Through venue) (f a)) : Moves (Through venue) (x >>= f) :=
  .bind Through.trans hx hf

theorem moves_pure (a : α) : Moves (Through venue) (pure a : Exec V α) :=
  .pure (Through.refl venue) a

theorem moves_liftResult (r : Except Fault α) :
    Moves (Through venue) (liftResult r : Exec V α) := by
  cases r with
  | ok a => exact moves_pure a
  | error fault => exact .throw fault

theorem moves_panicIf (c : Prop) [Decidable c] (site : PanicSite) :
    Moves (Through venue) (panicIf c site : Exec V Unit) :=
  .ite (.throw _) (moves_pure _)

theorem moves_checkedSub (a b : Int) : Moves (Through venue) (checkedSub a b : Exec V Int) :=
  .ite (moves_pure _) (.throw _)

theorem moves_balance (token holder : Address) :
    Moves (Through venue) (balance token holder : Exec V Int) := by
  intro s a s' hrun
  cases hrun
  exact .refl venue s

theorem moves_callVenue (env : Env V) (request : Request) (decode : Reply → Option α) :
    Moves (Through venue) (callVenue env venue request decode) := by
  intro s a s' hrun
  have hpost : Returns (callVenue env venue request decode) s fun _ s' => Through venue s s' := by
    refine returns_callVenue fun answer _ _ _ => ⟨rfl, rfl, _, rfl, ?_, rfl, rfl⟩
    intro exchange hmem
    rw [List.mem_singleton.mp hmem]
  exact hpost.ok hrun

/-- A protocol function looks its venue up and goes through it. -/
theorem returns_through {s : State V} {f : Address → Exec V α}
    (h : ∀ venue, Moves (Through venue) (f venue)) :
    Returns (getProtocolAddress >>= f) s fun _ s' =>
      ∃ venue, s.storage.protocolAddress = some venue ∧ Through venue s s' :=
  returns_getProtocolAddress_bind fun venue haddress =>
    .intro (fun a s' hrun => ⟨venue, haddress, h venue s a s' hrun⟩) fun _ _ _ => trivial

end Moves

/-! ## What a call does -/

/-- What the event of a swap gives as the amount in. -/
def SwapCall.published : SwapCall → Int
  | .swapExactTokensForTokens amountIn _ _ _ _ _ => amountIn
  | .swapTokensForExactTokens _ amountInMax _ _ _ _ => amountInMax

def Adapter.swapEvent (adapter : Adapter) (call : SwapCall) : Event :=
  .swap adapter.topic call.published call.path call.recipient

/-- The event names what the call lets go of. -/
theorem Adapter.swapEvent_sale? (adapter : Adapter) (call : SwapCall) :
    (adapter.swapEvent call).sale? = some call.sale := by
  cases call with
  | swapExactTokensForTokens => rfl
  | swapTokensForExactTokens => rfl

/-- The swap a call is for. -/
def Call.swap? : Call → Option SwapCall
  | .swap call => some call
  | _ => none

def Call.isInitialize : Call → Bool
  | .initializeWith .. => true
  | _ => false

/-- What a swap that returned has done. -/
structure Swapped (adapter : Adapter) (env : Env V) (call : SwapCall) (s s' : State V) : Prop where
  initialized : s.storage.initialized = true
  signed : call.recipient ∈ env.signers
  storage : s'.storage = s.storage
  events : s'.events = s.events ++ [adapter.swapEvent call]
  exchanges : ∃ venue made, s.storage.protocolAddress = some venue ∧
    s'.exchanges = s.exchanges ++ made ∧ (∀ exchange ∈ made, exchange.venue = venue) ∧
    Linked s.ledger made s'.ledger

section Swaps

variable {env : Env V} {s : State V}

/-- The end of every swap: through the venue, then the event. -/
theorem returns_swapped (adapter : Adapter) (call : SwapCall) {x : Exec V (List Int)}
    (hinit : s.storage.initialized = true) (hsigned : call.recipient ∈ env.signers)
    (h : Returns x s fun _ s' => ∃ venue, s.storage.protocolAddress = some venue ∧
      Through venue s s') :
    Returns (x >>= fun out => publish (adapter.swapEvent call) >>= fun _ => pure out) s
      fun _ s' => Swapped adapter env call s s' := by
  refine Post.bind h ?_
  rintro out t ⟨venue, haddress, hthrough⟩
  obtain ⟨made, hmade, hvenue, hlinked⟩ := hthrough.exchanges
  refine returns_publish
    ⟨hinit, hsigned, hthrough.storage, ?_, venue, made, haddress, hmade, hvenue, hlinked⟩
  show t.events ++ [_] = _
  rw [hthrough.events]

theorem soroswap_swapped (env : Env V) (call : SwapCall) (s : State V) :
    Returns (Adapter.soroswap.run env call) s fun _ s' => Swapped .soroswap env call s s' := by
  cases call with
  | swapExactTokensForTokens amountIn amountOutMin path recipient deadline bytes =>
      refine returns_checkInitialized_bind fun hinit => returns_requireAuth_bind fun hsigned => ?_
      exact returns_swapped .soroswap
        (.swapExactTokensForTokens amountIn amountOutMin path recipient deadline bytes)
        hinit hsigned (returns_through fun _ => moves_callVenue _ _ _)
  | swapTokensForExactTokens amountOut amountInMax path recipient deadline bytes =>
      refine returns_checkInitialized_bind fun hinit => returns_requireAuth_bind fun hsigned => ?_
      exact returns_swapped .soroswap
        (.swapTokensForExactTokens amountOut amountInMax path recipient deadline bytes)
        hinit hsigned (returns_through fun _ => moves_callVenue _ _ _)

theorem aqua_swapped (env : Env V) (call : SwapCall) (s : State V) :
    Returns (Adapter.aqua.run env call) s fun _ s' => Swapped .aqua env call s s' := by
  cases call with
  | swapExactTokensForTokens amountIn amountOutMin path recipient deadline bytes =>
      refine returns_checkInitialized_bind fun hinit => returns_requireAuth_bind fun hsigned => ?_
      refine returns_checkNonnegativeAmount_bind fun _ =>
        returns_checkNonnegativeAmount_bind fun _ => ?_
      refine returns_swapped .aqua
        (.swapExactTokensForTokens amountIn amountOutMin path recipient deadline bytes)
        hinit hsigned (returns_through fun _ => ?_)
      refine moves_bind (moves_liftResult _) fun _ => moves_bind (moves_liftResult _) fun _ => ?_
      refine moves_bind (moves_liftResult _) fun _ => moves_bind (moves_liftResult _) fun _ => ?_
      refine moves_bind (moves_balance _ _) fun _ => moves_bind (moves_callVenue _ _ _) fun _ => ?_
      refine moves_bind (moves_balance _ _) fun _ => moves_bind (moves_checkedSub _ _) fun _ => ?_
      exact moves_bind (moves_panicIf _ _) fun _ => moves_pure _
  | swapTokensForExactTokens amountOut amountInMax path recipient deadline bytes =>
      refine returns_checkInitialized_bind fun hinit => returns_requireAuth_bind fun hsigned => ?_
      refine returns_checkNonnegativeAmount_bind fun _ =>
        returns_checkNonnegativeAmount_bind fun _ => ?_
      refine returns_swapped .aqua
        (.swapTokensForExactTokens amountOut amountInMax path recipient deadline bytes)
        hinit hsigned (returns_through fun _ => ?_)
      refine moves_bind (moves_liftResult _) fun _ => moves_bind (moves_liftResult _) fun _ => ?_
      exact moves_bind (moves_callVenue _ _ _) fun _ => moves_pure _

theorem phoenix_swapped (env : Env V) (call : SwapCall) (s : State V) :
    Returns (Adapter.phoenix.run env call) s fun _ s' => Swapped .phoenix env call s s' := by
  cases call with
  | swapExactTokensForTokens amountIn amountOutMin path recipient deadline bytes =>
      refine returns_checkInitialized_bind fun hinit => returns_requireAuth_bind fun hsigned => ?_
      refine returns_checkNonnegativeAmount_bind fun _ =>
        returns_checkNonnegativeAmount_bind fun _ => returns_checkDeadline_bind fun _ => ?_
      refine returns_swapped .phoenix
        (.swapExactTokensForTokens amountIn amountOutMin path recipient deadline bytes)
        hinit hsigned (returns_through fun _ => ?_)
      refine moves_bind (moves_liftResult _) fun _ => moves_bind (moves_liftResult _) fun _ => ?_
      refine moves_bind (moves_liftResult _) fun _ => moves_bind (moves_balance _ _) fun _ => ?_
      refine moves_bind (moves_callVenue _ _ _) fun _ => moves_bind (moves_balance _ _) fun _ => ?_
      refine moves_bind (moves_checkedSub _ _) fun _ => moves_bind (moves_panicIf _ _) fun _ => ?_
      exact moves_pure _
  | swapTokensForExactTokens amountOut amountInMax path recipient deadline bytes =>
      refine returns_checkInitialized_bind fun hinit => returns_requireAuth_bind fun hsigned => ?_
      refine returns_checkNonnegativeAmount_bind fun _ =>
        returns_checkNonnegativeAmount_bind fun _ => returns_checkDeadline_bind fun _ => ?_
      refine returns_swapped .phoenix
        (.swapTokensForExactTokens amountOut amountInMax path recipient deadline bytes)
        hinit hsigned (returns_through fun _ => ?_)
      refine moves_bind (moves_liftResult _) fun _ => moves_bind (moves_callVenue _ _ _) fun _ => ?_
      refine moves_bind (moves_panicIf _ _) fun _ => moves_bind (moves_callVenue _ _ _) fun _ => ?_
      exact moves_pure _

theorem comet_swapped (env : Env V) (call : SwapCall) (s : State V) :
    Returns (Adapter.comet.run env call) s fun _ s' => Swapped .comet env call s s' := by
  cases call with
  | swapExactTokensForTokens amountIn amountOutMin path recipient deadline bytes =>
      refine returns_checkInitialized_bind fun hinit => returns_checkDeadline_bind fun _ => ?_
      refine returns_requireAuth_bind fun hsigned => ?_
      refine returns_swapped .comet
        (.swapExactTokensForTokens amountIn amountOutMin path recipient deadline bytes)
        hinit hsigned (returns_through fun _ => ?_)
      refine moves_bind (moves_liftResult _) fun _ => moves_bind (moves_liftResult _) fun _ => ?_
      exact moves_bind (moves_callVenue _ _ _) fun _ => moves_pure _
  | swapTokensForExactTokens amountOut amountInMax path recipient deadline bytes =>
      refine returns_checkInitialized_bind fun hinit => returns_checkDeadline_bind fun _ => ?_
      refine returns_requireAuth_bind fun hsigned => ?_
      refine returns_swapped .comet
        (.swapTokensForExactTokens amountOut amountInMax path recipient deadline bytes)
        hinit hsigned (returns_through fun _ => ?_)
      refine moves_bind (moves_liftResult _) fun _ => moves_bind (moves_liftResult _) fun _ => ?_
      exact moves_bind (moves_callVenue _ _ _) fun _ => moves_pure _

theorem run_swapped (adapter : Adapter) (env : Env V) (call : SwapCall) (s : State V) :
    Returns (adapter.run env call) s fun _ s' => Swapped adapter env call s s' := by
  cases adapter with
  | soroswap => exact soroswap_swapped env call s
  | aqua => exact aqua_swapped env call s
  | phoenix => exact phoenix_swapped env call s
  | comet => exact comet_swapped env call s

end Swaps

/-! ## What a swap takes -/

section Loses

variable {adapter : Adapter} {env : Env V} {call : SwapCall} {s s' : State V}
  {account : Address}

/-- Along venue calls that keep to their orders, an account loses what they order at most. -/
theorem Linked.loses {ledger ledger' : Ledger} {made : List Exchange}
    (h : Linked ledger made ledger') (hkeeps : KeepsToOrders env.venue account)
    (hanswered : ∀ exchange ∈ made, exchange.Answered env) (token : Address) :
    ledger.balance token account - ledger'.balance token account ≤
      takesOf (made.filterMap (·.request.sale?)) token account := by
  induction made generalizing ledger with
  | nil =>
      obtain rfl : ledger = ledger' := h
      exact (sub_self _).le
  | cons exchange rest ih =>
      obtain ⟨rfl, hrest⟩ := h
      obtain ⟨venues, answer, hanswer, hafter⟩ := hanswered exchange List.mem_cons_self
      have hone := hkeeps _ _ _ _ _ token hanswer
      rw [← hafter] at hone
      have hmore := ih hrest fun exchange hmem => hanswered exchange (List.mem_cons_of_mem _ hmem)
      rw [takesOf_filterMap_cons]
      omega

/-- A swap takes no more than its call lets go of. -/
theorem Swapped.loses (hswapped : Swapped adapter env call s s') (hsold : Sold env call s s')
    (hkeeps : KeepsToOrders env.venue account) (token : Address) :
    s.ledger.balance token account - s'.ledger.balance token account ≤
      call.sale.takes token account := by
  obtain ⟨venue, made, _, hmade, _, hlinked⟩ := hswapped.exchanges
  obtain ⟨made', sale, hmade', hanswered, hone, hwithin⟩ := hsold
  obtain rfl : made = made' := List.append_cancel_left (hmade.symm.trans hmade')
  have hloses := hlinked.loses hkeeps hanswered token
  rw [hone, takesOf_cons, takesOf_nil, add_zero] at hloses
  exact hloses.trans (hwithin.takes_le token account)

end Loses

/-- The storage an initialised adapter has. -/
def Storage.written (protocolId : String) (protocolAddress : Address) : Storage :=
  ⟨true, some protocolId, some protocolAddress⟩

/-- Everything a call that returned can have done. -/
inductive Performed (adapter : Adapter) (env : Env V) (s : State V) :
    Call → Returned → State V → Prop
  | initializeWith (protocolId : String) (protocolAddress : Address)
      (hfresh : s.storage.initialized = false) :
      Performed adapter env s (.initializeWith protocolId protocolAddress) .void
        { s with
          storage := .written protocolId protocolAddress
          events := s.events ++ [.initialized adapter.topic true protocolId protocolAddress] }
  | swap (call : SwapCall) (amounts : List Int) (s' : State V)
      (hswapped : Swapped adapter env call s s') (hsold : Sold env call s s') :
      Performed adapter env s (.swap call) (.amounts amounts) s'
  | getProtocolId (protocolId : String) (hinit : s.storage.initialized = true)
      (hstored : s.storage.protocolId = some protocolId) :
      Performed adapter env s .getProtocolId (.string protocolId) s
  | getProtocolAddress (protocolAddress : Address) (hinit : s.storage.initialized = true)
      (hstored : s.storage.protocolAddress = some protocolAddress) :
      Performed adapter env s .getProtocolAddress (.address protocolAddress) s

theorem returns_getProtocolId_bind {β : Type} {s : State V} {f : String → Exec V β}
    {Q : β → State V → Prop}
    (hpass : ∀ protocolId, s.storage.protocolId = some protocolId → Returns (f protocolId) s Q) :
    Returns (Adapters.getProtocolId >>= f) s Q := by
  cases hstored : s.storage.protocolId with
  | none =>
      refine returns_bind_of_eq (y := throw (.adapter .notInitialized)) ?_ (returns_throw_bind _)
      unfold Adapters.getProtocolId
      rw [hstored]
      rfl
  | some protocolId =>
      refine returns_bind_of_eq (y := pure protocolId) ?_ (hpass protocolId hstored)
      unfold Adapters.getProtocolId
      rw [hstored]
      rfl

section Perform

variable (adapter : Adapter) (env : Env V) (s : State V)

/-- `initialize` fails on a contract that is initialised, and otherwise goes through. -/
theorem initializeWith_eq (protocolId : String) (protocolAddress : Address) :
    adapter.initializeWith protocolId protocolAddress s =
      if s.storage.initialized = true then .error (.adapter .alreadyInitialized) s
      else .ok () { s with
        storage := .written protocolId protocolAddress
        events := s.events ++ [.initialized adapter.topic true protocolId protocolAddress] } := by
  obtain ⟨⟨initialized, storedId, storedAddress⟩, ledger, venues, exchanges, events⟩ := s
  cases initialized <;> rfl

theorem perform_performed (call : Call) :
    Returns (adapter.perform env call) s fun returned s' =>
      Performed adapter env s call returned s' := by
  cases call with
  | initializeWith protocolId protocolAddress =>
      refine Post.bind (P := fun _ s' => s.storage.initialized = false ∧ s' = { s with
        storage := .written protocolId protocolAddress
        events := s.events ++ [.initialized adapter.topic true protocolId protocolAddress] }) ?_ ?_
      · have hrun := initializeWith_eq adapter s protocolId protocolAddress
        by_cases hinit : s.storage.initialized = true
        · rw [if_pos hinit] at hrun
          exact .of_error hrun trivial
        · rw [if_neg hinit] at hrun
          exact .of_ok hrun ⟨Bool.eq_false_iff.mpr hinit, rfl⟩
      · rintro _ t ⟨hfresh, rfl⟩
        exact Performed.initializeWith protocolId protocolAddress hfresh
  | swap call =>
      refine Post.bind (run_swapped adapter env call s).ran ?_
      rintro amounts s' ⟨hrun, hswapped⟩
      exact Performed.swap call amounts s' hswapped ((run_sold env call s adapter).ok hrun)
  | getProtocolId =>
      show Returns ((checkInitialized >>= fun _ => Adapters.getProtocolId) >>= _) s _
      rw [bind_assoc]
      refine returns_checkInitialized_bind fun hinit =>
        returns_getProtocolId_bind fun protocolId hstored => ?_
      exact Performed.getProtocolId protocolId hinit hstored
  | getProtocolAddress =>
      show Returns ((checkInitialized >>= fun _ => Adapters.getProtocolAddress) >>= _) s _
      rw [bind_assoc]
      refine returns_checkInitialized_bind fun hinit =>
        returns_getProtocolAddress_bind fun protocolAddress hstored => ?_
      exact Performed.getProtocolAddress protocolAddress hinit hstored

end Perform

section Performed

variable {code : Adapter} {env : Env V} {s s' : State V} {call : Call} {returned : Returned}

/-- An initialised adapter keeps its storage. -/
theorem Performed.storage_kept (h : Performed code env s call returned s')
    (hinit : s.storage.initialized = true) : s'.storage = s.storage := by
  cases h with
  | initializeWith protocolId protocolAddress hfresh =>
      rw [hfresh] at hinit
      cases hinit
  | swap call amounts s' hswapped => exact hswapped.storage
  | getProtocolId => rfl
  | getProtocolAddress => rfl

/-- On an initialised adapter a call publishes an event if it is a swap, and is none of
initialising. -/
theorem Performed.of_initialized (h : Performed code env s call returned s')
    (hinit : s.storage.initialized = true) :
    call.isInitialize = false ∧
      s'.events = s.events ++ (call.swap?.map code.swapEvent).toList := by
  cases h with
  | initializeWith protocolId protocolAddress hfresh =>
      rw [hfresh] at hinit
      cases hinit
  | swap call amounts s' hswapped => exact ⟨rfl, hswapped.events⟩
  | getProtocolId => exact ⟨rfl, (List.append_nil _).symm⟩
  | getProtocolAddress => exact ⟨rfl, (List.append_nil _).symm⟩

/-- Every venue call goes to the stored address. -/
theorem Performed.exchanges (h : Performed code env s call returned s') :
    ∃ made, s'.exchanges = s.exchanges ++ made ∧
      ∀ exchange ∈ made, s.storage.protocolAddress = some exchange.venue := by
  cases h with
  | swap call amounts s' hswapped =>
      obtain ⟨venue, made, haddress, hmade, hvenue, _⟩ := hswapped.exchanges
      refine ⟨made, hmade, fun exchange hmem => ?_⟩
      rw [haddress, hvenue exchange hmem]
  | initializeWith => exact ⟨[], by simp⟩
  | getProtocolId => exact ⟨[], by simp⟩
  | getProtocolAddress => exact ⟨[], by simp⟩

/-- On a contract that is not initialised only initialising returns. -/
theorem Performed.of_fresh (h : Performed code env s call returned s')
    (hfresh : s.storage.initialized = false) :
    ∃ protocolId protocolAddress, call = .initializeWith protocolId protocolAddress ∧
      returned = .void ∧ s' = { s with
        storage := .written protocolId protocolAddress
        events := s.events ++ [.initialized code.topic true protocolId protocolAddress] } := by
  have hnot : s.storage.initialized ≠ true := Bool.eq_false_iff.mp hfresh
  cases h with
  | initializeWith protocolId protocolAddress => exact ⟨_, _, rfl, rfl, rfl⟩
  | swap call amounts s' hswapped => exact absurd hswapped.initialized hnot
  | getProtocolId protocolId hinit => exact absurd hinit hnot
  | getProtocolAddress protocolAddress hinit => exact absurd hinit hnot

end Performed

end WowmaxStellar.Adapters
