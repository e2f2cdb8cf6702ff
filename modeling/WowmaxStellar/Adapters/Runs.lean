import WowmaxStellar.Adapters.Routes

/-!
# Swaps that return

What is known of the state and of the answers of the venue when an adapter's swap returns,
host call by host call. A rule for each host call takes a run through it; a run that stops
there returns nothing.
-/

namespace WowmaxStellar.Adapters

open Runs

/-- If `x` returns from `s`, it returns in `Q`. -/
abbrev Returns {V α : Type} (x : Exec V α) (s : State V) (Q : α → State V → Prop) : Prop :=
  Post x s Q fun _ _ => True

section Rules

variable {V α β : Type} {env : Env V} {s : State V} {f : α → Exec V β} {g : Unit → Exec V β}
  {Q : β → State V → Prop}

theorem returns_throw_bind (fault : Fault) : Returns ((throw fault : Exec V α) >>= f) s Q :=
  trivial

theorem returns_ite_bind {c : Prop} [Decidable c] {fault : Fault}
    (hpass : ¬ c → Returns (g ()) s Q) :
    Returns ((if c then throw fault else pure () : Exec V Unit) >>= g) s Q := by
  by_cases hc : c
  · rw [if_pos hc]
    exact returns_throw_bind fault
  · rw [if_neg hc, pure_bind]
    exact hpass hc

/-- Only what `x` does from `s` matters. -/
theorem returns_bind_of_eq {x y : Exec V α} (h : x s = y s) (hy : Returns (y >>= f) s Q) :
    Returns (x >>= f) s Q := by
  unfold Returns Post at hy ⊢
  simpa only [Bind.bind, EStateM.bind, h] using hy

theorem returns_checkInitialized_bind (hpass : s.storage.initialized = true → Returns (g ()) s Q) :
    Returns (checkInitialized >>= g) s Q := by
  refine returns_bind_of_eq
    (y := if ¬ s.storage.initialized = true then throw (.adapter .notInitialized) else pure ()) ?_
    (returns_ite_bind fun h => hpass (not_not.mp h))
  unfold checkInitialized
  show (if s.storage.initialized = true then pure () else fail .notInitialized : Exec V Unit) s = _
  by_cases h : s.storage.initialized = true
  · rw [if_pos h, if_neg (not_not.mpr h)]
  · rw [if_neg h, if_pos h]
    rfl

theorem returns_requireAuth_bind {address : Address}
    (hpass : address ∈ env.signers → Returns (g ()) s Q) :
    Returns (requireAuth env address >>= g) s Q := by
  unfold requireAuth
  by_cases hc : address ∈ env.signers
  · rw [if_pos hc, pure_bind]
    exact hpass hc
  · rw [if_neg hc]
    exact returns_throw_bind _

theorem returns_checkNonnegativeAmount_bind {amount : Int}
    (hpass : 0 ≤ amount → Returns (g ()) s Q) :
    Returns (checkNonnegativeAmount amount >>= g) s Q :=
  returns_ite_bind fun hc => hpass (by omega)

theorem returns_checkDeadline_bind {deadline : UInt64}
    (hpass : env.timestamp < deadline → Returns (g ()) s Q) :
    Returns (checkDeadline env deadline >>= g) s Q :=
  returns_ite_bind fun hc => hpass (UInt64.not_le.mp hc)

theorem returns_panicIf_bind {c : Prop} [Decidable c] {site : PanicSite}
    (hpass : ¬ c → Returns (g ()) s Q) : Returns (panicIf c site >>= g) s Q :=
  returns_ite_bind hpass

theorem returns_getProtocolAddress_bind {f : Address → Exec V β}
    (hpass : ∀ venue, s.storage.protocolAddress = some venue → Returns (f venue) s Q) :
    Returns (getProtocolAddress >>= f) s Q := by
  cases haddress : s.storage.protocolAddress with
  | none =>
      refine returns_bind_of_eq (y := throw (.adapter .notInitialized)) ?_ (returns_throw_bind _)
      unfold getProtocolAddress
      rw [haddress]
      rfl
  | some venue =>
      refine returns_bind_of_eq (y := pure venue) ?_ (hpass venue haddress)
      unfold getProtocolAddress
      rw [haddress]
      rfl

theorem returns_liftResult_bind {r : Except Fault α} (hpass : ∀ a, r = .ok a → Returns (f a) s Q) :
    Returns (liftResult r >>= f) s Q := by
  cases r with
  | error fault => exact returns_throw_bind fault
  | ok a => exact hpass a rfl

theorem returns_balance_bind {token holder : Address} {f : Int → Exec V β}
    (hpass : Returns (f (s.ledger.balance token holder)) s Q) :
    Returns (balance token holder >>= f) s Q := hpass

theorem returns_checkedSub_bind {a b : Int} {f : Int → Exec V β}
    (hpass : InI128 (a - b) → Returns (f (a - b)) s Q) : Returns (checkedSub a b >>= f) s Q := by
  unfold checkedSub
  by_cases hc : InI128 (a - b)
  · rw [if_pos hc]
    exact hpass hc
  · rw [if_neg hc]
    exact returns_throw_bind _

/-- A venue call that returns was answered, in the type its client expects. -/
theorem returns_callVenue {venue : Address} {request : Request} {decode : Reply → Option α}
    {Q : α → State V → Prop}
    (hpass : ∀ answer a, env.venue s.venues s.ledger venue request = .ok answer →
      decode answer.reply = some a → Q a (s.exchanged venue request answer)) :
    Returns (callVenue env venue request decode) s Q := by
  cases hanswer : env.venue s.venues s.ledger venue request with
  | error e =>
      have hrun : callVenue env venue request decode s = .error (.host e) s := by
        simp only [callVenue, hanswer]
      exact .of_error hrun trivial
  | ok answer =>
      cases hdecode : decode answer.reply with
      | none =>
          have hrun : callVenue env venue request decode s = .error (.host .badReply) s := by
            simp only [callVenue, hanswer, hdecode]
          exact .of_error hrun trivial
      | some a =>
          refine Post.of_ok ?_ (hpass answer a hanswer hdecode)
          simp only [callVenue, hanswer, hdecode]

theorem returns_callVenue_bind {venue : Address} {request : Request} {decode : Reply → Option α}
    (hpass : ∀ answer a, env.venue s.venues s.ledger venue request = .ok answer →
      decode answer.reply = some a → Returns (f a) (s.exchanged venue request answer) Q) :
    Returns (callVenue env venue request decode >>= f) s Q :=
  Post.bind (P := fun a s' => ∃ answer, env.venue s.venues s.ledger venue request = .ok answer ∧
      decode answer.reply = some a ∧ s' = s.exchanged venue request answer)
    (returns_callVenue fun answer _ hanswer hdecode => ⟨answer, hanswer, hdecode, rfl⟩)
    fun a _ ⟨answer, hanswer, hdecode, heq⟩ => heq ▸ hpass answer a hanswer hdecode

/-- The end of every swap: the event, then the amounts. -/
theorem returns_publish {event : Event} {out : List Int} {Q : List Int → State V → Prop}
    (h : Q out { s with events := s.events ++ [event] }) :
    Returns (publish event >>= fun _ => pure out) s Q := h

end Rules

/-! ## Pure steps -/

theorem expect_ok {α : Type} {site : PanicSite} {o : Option α} {a : α}
    (h : expect site o = .ok a) : o = some a := by
  cases o with
  | none => cases h
  | some b => exact congrArg some (Except.ok.inj h)

theorem lenMinusOne_ok {α : Type} {site : PanicSite} {v : Vec α} {n : Nat}
    (h : lenMinusOne site v = .ok n) : n = v.len - 1 := by
  unfold lenMinusOne at h
  split at h
  · cases h
  · exact (Except.ok.inj h).symm

/-! ## Replies -/

theorem Reply.amounts?_eq_some {reply : Reply} {out : List Int} :
    reply.amounts? = some out ↔
      ∃ values, reply = .amounts values ∧ values.val.map (·.val) = out := by
  cases reply <;> simp [Reply.amounts?]

theorem Reply.u128?_eq_some {reply : Reply} {n : Nat} :
    reply.u128? = some n ↔ ∃ value, reply = .u128 value ∧ value.val = n := by
  cases reply <;> simp [Reply.u128?]

theorem Reply.unit?_eq_some {reply : Reply} {u : Unit} : reply.unit? = some u ↔ reply = .unit := by
  cases reply <;> simp [Reply.unit?]

theorem Reply.offer?_eq_some {reply : Reply} {n : Int} :
    reply.offer? = some n ↔ ∃ offerAmount, reply = .offer offerAmount ∧ offerAmount.val = n := by
  cases reply <;> simp [Reply.offer?]

theorem Reply.amountAndPrice?_eq_some {reply : Reply} {n : Int × Int} :
    reply.amountAndPrice? = some n ↔
      ∃ amount price, reply = .amountAndPrice amount price ∧ (amount.val, price.val) = n := by
  cases reply <;> simp [Reply.amountAndPrice?]

end WowmaxStellar.Adapters
