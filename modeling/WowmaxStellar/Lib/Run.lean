import Mathlib.Algebra.Order.BigOperators.Group.List
import Mathlib.Algebra.Order.Ring.Int

/-!
# Runs of state-and-exception programs

`EStateM ε σ` keeps the state reached when an exception is thrown, so one run has
one last state, returned or thrown. Three ways of talking about a run are set up
here, each with its rule for `bind`:

* `Post x s Q E` — a postcondition for each of the two endings;
* `x s = .ok a s'` — the run returned (`bind_ok_iff` takes it apart);
* `Lockstep X F R` — two runs end the same way, up to an escape `X`.

A program that does not look at the state is `Steady`; it goes through in lockstep with
itself.
-/

namespace Runs

variable {ε σ α β γ : Type}

/-! ## Postconditions -/

/-- The run of `x` from `s` ends in `Q` when it returns and in `E` when it throws. -/
def Post (x : EStateM ε σ α) (s : σ) (Q : α → σ → Prop) (E : ε → σ → Prop) : Prop :=
  match x s with
  | .ok a s' => Q a s'
  | .error e s' => E e s'

theorem Post.pure {s : σ} {a : α} {Q : α → σ → Prop} {E : ε → σ → Prop} (h : Q a s) :
    Post (pure a) s Q E := h

theorem Post.throw {s : σ} {e : ε} {Q : α → σ → Prop} {E : ε → σ → Prop} (h : E e s) :
    Post (throw e) s Q E := h

theorem Post.of_ok {x : EStateM ε σ α} {s s' : σ} {a : α} {Q : α → σ → Prop}
    {E : ε → σ → Prop} (hrun : x s = .ok a s') (h : Q a s') : Post x s Q E := by
  unfold Post
  rw [hrun]
  exact h

theorem Post.of_error {x : EStateM ε σ α} {s s' : σ} {e : ε} {Q : α → σ → Prop}
    {E : ε → σ → Prop} (hrun : x s = .error e s') (h : E e s') : Post x s Q E := by
  unfold Post
  rw [hrun]
  exact h

theorem Post.ok {x : EStateM ε σ α} {s s' : σ} {a : α} {Q : α → σ → Prop}
    {E : ε → σ → Prop} (h : Post x s Q E) (hrun : x s = .ok a s') : Q a s' := by
  unfold Post at h
  rw [hrun] at h
  exact h

theorem Post.error {x : EStateM ε σ α} {s s' : σ} {e : ε} {Q : α → σ → Prop}
    {E : ε → σ → Prop} (h : Post x s Q E) (hrun : x s = .error e s') : E e s' := by
  unfold Post at h
  rw [hrun] at h
  exact h

/-- A postcondition holds of every run that satisfies it on each ending. -/
theorem Post.intro {x : EStateM ε σ α} {s : σ} {Q : α → σ → Prop} {E : ε → σ → Prop}
    (hok : ∀ a s', x s = .ok a s' → Q a s') (herr : ∀ e s', x s = .error e s' → E e s') :
    Post x s Q E := by
  cases hrun : x s with
  | ok a s' => exact .of_ok hrun (hok a s' hrun)
  | error e s' => exact .of_error hrun (herr e s' hrun)

theorem Post.mono {x : EStateM ε σ α} {s : σ} {Q Q' : α → σ → Prop} {E E' : ε → σ → Prop}
    (h : Post x s Q E) (hQ : ∀ a s', Q a s' → Q' a s') (hE : ∀ e s', E e s' → E' e s') :
    Post x s Q' E' :=
  .intro (fun a s' hrun => hQ a s' (h.ok hrun)) (fun e s' hrun => hE e s' (h.error hrun))

theorem Post.and {x : EStateM ε σ α} {s : σ} {Q Q' : α → σ → Prop} {E E' : ε → σ → Prop}
    (h : Post x s Q E) (h' : Post x s Q' E') :
    Post x s (fun a s' => Q a s' ∧ Q' a s') (fun e s' => E e s' ∧ E' e s') :=
  .intro (fun _ _ hrun => ⟨h.ok hrun, h'.ok hrun⟩)
    (fun _ _ hrun => ⟨h.error hrun, h'.error hrun⟩)

/-- The run itself may be kept beside what is known of its end. -/
theorem Post.ran {x : EStateM ε σ α} {s : σ} {Q : α → σ → Prop} {E : ε → σ → Prop}
    (h : Post x s Q E) : Post x s (fun a s' => x s = .ok a s' ∧ Q a s') E :=
  .intro (fun _ _ hrun => ⟨hrun, h.ok hrun⟩) fun _ _ hrun => h.error hrun

/-- The rule for sequencing: the second program is run from wherever the first
one returned, and a throw of the first one ends the run. -/
theorem Post.bind {x : EStateM ε σ α} {f : α → EStateM ε σ β} {s : σ} {P : α → σ → Prop}
    {Q : β → σ → Prop} {E : ε → σ → Prop} (hx : Post x s P E)
    (hf : ∀ a s', P a s' → Post (f a) s' Q E) : Post (x >>= f) s Q E := by
  cases hrun : x s with
  | ok a s' =>
      have h := hf a s' (hx.ok hrun)
      unfold Post at h ⊢
      simpa only [Bind.bind, EStateM.bind, hrun] using h
  | error e s' =>
      have h := hx.error hrun
      unfold Post
      simpa only [Bind.bind, EStateM.bind, hrun] using h

/-- Sequencing with a first part specified on its own. -/
theorem Post.bind_mono {x : EStateM ε σ α} {f : α → EStateM ε σ β} {s : σ} {P : α → σ → Prop}
    {Q : β → σ → Prop} {E E' : ε → σ → Prop} (hx : Post x s P E')
    (hE : ∀ e s', E' e s' → E e s') (hf : ∀ a s', P a s' → Post (f a) s' Q E) :
    Post (x >>= f) s Q E :=
  (hx.mono (fun _ _ h => h) hE).bind hf

theorem Post.ite {c : Prop} [Decidable c] {x y : EStateM ε σ α} {s : σ}
    {Q : α → σ → Prop} {E : ε → σ → Prop} (hx : c → Post x s Q E)
    (hy : ¬ c → Post y s Q E) : Post (if c then x else y) s Q E := by
  by_cases hc : c
  · rw [if_pos hc]
    exact hx hc
  · rw [if_neg hc]
    exact hy hc

/-! ## Returned runs -/

/-- A sequence returns exactly when both parts return, one after the other. -/
theorem bind_ok_iff {x : EStateM ε σ α} {f : α → EStateM ε σ β} {s s'' : σ} {b : β} :
    (x >>= f) s = .ok b s'' ↔ ∃ a s', x s = .ok a s' ∧ f a s' = .ok b s'' := by
  cases hrun : x s with
  | ok a s' =>
      simp only [Bind.bind, EStateM.bind, hrun]
      constructor
      · intro h
        exact ⟨a, s', rfl, h⟩
      · rintro ⟨a', t, heq, h⟩
        cases heq
        exact h
  | error e s' =>
      simp only [Bind.bind, EStateM.bind, hrun]
      constructor
      · intro h
        cases h
      · rintro ⟨a', t, heq, _⟩
        cases heq

theorem bind_of_ok {x : EStateM ε σ α} {f : α → EStateM ε σ β} {s s' : σ} {a : α}
    (hrun : x s = .ok a s') : (x >>= f) s = f a s' := by
  simp only [Bind.bind, EStateM.bind, hrun]

theorem bind_of_error {x : EStateM ε σ α} {f : α → EStateM ε σ β} {s s' : σ} {e : ε}
    (hrun : x s = .error e s') : (x >>= f) s = .error e s' := by
  simp only [Bind.bind, EStateM.bind, hrun]

theorem pure_ok_iff {a b : α} {s s' : σ} :
    (pure a : EStateM ε σ α) s = .ok b s' ↔ a = b ∧ s = s' := by
  constructor
  · intro h
    injection h with h1 h2
    exact ⟨h1, h2⟩
  · rintro ⟨rfl, rfl⟩
    rfl

/-! ## Two runs side by side -/

/-- Two results in lockstep: both returned and `R` relates them, or both threw and
`F` relates them. A result whose exception satisfies `X` is related to anything. -/
def Lockstep {σ' : Type} (X : ε → Prop) (F : ε → ε → σ → σ' → Prop)
    (R : α → β → σ → σ' → Prop) :
    EStateM.Result ε σ α → EStateM.Result ε σ' β → Prop
  | .ok a s, .ok b t => R a b s t
  | .error e s, .error e' t => X e ∨ X e' ∨ F e e' s t
  | .error e _, .ok _ _ => X e
  | .ok _ _, .error e' _ => X e'

section Lockstep

variable {σ' δ : Type} {X : ε → Prop} {F : ε → ε → σ → σ' → Prop}

theorem Lockstep.mono {r : EStateM.Result ε σ α} {r' : EStateM.Result ε σ' β}
    {R R' : α → β → σ → σ' → Prop} (h : Lockstep X F R r r')
    (hR : ∀ a b s t, R a b s t → R' a b s t) : Lockstep X F R' r r' := by
  cases r <;> cases r' <;> first | exact hR _ _ _ _ h | exact h

theorem Lockstep.escape_left {r : EStateM.Result ε σ α} {r' : EStateM.Result ε σ' β}
    {R : α → β → σ → σ' → Prop} {e : ε} {s : σ} (hr : r = .error e s) (hX : X e) :
    Lockstep X F R r r' := by
  subst hr
  cases r' with
  | ok b t => exact hX
  | error e' t => exact .inl hX

theorem Lockstep.escape_right {r : EStateM.Result ε σ α} {r' : EStateM.Result ε σ' β}
    {R : α → β → σ → σ' → Prop} {e : ε} {t : σ'} (hr : r' = .error e t) (hX : X e) :
    Lockstep X F R r r' := by
  subst hr
  cases r with
  | ok b t => exact hX
  | error e' t => exact .inr (.inl hX)

/-- The rule for sequencing in lockstep. What is known of each run alone may be
used for the continuation: both first parts are given back with their runs. -/
theorem Lockstep.bind {x : EStateM ε σ α} {y : EStateM ε σ' β} {f : α → EStateM ε σ γ}
    {g : β → EStateM ε σ' δ} {s : σ} {t : σ'} {R : α → β → σ → σ' → Prop}
    {R' : γ → δ → σ → σ' → Prop} (hxy : Lockstep X F R (x s) (y t))
    (hfg : ∀ a b s' t', x s = .ok a s' → y t = .ok b t' → R a b s' t' →
      Lockstep X F R' (f a s') (g b t')) :
    Lockstep X F R' ((x >>= f) s) ((y >>= g) t) := by
  cases hx : x s with
  | ok a s' =>
      cases hy : y t with
      | ok b t' =>
          rw [bind_of_ok hx, bind_of_ok hy]
          rw [hx, hy] at hxy
          exact hfg a b s' t' hx hy hxy
      | error e' t' =>
          rw [hx, hy] at hxy
          exact .escape_right (bind_of_error hy) hxy
  | error e s' =>
      cases hy : y t with
      | ok b t' =>
          rw [hx, hy] at hxy
          exact .escape_left (bind_of_error hx) hxy
      | error e' t' =>
          rw [bind_of_error hx, bind_of_error hy]
          rw [hx, hy] at hxy
          exact hxy

theorem Lockstep.ok_ok {r : EStateM.Result ε σ α} {r' : EStateM.Result ε σ' β}
    {R : α → β → σ → σ' → Prop} (h : Lockstep X F R r r') {a : α} {s : σ}
    (hr : r = .ok a s) (hX : ∀ e t, r' = .error e t → ¬ X e) :
    ∃ b t, r' = .ok b t ∧ R a b s t := by
  subst hr
  cases r' with
  | ok b t => exact ⟨b, t, rfl, h⟩
  | error e t => exact absurd h (hX e t rfl)

theorem Lockstep.ok_left {r : EStateM.Result ε σ α} {r' : EStateM.Result ε σ' β}
    {R : α → β → σ → σ' → Prop} (h : Lockstep X F R r r') {b : β} {t : σ'}
    (hr' : r' = .ok b t) (hX : ∀ e s, r = .error e s → ¬ X e) :
    ∃ a s, r = .ok a s ∧ R a b s t := by
  subst hr'
  cases r with
  | ok a s => exact ⟨a, s, rfl, h⟩
  | error e s => exact absurd h (hX e s rfl)

/-- When neither result escapes, both ended the same way. -/
theorem Lockstep.ends {r : EStateM.Result ε σ α} {r' : EStateM.Result ε σ' β}
    {R : α → β → σ → σ' → Prop} (h : Lockstep X F R r r')
    (hX : ∀ e s, r = .error e s → ¬ X e) (hX' : ∀ e t, r' = .error e t → ¬ X e) :
    (∃ a b s t, r = .ok a s ∧ r' = .ok b t ∧ R a b s t) ∨
      ∃ e e' s t, r = .error e s ∧ r' = .error e' t ∧ F e e' s t := by
  cases r with
  | ok a s =>
      cases r' with
      | ok b t => exact .inl ⟨a, b, s, t, rfl, rfl, h⟩
      | error e' t => exact absurd h (hX' e' t rfl)
  | error e s =>
      cases r' with
      | ok b t => exact absurd h (hX e s rfl)
      | error e' t =>
          rcases h with h | h | h
          · exact absurd h (hX e s rfl)
          · exact absurd h (hX' e' t rfl)
          · exact .inr ⟨e, e', s, t, rfl, rfl, h⟩

/-- What is known of the first run alone may be added to a lockstep. -/
theorem Lockstep.and_left {x : EStateM ε σ α} {s : σ} {r' : EStateM.Result ε σ' β}
    {R : α → β → σ → σ' → Prop} {Q : α → σ → Prop} {E : ε → σ → Prop}
    (h : Lockstep X F R (x s) r') (hpost : Post x s Q E) :
    Lockstep X F (fun a b s t => R a b s t ∧ Q a s) (x s) r' := by
  cases hx : x s with
  | ok a s' =>
      rw [hx] at h
      cases r' with
      | ok b t => exact ⟨h, hpost.ok hx⟩
      | error e t => exact h
  | error e s' =>
      rw [hx] at h
      cases r' <;> exact h

end Lockstep

/-! ## Outcomes -/

theorem map_eq_ok_iff {r : Except ε α} {f : α → β} {b : β} :
    r.map f = .ok b ↔ ∃ a, r = .ok a ∧ f a = b := by
  cases r with
  | error e =>
      constructor
      · intro h
        cases h
      · rintro ⟨a, heq, _⟩
        cases heq
  | ok a =>
      constructor
      · intro h
        exact ⟨a, rfl, Except.ok.inj h⟩
      · rintro ⟨a', heq, rfl⟩
        cases heq
        rfl

/-- Two outcomes alike: both returned and `R` relates them, or both failed with the same
error. An error that satisfies `X` is like anything. -/
def Alike (X : ε → Prop) (R : α → β → Prop) : Except ε α → Except ε β → Prop
  | .ok a, .ok b => R a b
  | .error e, .error e' => X e ∨ X e' ∨ e = e'
  | .error e, .ok _ => X e
  | .ok _, .error e' => X e'

theorem Alike.refl {X : ε → Prop} {R : α → α → Prop} (hR : ∀ a, R a a) (r : Except ε α) :
    Alike X R r r := by
  cases r with
  | ok a => exact hR a
  | error e => exact .inr (.inr rfl)

section Alike

variable {α' β' : Type} {X : ε → Prop} {R : α → β → Prop} {R' : α' → β' → Prop}

theorem Alike.escape_left {e : ε} {r' : Except ε β} (hX : X e) : Alike X R (.error e) r' := by
  cases r' with
  | ok b => exact hX
  | error e' => exact .inl hX

theorem Alike.escape_right {e : ε} {r : Except ε α} (hX : X e) : Alike X R r (.error e) := by
  cases r with
  | ok a => exact hX
  | error e' => exact .inr (.inl hX)

/-- The four ways in which two alike outcomes can have come about. -/
theorem Alike.elim {P : Prop} {r : Except ε α} {r' : Except ε β} (h : Alike X R r r')
    (hok : ∀ a b, r = .ok a → r' = .ok b → R a b → P)
    (hleft : ∀ e, r = .error e → X e → P) (hright : ∀ e, r' = .error e → X e → P)
    (herror : ∀ e, r = .error e → r' = .error e → P) : P := by
  cases r with
  | ok a =>
      cases r' with
      | ok b => exact hok a b rfl rfl h
      | error e' => exact hright e' rfl h
  | error e =>
      cases r' with
      | ok b => exact hleft e rfl h
      | error e' =>
          rcases h with h | h | rfl
          · exact hleft e rfl h
          · exact hright e' rfl h
          · exact herror e rfl rfl

theorem Alike.bind {r : Except ε α} {r' : Except ε β} {f : α → Except ε α'}
    {g : β → Except ε β'} (h : Alike X R r r')
    (hfg : ∀ a b, r = .ok a → r' = .ok b → R a b → Alike X R' (f a) (g b)) :
    Alike X R' (r >>= f) (r' >>= g) := by
  refine h.elim ?_ ?_ ?_ ?_
  · rintro a b rfl rfl hab
    exact hfg a b rfl rfl hab
  · rintro e rfl hX
    exact .escape_left hX
  · rintro e rfl hX
    exact .escape_right hX
  · rintro e rfl rfl
    exact .inr (.inr rfl)

theorem Alike.map {r : Except ε α} {r' : Except ε β} {f : α → α'} {g : β → β'}
    (h : Alike X R r r') (hfg : ∀ a b, R a b → R' (f a) (g b)) :
    Alike X R' (r.map f) (r'.map g) := by
  cases r <;> cases r' <;> first | exact hfg _ _ h | exact h

end Alike

/-! ## Programs that do not look at the state -/

/-- `x` returns or throws the same from every state, and leaves the state alone. -/
def Steady (x : EStateM ε σ α) : Prop := (∃ a, x = pure a) ∨ ∃ e, x = throw e

section Steady

variable {x : EStateM ε σ α} {f : α → EStateM ε σ β}

theorem Steady.pure (a : α) : Steady (pure a : EStateM ε σ α) := .inl ⟨a, rfl⟩

theorem Steady.throw (e : ε) : Steady (throw e : EStateM ε σ α) := .inr ⟨e, rfl⟩

theorem Steady.ite {c : Prop} [Decidable c] {y : EStateM ε σ α} (hx : Steady x)
    (hy : Steady y) : Steady (if c then x else y) := by
  split
  · exact hx
  · exact hy

theorem Steady.bind (hx : Steady x) (hf : ∀ a, Steady (f a)) : Steady (x >>= f) := by
  rcases hx with ⟨a, rfl⟩ | ⟨e, rfl⟩
  · rw [pure_bind]
    exact hf a
  · exact .inr ⟨e, rfl⟩

theorem Steady.lockstep {X : ε → Prop} {F : ε → ε → σ → σ → Prop} {s t : σ} (hx : Steady x)
    (hF : ∀ e, F e e s t) :
    Lockstep X F (fun a b s' t' => a = b ∧ s' = s ∧ t' = t) (x s) (x t) := by
  rcases hx with ⟨a, rfl⟩ | ⟨e, rfl⟩
  · exact ⟨rfl, rfl, rfl⟩
  · exact .inr (.inr (hF e))

/-- A common first part, from one state. -/
theorem Post.lockstep_bind {X : ε → Prop} {R : β → γ → σ → σ → Prop} {x : EStateM ε σ α}
    {f : α → EStateM ε σ β} {g : α → EStateM ε σ γ} {s : σ} {Q : α → σ → Prop}
    {E : ε → σ → Prop} (hx : Post x s Q E)
    (hfg : ∀ a s', Q a s' → Lockstep X (fun _ _ _ _ => True) R (f a s') (g a s')) :
    Lockstep X (fun _ _ _ _ => True) R ((x >>= f) s) ((x >>= g) s) := by
  cases hrun : x s with
  | ok a s' =>
      rw [bind_of_ok hrun, bind_of_ok hrun]
      exact hfg a s' (hx.ok hrun)
  | error e s' =>
      rw [bind_of_error hrun, bind_of_error hrun]
      exact .inr (.inr trivial)

/-- A steady first part takes both runs to the same value, or stops both. -/
theorem Steady.lockstep_bind {X : ε → Prop} {F : ε → ε → σ → σ → Prop}
    {R : β → γ → σ → σ → Prop} {g : α → EStateM ε σ γ} {s t : σ} (hx : Steady x)
    (hF : ∀ e, F e e s t) (hfg : ∀ a, x = Pure.pure a → Lockstep X F R (f a s) (g a t)) :
    Lockstep X F R ((x >>= f) s) ((x >>= g) t) := by
  rcases hx with ⟨a, rfl⟩ | ⟨e, rfl⟩
  · rw [pure_bind, pure_bind]
    exact hfg a rfl
  · exact .inr (.inr (hF e))

end Steady

end Runs
