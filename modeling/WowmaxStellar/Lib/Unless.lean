import WowmaxStellar.Lib.Loop

/-!
# Programs that agree unless one escapes

`Unless X x y`: from every state `x` does what `y` does, to the state it leaves, unless `y`
throws an exception that satisfies `X`. So `x` may stand in for `y` wherever `y` does not
escape.

* `Unless.bind` — sequencing;
* `Unless.loop` — two loops over lists whose elements correspond.
-/

namespace Runs

variable {ε σ α β γ : Type} {X : ε → Prop}

def Unless (X : ε → Prop) (x y : EStateM ε σ α) : Prop :=
  ∀ s, x s = y s ∨ ∃ e t, y s = .error e t ∧ X e

theorem Unless.refl (x : EStateM ε σ α) : Unless X x x := fun _ => .inl rfl

/-- The rule for sequencing. The continuations are only compared on what the first part can
return. -/
theorem Unless.bind {x y : EStateM ε σ α} {f g : α → EStateM ε σ β} (hxy : Unless X x y)
    (hfg : ∀ a, (∃ s t, y s = .ok a t) → Unless X (f a) (g a)) :
    Unless X (x >>= f) (y >>= g) := by
  intro s
  rcases hxy s with heq | ⟨e, t, hy, hX⟩
  · cases hy : y s with
    | ok a t =>
        rw [bind_of_ok (heq.trans hy), bind_of_ok hy]
        exact hfg a ⟨s, t, hy⟩ t
    | error e t =>
        left
        rw [bind_of_error (heq.trans hy), bind_of_error hy]
  · exact .inr ⟨e, t, bind_of_error hy, hX⟩

/-- A common first part. -/
theorem Unless.bind_right (x : EStateM ε σ α) {f g : α → EStateM ε σ β}
    (hfg : ∀ a, (∃ s t, x s = .ok a t) → Unless X (f a) (g a)) :
    Unless X (x >>= f) (x >>= g) := (Unless.refl x).bind hfg

/-- The rule for two loops, element by element. -/
theorem Unless.loop {body : Nat → α → β → EStateM ε σ β} {body' : Nat → γ → β → EStateM ε σ β}
    {xs : List α} {ys : List γ} {R : α → γ → Prop} (hxs : List.Forall₂ R xs ys)
    (hbody : ∀ i a c b, R a c → Unless X (body i a b) (body' i c b)) (i : Nat) (b : β) :
    Unless X (loop body i xs b) (loop body' i ys b) := by
  induction hxs generalizing i b with
  | nil => exact .refl _
  | cons hac _ ih => exact (hbody i _ _ b hac).bind fun b' _ => ih (i + 1) b'

end Runs
