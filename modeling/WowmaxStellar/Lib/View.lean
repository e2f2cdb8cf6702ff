import WowmaxStellar.Lib.Loop

/-!
# Programs that see a part of the state

`Sees view x` says that `view` is all `x` knows of the state: from two states with the same
view, `x` ends the same way, in states with the same view again. It goes through sequences,
branches and loops.

* `Sees.bind`, `Sees.ite`, `Sees.loop` — the rules;
* `Sees.lockstep`, `Sees.lockstep_bind` — two runs of such a program are in lockstep.
-/

namespace Runs

variable {ε σ α β γ δ τ : Type} {view : σ → τ}

/-- A result, with the view of the state it leaves. -/
def viewed (view : σ → τ) : EStateM.Result ε σ α → Except ε α × τ
  | .ok a s => (.ok a, view s)
  | .error e s => (.error e, view s)

/-- All `x` knows of the state is its view. -/
def Sees (view : σ → τ) (x : EStateM ε σ α) : Prop :=
  ∀ s t, view s = view t → viewed view (x s) = viewed view (x t)

theorem viewed_eq_ok {r : EStateM.Result ε σ α} {a : α} {v : τ}
    (h : viewed view r = (.ok a, v)) : ∃ s, r = .ok a s ∧ view s = v := by
  cases r with
  | ok b s =>
      cases h
      exact ⟨s, rfl, rfl⟩
  | error e s => cases h

theorem viewed_eq_error {r : EStateM.Result ε σ α} {e : ε} {v : τ}
    (h : viewed view r = (.error e, v)) : ∃ s, r = .error e s ∧ view s = v := by
  cases r with
  | ok b s => cases h
  | error e' s =>
      cases h
      exact ⟨s, rfl, rfl⟩

/-- The two ways in which a pair of runs can end. -/
theorem Sees.cases {x : EStateM ε σ α} (hx : Sees view x) {s t : σ} (h : view s = view t) :
    (∃ a s' t', x s = .ok a s' ∧ x t = .ok a t' ∧ view s' = view t') ∨
      ∃ e s' t', x s = .error e s' ∧ x t = .error e t' ∧ view s' = view t' := by
  have hsame := hx s t h
  cases hrun : x s with
  | ok a s' =>
      rw [hrun] at hsame
      obtain ⟨t', ht, hview⟩ := viewed_eq_ok hsame.symm
      exact .inl ⟨a, s', t', rfl, ht, hview.symm⟩
  | error e s' =>
      rw [hrun] at hsame
      obtain ⟨t', ht, hview⟩ := viewed_eq_error hsame.symm
      exact .inr ⟨e, s', t', rfl, ht, hview.symm⟩

theorem Sees.pure (a : α) : Sees view (pure a : EStateM ε σ α) := by
  intro s t h
  show (Except.ok a, view s) = (Except.ok a, view t)
  rw [h]

theorem Sees.throw (e : ε) : Sees view (throw e : EStateM ε σ α) := by
  intro s t h
  show (Except.error e, view s) = (Except.error e, view t)
  rw [h]

theorem Sees.ite {c : Prop} [Decidable c] {x y : EStateM ε σ α} (hx : Sees view x)
    (hy : Sees view y) : Sees view (if c then x else y) := by
  split
  · exact hx
  · exact hy

theorem Sees.bind {x : EStateM ε σ α} {f : α → EStateM ε σ β} (hx : Sees view x)
    (hf : ∀ a, Sees view (f a)) : Sees view (x >>= f) := by
  intro s t h
  rcases hx.cases h with ⟨a, s', t', hs, ht, hview⟩ | ⟨e, s', t', hs, ht, hview⟩
  · rw [bind_of_ok hs, bind_of_ok ht]
    exact hf a s' t' hview
  · rw [bind_of_error hs, bind_of_error ht]
    show (Except.error e, view s') = (Except.error e, view t')
    rw [hview]

theorem Sees.loop {body : Nat → α → β → EStateM ε σ β} {i : Nat} {xs : List α} {b : β}
    (hbody : ∀ i a b, Sees view (body i a b)) : Sees view (loop body i xs b) := by
  induction xs generalizing i b with
  | nil => exact .pure b
  | cons a rest ih =>
      rw [loop_cons]
      exact (hbody i a b).bind fun _ => ih

section Lockstep

variable {X : ε → Prop} {x : EStateM ε σ α} {s t : σ}

theorem Sees.lockstep (hx : Sees view x) (h : view s = view t) :
    Lockstep X (fun _ _ _ _ => True) (fun a b s t => a = b ∧ view s = view t) (x s) (x t) := by
  rcases hx.cases h with ⟨a, s', t', hs, ht, hview⟩ | ⟨e, s', t', hs, ht, hview⟩
  · rw [hs, ht]
    exact ⟨rfl, hview⟩
  · rw [hs, ht]
    exact .inr (.inr trivial)

/-- A first part that both runs have in common. -/
theorem Sees.lockstep_bind {f : α → EStateM ε σ γ} {g : α → EStateM ε σ δ}
    {R : γ → δ → σ → σ → Prop} (hx : Sees view x) (h : view s = view t)
    (hfg : ∀ a s' t', view s' = view t' →
      Lockstep X (fun _ _ _ _ => True) R (f a s') (g a t')) :
    Lockstep X (fun _ _ _ _ => True) R ((x >>= f) s) ((x >>= g) t) := by
  refine (hx.lockstep h).bind ?_
  rintro a _ s' t' - - ⟨rfl, hview⟩
  exact hfg a s' t' hview

end Lockstep

end Runs
