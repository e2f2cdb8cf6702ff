import WowmaxStellar.Lib.Loop

/-!
# Programs that move along a relation

`Moves R x` says that a run of `x` which returns goes from its first state to its last one
along `R`. For a reflexive and transitive `R` that is a property of the host calls `x` is
made of: it goes through sequences, branches and loops.
-/

namespace Runs

variable {ε σ α β : Type} {R : σ → σ → Prop}

/-- Wherever `x` returns, it has moved along `R`. -/
def Moves (R : σ → σ → Prop) (x : EStateM ε σ α) : Prop :=
  ∀ s a s', x s = .ok a s' → R s s'

theorem Moves.throw (e : ε) : Moves R (throw e : EStateM ε σ α) := by
  intro s a s' hrun
  cases hrun

theorem Moves.ite {c : Prop} [Decidable c] {x y : EStateM ε σ α} (hx : Moves R x)
    (hy : Moves R y) : Moves R (if c then x else y) := by
  split
  · exact hx
  · exact hy

theorem Moves.pure (hrefl : ∀ s, R s s) (a : α) : Moves R (pure a : EStateM ε σ α) := by
  intro s b s' hrun
  cases hrun
  exact hrefl s

theorem Moves.bind (htrans : ∀ s t u, R s t → R t u → R s u) {x : EStateM ε σ α}
    {f : α → EStateM ε σ β} (hx : Moves R x) (hf : ∀ a, Moves R (f a)) : Moves R (x >>= f) := by
  intro s b s'' hrun
  obtain ⟨a, s', hfirst, hsecond⟩ := bind_ok_iff.mp hrun
  exact htrans s s' s'' (hx s a s' hfirst) (hf a s' b s'' hsecond)

end Runs
