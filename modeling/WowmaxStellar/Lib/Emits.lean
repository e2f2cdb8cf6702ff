import WowmaxStellar.Lib.Loop

/-!
# Programs with a fixed log

`Emits log x out` says that `x`, whatever it reads and computes, logs `out` and nothing else:
all of it when it returns, a prefix of it when it throws. The logs of a sequence are put
behind one another, so what a loop logs is told by the list it runs over.

* `Emits.bind`, `Emits.loop` — the rules;
* `Emits.ok`, `Emits.error` — what a run has logged.
-/

namespace Runs

variable {ε σ α β ω : Type} {log : σ → List ω}

/-- Whatever `x` does, it logs `out`. -/
def Emits (log : σ → List ω) (x : EStateM ε σ α) (out : List ω) : Prop :=
  ∀ s, Post x s (fun _ s' => log s' = log s ++ out)
    fun _ s' => ∃ part, part <+: out ∧ log s' = log s ++ part

theorem Emits.ok {x : EStateM ε σ α} {out : List ω} (h : Emits log x out) {s s' : σ} {a : α}
    (hrun : x s = .ok a s') : log s' = log s ++ out :=
  (h s).ok hrun

theorem Emits.error {x : EStateM ε σ α} {out : List ω} (h : Emits log x out) {s s' : σ} {e : ε}
    (hrun : x s = .error e s') : ∃ part, part <+: out ∧ log s' = log s ++ part :=
  (h s).error hrun

theorem Emits.pure (a : α) : Emits log (pure a : EStateM ε σ α) [] := by
  intro s
  exact .pure (List.append_nil _).symm

/-- A program that throws at once has logged a prefix of anything. -/
theorem Emits.throw (e : ε) (out : List ω) : Emits log (throw e : EStateM ε σ α) out := by
  intro s
  exact .throw ⟨[], List.nil_prefix, (List.append_nil _).symm⟩

theorem Emits.ite {c : Prop} [Decidable c] {x y : EStateM ε σ α} {out : List ω}
    (hx : Emits log x out) (hy : Emits log y out) : Emits log (if c then x else y) out := by
  split
  · exact hx
  · exact hy

theorem Emits.bind {x : EStateM ε σ α} {f : α → EStateM ε σ β} {out out' : List ω}
    (hx : Emits log x out) (hf : ∀ a, Emits log (f a) out') :
    Emits log (x >>= f) (out ++ out') := by
  intro s
  cases hrun : x s with
  | error e s' =>
      obtain ⟨part, hpart, hlog⟩ := hx.error hrun
      exact .of_error (bind_of_error hrun) ⟨part, hpart.trans (List.prefix_append _ _), hlog⟩
  | ok a s' =>
      have hlog := hx.ok hrun
      unfold Post
      rw [bind_of_ok hrun]
      refine (hf a s').mono ?_ ?_
      · intro b s'' h
        rw [h, hlog, List.append_assoc]
      · rintro e s'' ⟨part, hpart, h⟩
        refine ⟨out ++ part, (List.prefix_append_right_inj out).mpr hpart, ?_⟩
        rw [h, hlog, List.append_assoc]

/-- A first part that logs nothing. -/
theorem Emits.silent_bind {x : EStateM ε σ α} {f : α → EStateM ε σ β} {out : List ω}
    (hx : Emits log x []) (hf : ∀ a, Emits log (f a) out) : Emits log (x >>= f) out :=
  hx.bind hf

/-- A first part that logs one entry. -/
theorem Emits.cons_bind {x : EStateM ε σ α} {f : α → EStateM ε σ β} {entry : ω} {out : List ω}
    (hx : Emits log x [entry]) (hf : ∀ a, Emits log (f a) out) :
    Emits log (x >>= f) (entry :: out) :=
  hx.bind hf

/-- A last part that logs nothing. -/
theorem Emits.bind_silent {x : EStateM ε σ α} {f : α → EStateM ε σ β} {out : List ω}
    (hx : Emits log x out) (hf : ∀ a, Emits log (f a) []) : Emits log (x >>= f) out := by
  have h := hx.bind hf
  rw [List.append_nil] at h
  exact h

theorem Emits.loop {body : Nat → α → β → EStateM ε σ β} {xs : List α} (logs : α → List ω)
    (hbody : ∀ i a b, Emits log (body i a b) (logs a)) (i : Nat) (b : β) :
    Emits log (loop body i xs b) (xs.flatMap logs) := by
  induction xs generalizing i b with
  | nil => exact .pure b
  | cons a rest ih =>
      rw [loop_cons, List.flatMap_cons]
      exact (hbody i a b).bind fun b' => ih (i + 1) b'

theorem Emits.silent_loop {body : Nat → α → β → EStateM ε σ β} {xs : List α} {i : Nat} {b : β}
    (hbody : ∀ i a b, Emits log (body i a b) []) : Emits log (Runs.loop body i xs b) [] := by
  have h : Emits log (Runs.loop body i xs b) (xs.flatMap fun _ => []) :=
    .loop (fun _ => []) hbody i b
  rw [List.flatMap_eq_nil_iff.mpr fun _ _ => rfl] at h
  exact h

end Runs
