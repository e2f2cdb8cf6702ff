import WowmaxStellar.Lib.Run

/-!
# Index loops over a list

`loop body i xs b` runs `body` on every element of `xs` with its index, counted from
`i`, threading an accumulator: `while i < n { b = body(i, xs[i], b); i += 1 }`.
An invariant of a loop speaks of the elements already done.

* `loop_append` — a loop stops and goes on at any point;
* `Post.loop_upTo`, `Post.loop`, `Lockstep.loop` — the invariant rules for one and for two loops;
* `Post.loop_reached` — the rule whose steps know the run that came to them.
-/

namespace Runs

variable {ε σ σ' α γ β β' : Type}

def loop (body : Nat → α → β → EStateM ε σ β) : Nat → List α → β → EStateM ε σ β
  | _, [], b => pure b
  | i, a :: rest, b => do
      let b ← body i a b
      loop body (i + 1) rest b

@[simp] theorem loop_nil {body : Nat → α → β → EStateM ε σ β} {i : Nat} {b : β} :
    loop body i [] b = pure b := rfl

theorem loop_cons {body : Nat → α → β → EStateM ε σ β} {i : Nat} {a : α} {rest : List α}
    {b : β} : loop body i (a :: rest) b = body i a b >>= loop body (i + 1) rest := rfl

/-- A loop over two lists is the loop over the first one, followed by the loop over the
second one from the index reached. -/
theorem loop_append {body : Nat → α → β → EStateM ε σ β} {i : Nat} {xs ys : List α} {b : β} :
    loop body i (xs ++ ys) b = loop body i xs b >>= loop body (i + xs.length) ys := by
  induction xs generalizing i b with
  | nil => simp
  | cons a rest ih =>
      have hindex : i + (a :: rest).length = i + 1 + rest.length := by
        simp only [List.length_cons]
        omega
      rw [hindex, List.cons_append, loop_cons, loop_cons, bind_assoc]
      congr 1
      funext b'
      exact ih

/-- The elements before and after an index. -/
theorem exists_split_at {xs : List α} {i : Nat} {a : α} (h : xs[i]? = some a) :
    ∃ done rest, done ++ a :: rest = xs ∧ done.length = i := by
  obtain ⟨hi, rfl⟩ := List.getElem?_eq_some_iff.mp h
  refine ⟨xs.take i, xs.drop (i + 1), ?_, ?_⟩
  · rw [List.getElem_cons_drop, List.take_append_drop]
  · rw [List.length_take]
    omega

/-- A loop over images is a loop. -/
theorem loop_map {body : Nat → γ → β → EStateM ε σ β} {f : α → γ} {i : Nat} {xs : List α}
    {b : β} : loop body i (xs.map f) b = loop (fun i a b => body i (f a) b) i xs b := by
  induction xs generalizing i b with
  | nil => rfl
  | cons a rest ih =>
      rw [List.map_cons, loop_cons, loop_cons]
      exact congrArg _ (funext fun _ => ih)

/-- Where the body ignores the index, it does not matter where it is counted from. -/
theorem loop_from {body : α → β → EStateM ε σ β} (i j : Nat) {xs : List α} {b : β} :
    loop (fun _ => body) i xs b = loop (fun _ => body) j xs b := by
  induction xs generalizing i j b with
  | nil => rfl
  | cons a rest ih =>
      rw [loop_cons, loop_cons]
      exact congrArg _ (funext fun _ => ih (i + 1) (j + 1))

theorem Steady.loop {body : Nat → α → β → EStateM ε σ β} {i : Nat} {xs : List α} {b : β}
    (hbody : ∀ i a b, Steady (body i a b)) : Steady (loop body i xs b) := by
  induction xs generalizing i b with
  | nil => exact .pure b
  | cons a rest ih =>
      rw [loop_cons]
      exact (hbody i a b).bind fun _ => ih

/-- The invariant rule, for a loop stopped after any prefix of the list. `I done b s` is
what holds once the elements `done` are through. -/
theorem Post.loop_upTo {body : Nat → α → β → EStateM ε σ β} {xs ys : List α}
    {I : List α → β → σ → Prop} {E : ε → σ → Prop} {b : β} {s : σ} (hys : ys <+: xs)
    (hstep : ∀ done a rest, done ++ a :: rest = xs → ∀ b s, I done b s →
      Post (body done.length a b) s (I (done ++ [a])) E)
    (h : I [] b s) : Post (loop body 0 ys b) s (I ys) E := by
  -- over the elements still to come, whatever is through already
  suffices hrest : ∀ rest done b s, done ++ rest = ys → I done b s →
      Post (Runs.loop body done.length rest b) s (I ys) E from hrest ys [] b s rfl h
  intro rest
  induction rest with
  | nil =>
      intro done b s hsplit hI
      rw [List.append_nil] at hsplit
      subst hsplit
      exact .pure hI
  | cons a rest ih =>
      intro done b s hsplit hI
      obtain ⟨tail, htail⟩ := hys
      have hfull : done ++ a :: (rest ++ tail) = xs := by
        rw [← htail, ← hsplit, List.append_assoc, List.cons_append]
      rw [loop_cons]
      refine (hstep done a (rest ++ tail) hfull b s hI).bind ?_
      intro b' s' hI'
      have hnext := ih (done ++ [a]) b' s' (by simpa using hsplit) hI'
      simpa using hnext

theorem Post.loop {body : Nat → α → β → EStateM ε σ β} {xs : List α}
    {I : List α → β → σ → Prop} {E : ε → σ → Prop} {b : β} {s : σ}
    (hstep : ∀ done a rest, done ++ a :: rest = xs → ∀ b s, I done b s →
      Post (body done.length a b) s (I (done ++ [a])) E)
    (h : I [] b s) : Post (loop body 0 xs b) s (I xs) E :=
  .loop_upTo List.prefix_rfl hstep h

/-- The invariant rule when a step may use the run that came to it. -/
theorem Post.loop_reached {body : Nat → α → β → EStateM ε σ β} {xs : List α}
    {I : List α → β → σ → Prop} {E : ε → σ → Prop} {b : β} {s : σ}
    (hstep : ∀ done a rest, done ++ a :: rest = xs → ∀ b' s',
      Runs.loop body 0 done b s = .ok b' s' → I done b' s' →
      Post (body done.length a b') s' (I (done ++ [a])) E)
    (h : I [] b s) : Post (Runs.loop body 0 xs b) s (I xs) E := by
  refine Post.mono (Post.loop
    (I := fun done b' s' => Runs.loop body 0 done b s = .ok b' s' ∧ I done b' s') ?_ ⟨rfl, h⟩)
    (fun _ _ hI => hI.2) fun _ _ hE => hE
  rintro done a rest hsplit b' s' ⟨hrun, hI⟩
  have hpost := hstep done a rest hsplit b' s' hrun hI
  refine .intro (fun b'' s'' hok => ⟨?_, hpost.ok hok⟩) fun e s'' herr => hpost.error herr
  rw [loop_append, bind_of_ok hrun, Nat.zero_add, loop_cons, bind_of_ok hok]
  rfl

/-- The invariant rule for two loops over one list in lockstep. -/
theorem Lockstep.loop {X : ε → Prop} {F : ε → ε → σ → σ' → Prop}
    {body : Nat → α → β → EStateM ε σ β} {body' : Nat → α → β' → EStateM ε σ' β'}
    {xs : List α} {I : List α → β → β' → σ → σ' → Prop} {b : β} {b' : β'} {s : σ} {t : σ'}
    (hstep : ∀ done a rest, done ++ a :: rest = xs → ∀ b b' s t, I done b b' s t →
      Lockstep X F (I (done ++ [a])) (body done.length a b s) (body' done.length a b' t))
    (h : I [] b b' s t) :
    Lockstep X F (I xs) (loop body 0 xs b s) (loop body' 0 xs b' t) := by
  suffices hrest : ∀ rest done b b' s t, done ++ rest = xs → I done b b' s t →
      Lockstep X F (I xs) (Runs.loop body done.length rest b s)
        (Runs.loop body' done.length rest b' t) from hrest xs [] b b' s t rfl h
  intro rest
  induction rest with
  | nil =>
      intro done b b' s t hsplit hI
      rw [List.append_nil] at hsplit
      subst hsplit
      exact hI
  | cons a rest ih =>
      intro done b b' s t hsplit hI
      rw [loop_cons, loop_cons]
      refine (hstep done a rest hsplit b b' s t hI).bind ?_
      intro c c' s' t' _ _ hI'
      have hnext := ih (done ++ [a]) c c' s' t' (by simpa using hsplit) hI'
      simpa using hnext

end Runs
