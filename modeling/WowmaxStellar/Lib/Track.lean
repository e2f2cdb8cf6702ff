import WowmaxStellar.Lib.Loop

/-!
# Runs that track a pure computation

A run tracks an optional value when it returns exactly if there is one, except that it
may still escape with an exception that satisfies `X`.

* `Tracks.bind` — sequencing;
* `Tracks.loop` — an index loop against the pure loop `walk`;
* `walk_inv`, `walk_upTo`, `walk_sim` — the rules for one and for two pure loops;
* `walk_perm` — a pure loop in another order;
* `Tracks.and_left` — what is known of the run alone comes along.
-/

namespace Runs

variable {ε σ α β γ δ : Type} {X : ε → Prop}

/-- The run returned and `R` relates what it returned to the value; or there is no value
and the run threw; or it threw an escape. -/
def Tracks (X : ε → Prop) (R : α → σ → β → Prop) : EStateM.Result ε σ α → Option β → Prop
  | .ok a s, some b => R a s b
  | .ok _ _, none => False
  | .error e _, some _ => X e
  | .error _ _, none => True

theorem Tracks.fail {R : α → σ → β → Prop} (e : ε) (s : σ) :
    Tracks X R (.error e s : EStateM.Result ε σ α) none := trivial

theorem Tracks.escape {R : α → σ → β → Prop} {e : ε} {s : σ} (hX : X e) (o : Option β) :
    Tracks X R (.error e s : EStateM.Result ε σ α) o := by
  cases o with
  | none => trivial
  | some b => exact hX

theorem Tracks.mono {R R' : α → σ → β → Prop} {r : EStateM.Result ε σ α} {o : Option β}
    (h : Tracks X R r o) (hR : ∀ a s b, R a s b → R' a s b) : Tracks X R' r o := by
  cases r <;> cases o <;> first | exact hR _ _ _ h | exact h

theorem Tracks.map {R : α → σ → β → Prop} {R' : α → σ → δ → Prop} {g : β → δ}
    {r : EStateM.Result ε σ α} {o : Option β} (h : Tracks X R r o)
    (hR : ∀ a s b, R a s b → R' a s (g b)) : Tracks X R' r (o.map g) := by
  cases r <;> cases o <;> first | exact hR _ _ _ h | exact h

/-- To track an image is to track what it is the image of. -/
theorem Tracks.of_map {R : α → σ → δ → Prop} {g : β → δ} {r : EStateM.Result ε σ α}
    {o : Option β} (h : Tracks X R r (o.map g)) : Tracks X (fun a s b => R a s (g b)) r o := by
  cases r <;> cases o <;> exact h

theorem Tracks.and_left {x : EStateM ε σ α} {s : σ} {o : Option β} {R : α → σ → β → Prop}
    {Q : α → σ → Prop} {E : ε → σ → Prop} (h : Tracks X R (x s) o) (hpost : Post x s Q E) :
    Tracks X (fun a s b => R a s b ∧ Q a s) (x s) o := by
  cases hx : x s with
  | ok a s' =>
      rw [hx] at h
      cases o with
      | none => exact h
      | some b => exact ⟨h, hpost.ok hx⟩
  | error e s' =>
      rw [hx] at h
      cases o <;> exact h

/-- Two runs that track the same value are in lockstep. -/
theorem Tracks.lockstep {σ' α' : Type} {R : α → σ → β → Prop} {R' : α' → σ' → β → Prop}
    {r : EStateM.Result ε σ α} {r' : EStateM.Result ε σ' α'} {o : Option β} (h : Tracks X R r o)
    (h' : Tracks X R' r' o) :
    Lockstep X (fun _ _ _ _ => True) (fun a a' s t => ∃ b, R a s b ∧ R' a' t b) r r' := by
  cases o with
  | none =>
      cases r with
      | ok a s => exact h.elim
      | error e s =>
          cases r' with
          | ok a t => exact h'.elim
          | error e' t => exact .inr (.inr trivial)
  | some b =>
      cases r with
      | ok a s =>
          cases r' with
          | ok a' t => exact ⟨b, h, h'⟩
          | error e t => exact h'
      | error e s => exact .escape_left rfl h

/-- The rule for sequencing. -/
theorem Tracks.bind {x : EStateM ε σ α} {f : α → EStateM ε σ γ} {s : σ} {o : Option β}
    {g : β → Option δ} {R : α → σ → β → Prop} {R' : γ → σ → δ → Prop} (hx : Tracks X R (x s) o)
    (hfg : ∀ a s' b, x s = .ok a s' → o = some b → R a s' b → Tracks X R' (f a s') (g b)) :
    Tracks X R' ((x >>= f) s) (o.bind g) := by
  cases hrun : x s with
  | ok a s' =>
      rw [bind_of_ok hrun]
      rw [hrun] at hx
      cases o with
      | none => exact hx.elim
      | some b => exact hfg a s' b hrun rfl hx
  | error e s' =>
      rw [bind_of_error hrun]
      rw [hrun] at hx
      cases o with
      | none => trivial
      | some b =>
          have hX : X e := hx
          exact .escape hX _

/-- The pure index loop: it stops at the first step without a value. -/
def walk (f : Nat → α → β → Option β) : Nat → List α → β → Option β
  | _, [], b => some b
  | i, a :: rest, b => (f i a b).bind (walk f (i + 1) rest)

theorem walk_append {f : Nat → α → β → Option β} {i : Nat} {xs ys : List α} {b : β} :
    walk f i (xs ++ ys) b = (walk f i xs b).bind (walk f (i + xs.length) ys) := by
  induction xs generalizing i b with
  | nil => rfl
  | cons a rest ih =>
      have hindex : i + (a :: rest).length = i + 1 + rest.length := by
        simp only [List.length_cons]
        omega
      show (f i a b).bind (walk f (i + 1) (rest ++ ys)) =
        ((f i a b).bind (walk f (i + 1) rest)).bind (walk f (i + (a :: rest).length) ys)
      rw [Option.bind_assoc, hindex]
      exact congrArg _ (funext fun _ => ih)

/-- A pure loop whose steps do not look at the index. -/
theorem walk_steady {f : Nat → α → β → Option β} {g : α → β → Option β} {i : Nat} {xs : List α}
    {b : β} (h : ∀ j, i ≤ j → j < i + xs.length → f j = g) :
    walk f i xs b = walk (fun _ => g) i xs b := by
  induction xs generalizing i b with
  | nil => rfl
  | cons a rest ih =>
      have hfirst : f i = g := h i le_rfl (by simp)
      have hrest : ∀ b', walk f (i + 1) rest b' = walk (fun _ => g) (i + 1) rest b' := by
        intro b'
        apply ih
        intro j hle hlt
        exact h j (by omega) (by simp only [List.length_cons]; omega)
      show (f i a b).bind _ = (g a b).bind _
      rw [hfirst]
      exact congrArg _ (funext hrest)

/-- It does not matter in which order such a loop takes its elements, if any two of them may be
swapped. -/
theorem walk_perm {g : α → β → Option β} {xs ys : List α} (hperm : xs.Perm ys)
    (hswap : ∀ x ∈ xs, ∀ y ∈ xs, x ≠ y → ∀ b, (g x b).bind (g y) = (g y b).bind (g x))
    (i : Nat) (b : β) : walk (fun _ => g) i xs b = walk (fun _ => g) i ys b := by
  induction hperm generalizing i b with
  | nil => rfl
  | cons x _ ih =>
      refine congrArg _ (funext fun b' => ih (fun y hy z hz => ?_) (i + 1) b')
      exact hswap y (List.mem_cons_of_mem x hy) z (List.mem_cons_of_mem x hz)
  | swap x y rest =>
      have hpair : (g y b).bind (g x) = (g x b).bind (g y) := by
        by_cases hsame : x = y
        · rw [hsame]
        · exact hswap y (by simp) x (by simp) (Ne.symm hsame) b
      show (g y b).bind (fun b' => (g x b').bind _) = (g x b).bind fun b' => (g y b').bind _
      rw [← Option.bind_assoc, ← Option.bind_assoc, hpair]
  | trans hfirst _ ih ih' =>
      rw [ih hswap, ih']
      intro x hx y hy
      exact hswap x (hfirst.mem_iff.mpr hx) y (hfirst.mem_iff.mpr hy)

/-- The invariant rule for a pure loop. -/
theorem walk_inv {f : Nat → α → β → Option β} {xs : List α} {I : β → Prop}
    (hstep : ∀ i a b c, a ∈ xs → I b → f i a b = some c → I c) {i : Nat} {b c : β} (h : I b)
    (hwalk : walk f i xs b = some c) : I c := by
  induction xs generalizing i b with
  | nil =>
      cases hwalk
      exact h
  | cons a rest ih =>
      obtain ⟨b', hfirst, hrest⟩ := Option.bind_eq_some_iff.mp hwalk
      exact ih (fun i x b c hx => hstep i x b c (List.mem_cons_of_mem a hx))
        (hstep i a b b' (List.mem_cons_self ..) h hfirst) hrest

/-- The invariant rule for a pure loop, over the elements already done. -/
theorem walk_upTo {f : Nat → α → β → Option β} {xs : List α} {I : List α → β → Prop}
    (hstep : ∀ done a rest, done ++ a :: rest = xs → ∀ b c, I done b →
      f done.length a b = some c → I (done ++ [a]) c) {b c : β} (h : I [] b)
    (hwalk : walk f 0 xs b = some c) : I xs c := by
  suffices hrest : ∀ rest done b, done ++ rest = xs → I done b →
      walk f done.length rest b = some c → I xs c from hrest xs [] b rfl h hwalk
  intro rest
  induction rest with
  | nil =>
      intro done b hsplit hI hwalk
      rw [List.append_nil] at hsplit
      obtain rfl := Option.some.inj hwalk
      exact hsplit ▸ hI
  | cons a rest ih =>
      intro done b hsplit hI hwalk
      obtain ⟨b', hfirst, hrest⟩ := Option.bind_eq_some_iff.mp hwalk
      refine ih (done ++ [a]) b' (by simpa using hsplit)
        (hstep done a rest hsplit b b' hI hfirst) ?_
      simpa using hrest

/-- The rule for two pure loops: the second one gets through where the first one does. -/
theorem walk_sim {f : Nat → α → β → Option β} (xs : List α) {R : β → β → Prop}
    (hstep : ∀ i a b b' c, a ∈ xs → R b b' → f i a b = some c → ∃ c', f i a b' = some c' ∧ R c c')
    {i : Nat} {b b' c : β} (h : R b b') (hwalk : walk f i xs b = some c) :
    ∃ c', walk f i xs b' = some c' ∧ R c c' := by
  induction xs generalizing i b b' with
  | nil =>
      cases hwalk
      exact ⟨b', rfl, h⟩
  | cons a rest ih =>
      obtain ⟨d, hfirst, hrest⟩ := Option.bind_eq_some_iff.mp hwalk
      obtain ⟨d', hfirst', hd⟩ := hstep i a b b' d (List.mem_cons_self ..) h hfirst
      obtain ⟨c', hrest', hc⟩ := ih
        (fun i x b b' c hx => hstep i x b b' c (List.mem_cons_of_mem a hx)) hd hrest
      exact ⟨c', Option.bind_eq_some_iff.mpr ⟨d', hfirst', hrest'⟩, hc⟩

/-- The invariant rule for a loop and the pure loop it tracks. -/
theorem Tracks.loop {body : Nat → α → β → EStateM ε σ β} {f : Nat → α → γ → Option γ}
    {xs : List α} {I : List α → β → σ → γ → Prop} {b : β} {s : σ} {c : γ}
    (hstep : ∀ done a rest, done ++ a :: rest = xs → ∀ b s c, I done b s c →
      Tracks X (I (done ++ [a])) (body done.length a b s) (f done.length a c))
    (h : I [] b s c) : Tracks X (I xs) (loop body 0 xs b s) (walk f 0 xs c) := by
  suffices hrest : ∀ rest done b s c, done ++ rest = xs → I done b s c →
      Tracks X (I xs) (Runs.loop body done.length rest b s) (walk f done.length rest c) from
    hrest xs [] b s c rfl h
  intro rest
  induction rest with
  | nil =>
      intro done b s c hsplit hI
      rw [List.append_nil] at hsplit
      subst hsplit
      exact hI
  | cons a rest ih =>
      intro done b s c hsplit hI
      rw [loop_cons]
      refine (hstep done a rest hsplit b s c hI).bind ?_
      intro b' s' c' _ _ hI'
      have hnext := ih (done ++ [a]) b' s' c' (by simpa using hsplit) hI'
      simpa using hnext

end Runs
