import Mathlib.Algebra.Order.BigOperators.Group.List
import Mathlib.Algebra.Order.Ring.Int
import Mathlib.Data.List.Induction

/-!
# Paths and their legs

A path of tokens, states or hops is traded, walked or encoded leg by leg.

* `legs` — the consecutive pairs of a list, with its two ends;
* `cons_map_legs`, `legs_reverse` — the list back from them, and the way back;
* `foldlM_push` — a loop over indices that pushes the elements of a list builds that list.
-/

namespace Paths

variable {α β γ ε : Type}

/-- The consecutive pairs of a path. -/
def legs : List α → List (α × α)
  | a :: b :: rest => (a, b) :: legs (b :: rest)
  | _ => []

@[simp] theorem legs_cons_cons (a b : α) (rest : List α) :
    legs (a :: b :: rest) = (a, b) :: legs (b :: rest) := rfl

@[simp] theorem length_legs (path : List α) : (legs path).length = path.length - 1 := by
  induction path with
  | nil => rfl
  | cons a rest ih =>
      cases rest with
      | nil => rfl
      | cons b rest =>
          rw [legs_cons_cons, List.length_cons, ih]
          simp only [List.length_cons]
          omega

theorem getElem?_legs {path : List α} {i : Nat} {leg : α × α} :
    (legs path)[i]? = some leg ↔ path[i]? = some leg.1 ∧ path[i + 1]? = some leg.2 := by
  induction path generalizing i with
  | nil => simp
  | cons a rest ih =>
      cases rest with
      | nil => simp
      | cons b rest =>
          cases i with
          | zero =>
              obtain ⟨x, y⟩ := leg
              simp
          | succ i =>
              rw [legs_cons_cons, List.getElem?_cons_succ, ih]
              rfl

/-- The first leg leaves from the first element. -/
theorem head?_legs {path : List α} (hlen : 2 ≤ path.length) :
    (legs path).head?.map Prod.fst = path.head? := by
  match path, hlen with
  | a :: b :: rest, _ => rfl

/-- The last leg arrives at the last element. -/
theorem getLast?_legs {path : List α} (hlen : 2 ≤ path.length) :
    (legs path).getLast?.map Prod.snd = path.getLast? := by
  induction path with
  | nil => simp at hlen
  | cons a rest ih =>
      match rest, ih with
      | [], _ => simp at hlen
      | [b], _ => rfl
      | b :: c :: rest, ih =>
          have hrest := ih (by simp)
          rw [legs_cons_cons, List.getLast?_cons_cons, ← hrest]
          rfl

/-- The path is its first element and where its legs arrive. -/
theorem cons_map_legs (a : α) (rest : List α) :
    a :: (legs (a :: rest)).map Prod.snd = a :: rest := by
  induction rest generalizing a with
  | nil => rfl
  | cons b rest ih =>
      rw [legs_cons_cons, List.map_cons, ih]

theorem legs_concat_concat (path : List α) (a b : α) :
    legs (path ++ [a] ++ [b]) = legs (path ++ [a]) ++ [(a, b)] := by
  induction path with
  | nil => rfl
  | cons c rest ih =>
      cases rest with
      | nil => rfl
      | cons d rest =>
          show (c, d) :: legs (d :: rest ++ [a] ++ [b]) = (c, d) :: (legs (d :: rest ++ [a]) ++ _)
          rw [ih]

/-- The way back makes every leg the other way round, from the last one on. -/
theorem legs_reverse (path : List α) :
    legs path.reverse = ((legs path).map Prod.swap).reverse := by
  induction path with
  | nil => rfl
  | cons a rest ih =>
      cases rest with
      | nil => rfl
      | cons b rest =>
          rw [List.reverse_cons, List.reverse_cons, legs_concat_concat, ← List.reverse_cons, ih,
            legs_cons_cons, List.map_cons, List.reverse_cons]
          rfl

/-- What a zip makes of its left list only. -/
theorem zipWith_left (f : α → γ) {xs : List α} {ys : List β} (hlength : xs.length = ys.length) :
    List.zipWith (fun x _ => f x) xs ys = xs.map f :=
  calc List.zipWith (fun x _ => f x) xs ys
      = (List.zip xs ys).map fun pair => f pair.1 := by
        rw [List.zip_eq_zipWith, List.map_zipWith]
    _ = ((List.zip xs ys).map Prod.fst).map f := List.map_map.symm
    _ = xs.map f := by rw [List.map_fst_zip hlength.le]

/-- What a zip makes of its right list only. -/
theorem zipWith_right (f : β → γ) {xs : List α} {ys : List β} (hlength : xs.length = ys.length) :
    List.zipWith (fun _ y => f y) xs ys = ys.map f := by
  rw [List.zipWith_comm]
  exact zipWith_left f hlength.symm

/-- A loop that pushes what `body` makes of each index builds the list whose elements
`body` makes. -/
theorem foldlM_push (body : Nat → Except ε β) (built : List β)
    (hbody : ∀ i b, built[i]? = some b → body i = .ok b) :
    (List.range built.length).foldlM (fun out i => do
      let b ← body i
      pure (out ++ [b])) [] = .ok built := by
  induction built using List.reverseRecOn with
  | nil => rfl
  | append_singleton built b ih =>
      have hinit : ∀ i a, built[i]? = some a → body i = .ok a := by
        intro i a hi
        apply hbody
        rw [List.getElem?_append_left (List.getElem?_eq_some_iff.mp hi).1]
        exact hi
      have hlast : body built.length = .ok b := hbody _ _ (by simp)
      rw [List.length_append, List.length_singleton, List.range_succ, List.foldlM_append,
        ih hinit]
      simp only [List.foldlM_cons, List.foldlM_nil]
      show (body built.length >>= fun c => pure (built ++ [c])) >>= pure = _
      rw [hlast]
      rfl

end Paths
