import Mathlib.Algebra.Order.BigOperators.Group.List
import Mathlib.Algebra.Order.Ring.Int
import Mathlib.Data.List.Nodup
import Mathlib.Data.List.Perm.Basic
import WowmaxStellar.Lib.Track

/-!
# Dataflow over pooled quantities

A node drains the quantity of its own key, works on its part of the local states, and
gives off quantities of other keys. The nodes of a list run one after the other. Two
nodes with nothing in common commute, so all topological orders of the same nodes come
to the same.

* `Net.step_comm` — independent nodes commute;
* `Net.run_bubble` — a node moves to the front past nodes independent of it;
* `Net.run_perm` — topological orders of the same nodes run alike;
* `Net.run_frame`, `Net.run_local` — a run keeps to its own local states;
* `Net.run_shift` — what came before does not matter to a run.
-/

namespace Dataflow

variable {N κ ι P E : Type}

/-- What a node gives off: a quantity of every key, and an effect on the outside. -/
structure Emission (κ E : Type) where
  out : κ → Int
  effect : E

/-- Nodes by their source key, the keys they may give off, the local states they work
on, and what they do with a quantity. -/
structure Net (N κ ι P E : Type) where
  src : N → κ
  targets : N → κ → Prop
  foot : N → ι → Prop
  process : N → Int → (ι → P) → Option (Emission κ E × (ι → P))

/-- The quantities at hand, the local states and the effects so far. -/
structure Store (κ ι P E : Type) where
  avail : κ → Int
  locals : ι → P
  effect : E

namespace Net

variable (net : Net N κ ι P E)

/-- A node keeps to its targets and to its own local states. -/
structure Lawful (n : N) : Prop where
  targets : ∀ {a v emission w}, net.process n a v = some (emission, w) →
    ∀ t, ¬ net.targets n t → emission.out t = 0
  frame : ∀ {a v emission w}, net.process n a v = some (emission, w) →
    ∀ i, ¬ net.foot n i → w i = v i
  locality : ∀ {a v v' emission w}, (∀ i, net.foot n i → v i = v' i) →
    net.process n a v = some (emission, w) →
    ∃ w', net.process n a v' = some (emission, w') ∧ ∀ i, net.foot n i → w' i = w i

/-- Local states that agree on a footprint still do after one and the same write. -/
theorem update_agree [DecidableEq ι] {foot : ι → Prop} {v v' : ι → P}
    (hagree : ∀ i, foot i → v i = v' i) (j : ι) (p : P) (i : ι) (hi : foot i) :
    Function.update v j p i = Function.update v' j p i := by
  by_cases hsame : i = j
  · rw [hsame, Function.update_self, Function.update_self]
  · rw [Function.update_of_ne hsame, Function.update_of_ne hsame, hagree i hi]

/-- Two nodes with nothing in common: other keys, neither feeds the other, and no local
state of both. -/
structure Independent (m n : N) : Prop where
  src : net.src m ≠ net.src n
  left : ¬ net.targets m (net.src n)
  right : ¬ net.targets n (net.src m)
  foot : ∀ i, net.foot m i → ¬ net.foot n i

theorem Independent.symm {net : Net N κ ι P E} {m n : N} (h : net.Independent m n) :
    net.Independent n m where
  src := h.src.symm
  left := h.right
  right := h.left
  foot i hn hm := h.foot i hm hn

/-- No node gives off a key that was drained before it. -/
def Topological (nodes : List N) : Prop :=
  nodes.Pairwise fun m n => ¬ net.targets n (net.src m)

variable [DecidableEq κ] [AddCommMonoid E]

/-- The store after a node gave off `emission` and left `w` behind. -/
def after (n : N) (s : Store κ ι P E) (emission : Emission κ E) (w : ι → P) : Store κ ι P E where
  avail t := (if t = net.src n then 0 else s.avail t) + emission.out t
  locals := w
  effect := s.effect + emission.effect

/-- One node: it drains its key. -/
def step (n : N) (s : Store κ ι P E) : Option (Store κ ι P E) :=
  (net.process n (s.avail (net.src n)) s.locals).map fun result =>
    net.after n s result.1 result.2

def run : List N → Store κ ι P E → Option (Store κ ι P E)
  | [], s => some s
  | n :: rest, s => (net.step n s).bind (run rest)

theorem step_eq_some {n : N} {s s' : Store κ ι P E} :
    net.step n s = some s' ↔ ∃ emission w,
      net.process n (s.avail (net.src n)) s.locals = some (emission, w) ∧
        net.after n s emission w = s' := by
  unfold step
  rw [Option.map_eq_some_iff]
  constructor
  · rintro ⟨⟨emission, w⟩, hprocess, rfl⟩
    exact ⟨emission, w, hprocess, rfl⟩
  · rintro ⟨emission, w, hprocess, rfl⟩
    exact ⟨(emission, w), hprocess, rfl⟩

/-- The effects so far do not matter to a node. -/
theorem step_shift (n : N) (s : Store κ ι P E) (e : E) :
    net.step n { s with effect := e + s.effect } =
      (net.step n s).map fun s' => { s' with effect := e + s'.effect } := by
  unfold step
  rw [Option.map_map]
  congr 1
  funext result
  show net.after n { s with effect := e + s.effect } result.1 result.2 = _
  unfold after
  dsimp only [Function.comp_apply]
  rw [add_assoc]

theorem run_shift (nodes : List N) (s : Store κ ι P E) (e : E) :
    net.run nodes { s with effect := e + s.effect } =
      (net.run nodes s).map fun s' => { s' with effect := e + s'.effect } := by
  induction nodes generalizing s with
  | nil => rfl
  | cons n rest ih =>
      unfold run
      rw [step_shift, Option.map_bind, Option.bind_map]
      exact congrArg _ (funext ih)

/-- A run is a pure loop. -/
theorem run_eq_walk (i : Nat) (nodes : List N) (s : Store κ ι P E) :
    net.run nodes s = Runs.walk (fun _ n => net.step n) i nodes s := by
  induction nodes generalizing i s with
  | nil => rfl
  | cons n rest ih => exact congrArg _ (funext (ih (i + 1)))

/-- A node that never gets through stops the run. -/
theorem run_eq_none {nodes : List N} {n : N} (hmem : n ∈ nodes)
    (hnone : ∀ a v, net.process n a v = none) (s : Store κ ι P E) : net.run nodes s = none := by
  induction nodes generalizing s with
  | nil => cases hmem
  | cons m rest ih =>
      rcases List.mem_cons.mp hmem with rfl | hmem
      · unfold run step
        rw [hnone]
        rfl
      · unfold run
        cases net.step m s with
        | none => rfl
        | some s' => exact ih hmem s'

variable {net}

/-- What holds of every effect holds of a run's. -/
theorem run_effect {nodes : List N} {s s' : Store κ ι P E} {I : E → Prop}
    (hadd : ∀ e e', I e → I e' → I (e + e'))
    (hprocess : ∀ n ∈ nodes, ∀ a v emission w, net.process n a v = some (emission, w) →
      I emission.effect) (h : I s.effect) (hrun : net.run nodes s = some s') : I s'.effect := by
  induction nodes generalizing s with
  | nil =>
      cases hrun
      exact h
  | cons n rest ih =>
      obtain ⟨s1, hstep, hrest⟩ := Option.bind_eq_some_iff.mp hrun
      obtain ⟨emission, w, hn, rfl⟩ := net.step_eq_some.mp hstep
      refine ih (fun m hm => hprocess m (List.mem_cons_of_mem n hm)) ?_ hrest
      exact hadd _ _ h (hprocess n (List.mem_cons_self ..) _ _ _ _ hn)

/-- A run keeps to the local states of its nodes. -/
theorem run_frame {nodes : List N} {s s' : Store κ ι P E} (hlawful : ∀ n ∈ nodes, net.Lawful n)
    (hrun : net.run nodes s = some s') {i : ι} (hi : ∀ n ∈ nodes, ¬ net.foot n i) :
    s'.locals i = s.locals i := by
  induction nodes generalizing s with
  | nil =>
      cases hrun
      rfl
  | cons n rest ih =>
      obtain ⟨s1, hstep, hrest⟩ := Option.bind_eq_some_iff.mp hrun
      obtain ⟨emission, w, hprocess, rfl⟩ := net.step_eq_some.mp hstep
      rw [ih (fun m hm => hlawful m (List.mem_cons_of_mem n hm)) hrest
        fun m hm => hi m (List.mem_cons_of_mem n hm)]
      exact (hlawful n (List.mem_cons_self ..)).frame hprocess i (hi n (List.mem_cons_self ..))

/-- A run depends on the local states of its nodes only. -/
theorem run_local {nodes : List N} {s s' : Store κ ι P E} {v : ι → P} {foot : ι → Prop}
    (hlawful : ∀ n ∈ nodes, net.Lawful n) (hfoot : ∀ n ∈ nodes, ∀ i, net.foot n i → foot i)
    (hagree : ∀ i, foot i → s.locals i = v i) (hrun : net.run nodes s = some s') :
    ∃ w, net.run nodes { s with locals := v } = some { s' with locals := w } ∧
      ∀ i, foot i → w i = s'.locals i := by
  induction nodes generalizing s v with
  | nil =>
      cases hrun
      exact ⟨v, rfl, fun i hi => (hagree i hi).symm⟩
  | cons n rest ih =>
      obtain ⟨s1, hstep, hrest⟩ := Option.bind_eq_some_iff.mp hrun
      obtain ⟨emission, w, hprocess, rfl⟩ := net.step_eq_some.mp hstep
      have hn := hlawful n (List.mem_cons_self ..)
      obtain ⟨w', hprocess', hw'⟩ := hn.locality
        (fun i hi => hagree i (hfoot n (List.mem_cons_self ..) i hi)) hprocess
      -- off the node's own states both sides are as before
      have hagree' : ∀ i, foot i → w i = w' i := by
        intro i hi
        by_cases hni : net.foot n i
        · exact (hw' i hni).symm
        · rw [hn.frame hprocess i hni, hn.frame hprocess' i hni]
          exact hagree i hi
      obtain ⟨w'', hrest', hw''⟩ := ih (fun m hm => hlawful m (List.mem_cons_of_mem n hm))
        (fun m hm => hfoot m (List.mem_cons_of_mem n hm)) hagree' hrest
      refine ⟨w'', ?_, hw''⟩
      refine Option.bind_eq_some_iff.mpr
        ⟨_, net.step_eq_some.mpr ⟨emission, w', hprocess', rfl⟩, ?_⟩
      exact hrest'

/-- Whatever two independent nodes come to in one order, they come to in the other. -/
theorem step_swap {m n : N} {s r : Store κ ι P E} (hm : net.Lawful m) (hn : net.Lawful n)
    (h : net.Independent m n) (hrun : (net.step m s).bind (net.step n) = some r) :
    (net.step n s).bind (net.step m) = some r := by
  obtain ⟨s1, hfirst, hsecond⟩ := Option.bind_eq_some_iff.mp hrun
  obtain ⟨emission, w, hprocess, rfl⟩ := net.step_eq_some.mp hfirst
  obtain ⟨emission', w', hprocess', rfl⟩ := net.step_eq_some.mp hsecond
  have hout := hm.targets hprocess _ h.left
  have hout' := hn.targets hprocess' _ h.right
  -- the second node finds what it would have found first
  have havail : (net.after m s emission w).avail (net.src n) = s.avail (net.src n) := by
    show (if net.src n = net.src m then 0 else s.avail (net.src n)) + emission.out (net.src n) = _
    rw [if_neg h.src.symm, hout, Int.add_zero]
  rw [havail] at hprocess'
  have hbefore : ∀ i, net.foot n i → _ = s.locals i :=
    fun i hi => hm.frame hprocess i fun hmi => h.foot i hmi hi
  obtain ⟨v, hearly, hv⟩ := hn.locality hbefore hprocess'
  have hvframe := hn.frame hearly
  have hafter : ∀ i, net.foot m i → s.locals i = v i :=
    fun i hi => (hvframe i (h.foot i hi)).symm
  obtain ⟨v', hlate, hv'⟩ := hm.locality hafter hprocess
  -- and the first one still finds what it found
  refine Option.bind_eq_some_iff.mpr ⟨_, net.step_eq_some.mpr ⟨_, _, hearly, rfl⟩, ?_⟩
  have havail' : (net.after n s emission' v).avail (net.src m) = s.avail (net.src m) := by
    show (if net.src m = net.src n then 0 else s.avail (net.src m)) + emission'.out (net.src m) = _
    rw [if_neg h.src, hout', Int.add_zero]
  refine net.step_eq_some.mpr ⟨emission, v', by rw [havail']; exact hlate, ?_⟩
  -- a local state belongs to one of the two nodes, or to neither
  have hlocals : v' = w' := by
    funext i
    by_cases hmi : net.foot m i
    · rw [hv' i hmi]
      exact (hn.frame hprocess' i (h.foot i hmi)).symm
    · rw [hm.frame hlate i hmi]
      by_cases hni : net.foot n i
      · exact hv i hni
      · rw [hvframe i hni, hn.frame hprocess' i hni]
        exact (hm.frame hprocess i hmi).symm
  unfold after
  congr 1
  · funext t
    dsimp only
    by_cases htm : t = net.src m
    · rw [if_pos htm, if_neg (htm ▸ h.src), if_pos htm, htm, hout']
      omega
    · by_cases htn : t = net.src n
      · rw [if_neg htm, if_pos htn, if_pos htn, htn, hout]
        omega
      · rw [if_neg htm, if_neg htn, if_neg htn, if_neg htm]
        omega
  · exact add_right_comm _ _ _

/-- Independent nodes commute. -/
theorem step_comm {m n : N} (hm : net.Lawful m) (hn : net.Lawful n) (h : net.Independent m n)
    (s : Store κ ι P E) : (net.step m s).bind (net.step n) = (net.step n s).bind (net.step m) := by
  refine Option.ext fun r => ?_
  exact ⟨step_swap hm hn h, step_swap hn hm h.symm⟩

/-- A node moves to the front past nodes independent of it. -/
theorem run_bubble {before rest : List N} {n : N} (hn : net.Lawful n)
    (hlawful : ∀ m ∈ before, net.Lawful m) (h : ∀ m ∈ before, net.Independent m n)
    (s : Store κ ι P E) : net.run (before ++ n :: rest) s = net.run (n :: (before ++ rest)) s := by
  induction before generalizing s with
  | nil => rfl
  | cons m before ih =>
      have hm := hlawful m (List.mem_cons_self ..)
      have hrest := ih (fun x hx => hlawful x (List.mem_cons_of_mem m hx))
        fun x hx => h x (List.mem_cons_of_mem m hx)
      calc net.run (m :: before ++ n :: rest) s
          = (net.step m s).bind (net.run (before ++ n :: rest)) := rfl
        _ = (net.step m s).bind (net.run (n :: (before ++ rest))) := congrArg _ (funext hrest)
        _ = ((net.step m s).bind (net.step n)).bind (net.run (before ++ rest)) :=
            (Option.bind_assoc ..).symm
        _ = ((net.step n s).bind (net.step m)).bind (net.run (before ++ rest)) := by
            rw [step_comm hm hn (h m (List.mem_cons_self ..))]
        _ = net.run (n :: (m :: before ++ rest)) s := Option.bind_assoc ..

/-- **Order independence.** Topological orders of nodes with different keys and separate
local states come to the same. -/
theorem run_perm {xs ys : List N} (hperm : xs.Perm ys) (hsrc : (xs.map net.src).Nodup)
    (hfoot : xs.Pairwise fun m n => ∀ i, net.foot m i → ¬ net.foot n i)
    (hlawful : ∀ n ∈ xs, net.Lawful n) (hxs : net.Topological xs) (hys : net.Topological ys)
    (s : Store κ ι P E) : net.run xs s = net.run ys s := by
  induction xs generalizing ys s with
  | nil => rw [List.nil_perm.mp hperm]
  | cons n rest ih =>
      -- what stands before `n` in the other order is independent of it
      obtain ⟨before, after, rfl⟩ := List.append_of_mem (hperm.subset (List.mem_cons_self ..))
      have hrest : rest.Perm (before ++ after) :=
        (hperm.trans List.perm_middle).cons_inv
      obtain ⟨hfirst, htail⟩ := List.pairwise_cons.mp hxs
      obtain ⟨hfoot1, hfoot2⟩ := List.pairwise_cons.mp hfoot
      rw [List.map_cons, List.nodup_cons] at hsrc
      have hmem : ∀ m ∈ before, m ∈ rest := fun m hm =>
        hrest.symm.subset (List.mem_append_left _ hm)
      have hindependent : ∀ m ∈ before, net.Independent m n := by
        intro m hm
        have hlater := (List.pairwise_append.mp hys).2.2 m hm n (List.mem_cons_self ..)
        exact
          { src := fun heq => hsrc.1 (heq ▸ List.mem_map_of_mem (hmem m hm))
            left := hfirst m (hmem m hm)
            right := hlater
            foot := fun i hi hni => hfoot1 m (hmem m hm) i hni hi }
      rw [run_bubble (hlawful n (List.mem_cons_self ..))
        (fun m hm => hlawful m (List.mem_cons_of_mem n (hmem m hm))) hindependent]
      have hys' : net.Topological (before ++ after) :=
        hys.sublist ((List.Sublist.refl before).append (List.sublist_cons_self n after))
      exact congrArg _ (funext (ih hrest hsrc.2 hfoot2
        (fun m hm => hlawful m (List.mem_cons_of_mem n hm)) htail hys'))

end Net

end Dataflow
