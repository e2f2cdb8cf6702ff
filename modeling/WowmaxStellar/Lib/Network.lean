import Mathlib.Data.Finset.Basic
import Mathlib.Data.Finset.Card
import Mathlib.Data.List.Sort
import Mathlib.Logic.Relation

/-!
# Networks and their schedules

A node uses up one key and brings in others. From one key at hand, a list of nodes is
scheduled if every node finds its key when its turn comes, and one key is left in the end.

* `Wiring.exists_topological` — without a cycle, there is a topological order;
* `Wiring.liveAfter_map_eq` — what is at hand depends on the keys alone;
* `Wiring.mem_liveAfter_iff` — what is at hand along a topological order;
* `Wiring.scheduled_iff` — the nodes with different keys that are scheduled are the networks
  from the one key to the other, in a topological order.
-/

namespace Networks

/-- The key a node uses up, and those it brings in. -/
structure Wiring (N κ : Type) where
  src : N → κ
  outs : N → Finset κ

namespace Wiring

variable {N κ : Type} (wiring : Wiring N κ)

/-- One of the nodes uses up `a` and brings in `b`. -/
def Leads (nodes : List N) (a b : κ) : Prop :=
  ∃ n ∈ nodes, wiring.src n = a ∧ b ∈ wiring.outs n

/-- No key is brought in after it was used up. -/
def Topological (nodes : List N) : Prop :=
  nodes.Pairwise fun m n => wiring.src m ∉ wiring.outs n

/-- Everything comes from `source` and goes to `sink`, and nothing comes round. -/
structure Network (source sink : κ) (nodes : List N) : Prop where
  acyclic : ∀ key, ¬ Relation.TransGen (wiring.Leads nodes) key key
  opened : ∃ n ∈ nodes, wiring.src n = source
  fed : ∀ n ∈ nodes, wiring.src n = source ∨ ∃ m ∈ nodes, wiring.src n ∈ wiring.outs m
  drained : ∀ n ∈ nodes, ∀ key ∈ wiring.outs n, key = sink ∨ ∃ m ∈ nodes, wiring.src m = key

variable {wiring} {source sink : κ} {nodes nodes' : List N}

theorem leads_mono (hsub : nodes ⊆ nodes') : wiring.Leads nodes ≤ wiring.Leads nodes' := by
  rintro a b ⟨n, hmem, hlead⟩
  exact ⟨n, hsub hmem, hlead⟩

/-- The order of the nodes does not matter to a network. -/
theorem Network.perm (h : wiring.Network source sink nodes) (hperm : nodes.Perm nodes') :
    wiring.Network source sink nodes' where
  acyclic := by
    intro key hcycle
    exact h.acyclic key (Relation.TransGen.mono (leads_mono hperm.symm.subset) _ _ hcycle)
  opened := by
    obtain ⟨n, hmem, hsrc⟩ := h.opened
    exact ⟨n, hperm.subset hmem, hsrc⟩
  fed := by
    intro n hmem
    refine (h.fed n (hperm.symm.subset hmem)).imp_right ?_
    rintro ⟨m, hm, hout⟩
    exact ⟨m, hperm.subset hm, hout⟩
  drained := by
    intro n hmem key hkey
    refine (h.drained n (hperm.symm.subset hmem) key hkey).imp_right ?_
    rintro ⟨m, hm, hsrc⟩
    exact ⟨m, hperm.subset hm, hsrc⟩

theorem Network.not_self (h : wiring.Network source sink nodes) :
    ∀ n ∈ nodes, wiring.src n ∉ wiring.outs n := by
  intro n hmem hout
  exact h.acyclic _ (.single ⟨n, hmem, rfl, hout⟩)

/-- The last node of a topological order can bring in nothing but the sink. -/
theorem Network.sink_brought (h : wiring.Network source sink nodes)
    (horder : wiring.Topological nodes) (houts : ∀ n ∈ nodes, (wiring.outs n).Nonempty) :
    ∃ n ∈ nodes, sink ∈ wiring.outs n := by
  obtain ⟨first, hfirst, -⟩ := h.opened
  rcases nodes.eq_nil_or_concat' with rfl | ⟨init, last, rfl⟩
  · cases hfirst
  have hmem : last ∈ init ++ [last] := by simp
  obtain ⟨key, hkey⟩ := houts last hmem
  rcases h.drained last hmem key hkey with rfl | ⟨m, hm, rfl⟩
  · exact ⟨last, hmem, hkey⟩
  rcases List.mem_append.mp hm with hm | hm
  · have hbefore := (List.pairwise_append.mp horder).2.2 m hm last (List.mem_singleton_self _)
    exact absurd hkey hbefore
  · rw [List.mem_singleton.mp hm] at hkey
    exact absurd hkey (h.not_self last hmem)

/-! ## Topological orders -/

section Order

open Classical in
/-- How many keys of the nodes come before `key`. -/
noncomputable def rank (wiring : Wiring N κ) (nodes : List N) (key : κ) : Nat :=
  ((nodes.map wiring.src).toFinset.filter fun a =>
    Relation.TransGen (wiring.Leads nodes) a key).card

/-- Without a cycle the rank goes up from key to key. -/
theorem rank_lt (hacyclic : ∀ key, ¬ Relation.TransGen (wiring.Leads nodes) key key) {a b : κ}
    (hlead : wiring.Leads nodes a b) : wiring.rank nodes a < wiring.rank nodes b := by
  classical
  unfold rank
  apply Finset.card_lt_card
  rw [Finset.ssubset_iff_of_subset]
  · refine ⟨a, ?_, ?_⟩
    · have ⟨n, hmem, hsrc, _⟩ := hlead
      apply Finset.mem_filter.mpr
      refine ⟨?_, .single hlead⟩
      rw [← hsrc]
      exact List.mem_toFinset.mpr (List.mem_map_of_mem hmem)
    · -- `a` is not before itself
      intro hself
      exact hacyclic a (Finset.mem_filter.mp hself).2
  · intro key hkey
    obtain ⟨hmem, hbefore⟩ := Finset.mem_filter.mp hkey
    exact Finset.mem_filter.mpr ⟨hmem, hbefore.tail hlead⟩

/-- Without a cycle there is a topological order: the nodes by their rank. -/
theorem exists_topological
    (hacyclic : ∀ key, ¬ Relation.TransGen (wiring.Leads nodes) key key) :
    ∃ order : List N, order.Perm nodes ∧ wiring.Topological order := by
  classical
  let before : N → N → Prop := fun m n =>
    wiring.rank nodes (wiring.src m) ≤ wiring.rank nodes (wiring.src n)
  have htotal : Std.Total before := ⟨fun m n => le_total _ _⟩
  have htrans : IsTrans N before := ⟨fun _ _ _ h h' => h.trans h'⟩
  have hperm := List.perm_insertionSort before nodes
  refine ⟨nodes.insertionSort before, hperm, ?_⟩
  refine (List.pairwise_insertionSort before nodes).imp_of_mem ?_
  intro m n hm hn hle hout
  have hlead : wiring.Leads nodes (wiring.src n) (wiring.src m) :=
    ⟨n, hperm.subset hn, rfl, hout⟩
  exact absurd (rank_lt hacyclic hlead) (Nat.not_lt.mpr hle)

end Order

/-! ## What is at hand -/

section Live

variable (wiring) [DecidableEq κ]

/-- The key of a node goes, those it brings in come. -/
def advance (live : Finset κ) (n : N) : Finset κ := live.erase (wiring.src n) ∪ wiring.outs n

/-- The keys at hand after some nodes. -/
def liveAfter (live : Finset κ) (nodes : List N) : Finset κ := nodes.foldl wiring.advance live

/-- Every node finds its key, and in the end the sink alone is at hand. -/
structure Scheduled (source sink : κ) (nodes : List N) : Prop where
  fed : ∀ done n rest, done ++ n :: rest = nodes →
    wiring.src n ∈ wiring.liveAfter {source} done
  ended : wiring.liveAfter {source} nodes = {sink}

variable {wiring} {live : Finset κ} {key : κ}

theorem mem_advance {n : N} :
    key ∈ wiring.advance live n ↔ key ≠ wiring.src n ∧ key ∈ live ∨ key ∈ wiring.outs n := by
  unfold advance
  rw [Finset.mem_union, Finset.mem_erase]

theorem liveAfter_concat (live : Finset κ) (nodes : List N) (n : N) :
    wiring.liveAfter live (nodes ++ [n]) = wiring.advance (wiring.liveAfter live nodes) n := by
  unfold liveAfter
  rw [List.foldl_append, List.foldl_cons, List.foldl_nil]

theorem liveAfter_append_cons (live : Finset κ) (done : List N) (n : N) (rest : List N) :
    wiring.liveAfter live (done ++ n :: rest) =
      wiring.liveAfter (wiring.advance (wiring.liveAfter live done) n) rest := by
  unfold liveAfter
  rw [List.foldl_append, List.foldl_cons]

/-- Two lists of nodes with the same keys, whatever else they stand for. -/
theorem liveAfter_map_eq {M A : Type} {wiring' : Wiring M κ} {f : A → N} {g : A → M} {as : List A}
    (h : ∀ a ∈ as, wiring.src (f a) = wiring'.src (g a) ∧ wiring.outs (f a) = wiring'.outs (g a))
    (live : Finset κ) :
    wiring.liveAfter live (as.map f) = wiring'.liveAfter live (as.map g) := by
  induction as generalizing live with
  | nil => rfl
  | cons a rest ih =>
      obtain ⟨hsrc, houts⟩ := h a List.mem_cons_self
      have hadvance : wiring.advance live (f a) = wiring'.advance live (g a) := by
        unfold advance
        rw [hsrc, houts]
      have hrest := ih (fun b hb => h b (List.mem_cons_of_mem _ hb)) (wiring.advance live (f a))
      unfold liveAfter at hrest ⊢
      rw [List.map_cons, List.map_cons, List.foldl_cons, List.foldl_cons, hrest, hadvance]

/-- What is at hand was there or was brought in. -/
theorem of_mem_liveAfter (h : key ∈ wiring.liveAfter live nodes) :
    key ∈ live ∨ ∃ n ∈ nodes, key ∈ wiring.outs n := by
  induction nodes generalizing live with
  | nil => exact .inl h
  | cons n rest ih =>
      rcases ih h with hadvance | ⟨m, hm, hout⟩
      · rcases mem_advance.mp hadvance with ⟨-, hlive⟩ | hout
        · exact .inl hlive
        · exact .inr ⟨n, List.mem_cons_self, hout⟩
      · exact .inr ⟨m, List.mem_cons_of_mem _ hm, hout⟩

/-- What is at hand stays, unless a node uses it up. -/
theorem mem_liveAfter_or (h : key ∈ live) (nodes : List N) :
    key ∈ wiring.liveAfter live nodes ∨ ∃ n ∈ nodes, wiring.src n = key := by
  induction nodes generalizing live with
  | nil => exact .inl h
  | cons n rest ih =>
      by_cases hsrc : wiring.src n = key
      · exact .inr ⟨n, List.mem_cons_self, hsrc⟩
      · have hnext : key ∈ wiring.advance live n := mem_advance.mpr (.inl ⟨Ne.symm hsrc, h⟩)
        refine (ih hnext).imp_right ?_
        rintro ⟨m, hm, hm'⟩
        exact ⟨m, List.mem_cons_of_mem _ hm, hm'⟩

/-- Along a topological order, a key is at hand that was there or was brought in and that no
node has used up. -/
theorem mem_liveAfter_iff (hself : ∀ n ∈ nodes, wiring.src n ∉ wiring.outs n)
    (horder : wiring.Topological nodes) :
    key ∈ wiring.liveAfter {source} nodes ↔
      (key = source ∨ ∃ n ∈ nodes, key ∈ wiring.outs n) ∧ ∀ n ∈ nodes, wiring.src n ≠ key := by
  induction nodes using List.reverseRecOn with
  | nil => simp [liveAfter]
  | append_singleton done n ih =>
      obtain ⟨hdone, -, hlast⟩ := List.pairwise_append.mp horder
      have hbefore := ih (fun m hm => hself m (List.mem_append_left _ hm)) hdone
      have hown := hself n (by simp)
      rw [liveAfter_concat, mem_advance, hbefore]
      constructor
      · rintro (⟨hne, hcame, hkept⟩ | hout)
        · refine ⟨hcame.imp_right ?_, ?_⟩
          · rintro ⟨m, hm, hout⟩
            exact ⟨m, List.mem_append_left _ hm, hout⟩
          · intro m hm heq
            rcases List.mem_append.mp hm with hm | hm
            · exact hkept m hm heq
            · rw [List.mem_singleton.mp hm] at heq
              exact hne heq.symm
        · refine ⟨.inr ⟨n, by simp, hout⟩, ?_⟩
          -- what `n` brings in is used up neither before it nor by it
          rintro m hm rfl
          rcases List.mem_append.mp hm with hm | hm
          · exact hlast m hm n (List.mem_singleton_self n) hout
          · rw [List.mem_singleton.mp hm] at hout
            exact hown hout
      · rintro ⟨hcame, hkept⟩
        by_cases hout : key ∈ wiring.outs n
        · exact .inr hout
        refine .inl ⟨(hkept n (by simp)).symm, hcame.imp_right ?_, ?_⟩
        · rintro ⟨m, hm, hm'⟩
          rcases List.mem_append.mp hm with hm | hm
          · exact ⟨m, hm, hm'⟩
          · rw [List.mem_singleton.mp hm] at hm'
            exact absurd hm' hout
        · exact fun m hm => hkept m (List.mem_append_left _ hm)

/-! ## Schedules are networks -/

/-- A key that is brought in after it was used up is never used again. -/
theorem Scheduled.stale (h : wiring.Scheduled source sink nodes)
    (hsrc : (nodes.map wiring.src).Nodup) (hsink : ∀ n ∈ nodes, wiring.src n ≠ sink)
    {done rest : List N} {n : N} (hsplit : done ++ n :: rest = nodes) {m : N}
    (hm : m ∈ done ++ [n]) : wiring.src m ∉ wiring.outs n := by
  intro hout
  have hnow : wiring.src m ∈ wiring.advance (wiring.liveAfter {source} done) n :=
    mem_advance.mpr (.inr hout)
  have hmem : m ∈ nodes := by
    rw [← hsplit]
    simp at hm ⊢
    tauto
  rcases mem_liveAfter_or hnow rest with hend | ⟨later, hlater, heq⟩
  · rw [← liveAfter_append_cons, hsplit, h.ended, Finset.mem_singleton] at hend
    exact hsink m hmem hend
  · -- two nodes with one key
    rw [← hsplit, List.append_cons, List.map_append] at hsrc
    have hne := (List.nodup_append.mp hsrc).2.2 _ (List.mem_map_of_mem hm) _
      (List.mem_map_of_mem hlater)
    exact hne heq.symm

theorem Scheduled.topological (h : wiring.Scheduled source sink nodes)
    (hsrc : (nodes.map wiring.src).Nodup) (hsink : ∀ n ∈ nodes, wiring.src n ≠ sink) :
    wiring.Topological nodes := by
  refine List.pairwise_iff_getElem.mpr ?_
  intro i j hi hj hlt
  have hsplit : nodes.take j ++ nodes[j] :: nodes.drop (j + 1) = nodes := by
    rw [← List.drop_eq_getElem_cons, List.take_append_drop]
  have hmem : nodes[i] ∈ nodes.take j :=
    List.mem_take_iff_getElem.mpr ⟨i, by omega, rfl⟩
  exact h.stale hsrc hsink hsplit (List.mem_append_left _ hmem)

theorem Scheduled.not_self (h : wiring.Scheduled source sink nodes)
    (hsrc : (nodes.map wiring.src).Nodup) (hsink : ∀ n ∈ nodes, wiring.src n ≠ sink) :
    ∀ n ∈ nodes, wiring.src n ∉ wiring.outs n := by
  intro n hmem
  obtain ⟨done, rest, hsplit⟩ := List.append_of_mem hmem
  exact h.stale hsrc hsink hsplit.symm (by simp)

/-- The position of a key in a topological order goes up from key to key. -/
theorem acyclic_of_topological (hself : ∀ n ∈ nodes, wiring.src n ∉ wiring.outs n)
    (horder : wiring.Topological nodes) (hsrc : (nodes.map wiring.src).Nodup) (key : κ) :
    ¬ Relation.TransGen (wiring.Leads nodes) key key := by
  have hstep : ∀ a b, wiring.Leads nodes a b →
      (nodes.map wiring.src).idxOf a < (nodes.map wiring.src).idxOf b := by
    rintro a b ⟨n, hmem, rfl, hout⟩
    obtain ⟨i, hi, rfl⟩ := List.getElem_of_mem hmem
    have hindex : (nodes.map wiring.src).idxOf (wiring.src nodes[i]) = i := by
      have hget := hsrc.idxOf_getElem i (by rwa [List.length_map])
      rwa [List.getElem_map] at hget
    rw [hindex]
    by_contra hle
    have hj : (nodes.map wiring.src).idxOf b < (nodes.map wiring.src).length := by
      rw [List.length_map]
      omega
    have hb := List.getElem_idxOf hj
    rw [List.getElem_map] at hb
    rw [← hb] at hout
    rcases Nat.lt_or_eq_of_le (Nat.not_lt.mp hle) with hlt | heq
    · exact List.pairwise_iff_getElem.mp horder _ _ _ hi hlt hout
    · simp only [heq] at hout
      exact hself _ hmem hout
  have hall : ∀ a b, Relation.TransGen (wiring.Leads nodes) a b →
      (nodes.map wiring.src).idxOf a < (nodes.map wiring.src).idxOf b := by
    intro a b hpath
    induction hpath with
    | single hlead => exact hstep _ _ hlead
    | tail _ hlead ih => exact ih.trans (hstep _ _ hlead)
  exact fun hcycle => absurd (hall key key hcycle) (lt_irrefl _)

theorem Scheduled.network (h : wiring.Scheduled source sink nodes)
    (hsrc : (nodes.map wiring.src).Nodup) (hsink : ∀ n ∈ nodes, wiring.src n ≠ sink)
    (hne : source ≠ sink) : wiring.Network source sink nodes where
  acyclic := acyclic_of_topological (h.not_self hsrc hsink) (h.topological hsrc hsink) hsrc
  opened := by
    refine (mem_liveAfter_or (Finset.mem_singleton_self source) nodes).resolve_left ?_
    rw [h.ended, Finset.mem_singleton]
    exact hne
  fed := by
    intro n hmem
    obtain ⟨done, rest, hsplit⟩ := List.append_of_mem hmem
    rcases of_mem_liveAfter (h.fed done n rest hsplit.symm) with hsource | ⟨m, hm, hout⟩
    · exact .inl (Finset.mem_singleton.mp hsource)
    · refine .inr ⟨m, ?_, hout⟩
      rw [hsplit]
      exact List.mem_append_left _ hm
  drained := by
    intro n hmem key hkey
    obtain ⟨done, rest, hsplit⟩ := List.append_of_mem hmem
    have hnow : key ∈ wiring.advance (wiring.liveAfter {source} done) n :=
      mem_advance.mpr (.inr hkey)
    rcases mem_liveAfter_or hnow rest with hend | ⟨m, hm, heq⟩
    · rw [← liveAfter_append_cons, ← hsplit, h.ended, Finset.mem_singleton] at hend
      exact .inl hend
    · refine .inr ⟨m, ?_, heq⟩
      rw [hsplit]
      simp [hm]

/-- A network in a topological order is scheduled. -/
theorem Network.scheduled (h : wiring.Network source sink nodes)
    (horder : wiring.Topological nodes) (hsrc : (nodes.map wiring.src).Nodup)
    (hsink : ∀ n ∈ nodes, wiring.src n ≠ sink)
    (houts : ∀ n ∈ nodes, (wiring.outs n).Nonempty) : wiring.Scheduled source sink nodes where
  fed := by
    rintro done n rest rfl
    obtain ⟨hdone, htail, -⟩ := List.pairwise_append.mp horder
    have hself := h.not_self
    rw [mem_liveAfter_iff (fun m hm => hself m (List.mem_append_left _ hm)) hdone]
    refine ⟨(h.fed n (by simp)).imp_right ?_, ?_⟩
    · -- a node that brings the key in comes before `n`
      rintro ⟨m, hm, hout⟩
      rcases List.mem_append.mp hm with hm | hm
      · exact ⟨m, hm, hout⟩
      rcases List.mem_cons.mp hm with rfl | hm
      · exact absurd hout (hself m (by simp))
      · exact absurd hout ((List.pairwise_cons.mp htail).1 m hm)
    · intro m hm
      rw [List.map_append, List.map_cons] at hsrc
      exact (List.nodup_append.mp hsrc).2.2 _ (List.mem_map_of_mem hm) _ List.mem_cons_self
  ended := by
    ext key
    rw [mem_liveAfter_iff h.not_self horder, Finset.mem_singleton]
    constructor
    · rintro ⟨rfl | ⟨n, hn, hout⟩, hkept⟩
      · obtain ⟨n, hn, hsource⟩ := h.opened
        exact absurd hsource (hkept n hn)
      · refine (h.drained n hn key hout).resolve_right ?_
        rintro ⟨m, hm, heq⟩
        exact hkept m hm heq
    · rintro rfl
      exact ⟨.inr (h.sink_brought horder houts), hsink⟩

/-- **Schedules.** The nodes with different keys that are scheduled, from the source on and
until the sink alone is left, are the networks in a topological order. -/
theorem scheduled_iff (hsrc : (nodes.map wiring.src).Nodup)
    (hsink : ∀ n ∈ nodes, wiring.src n ≠ sink) (hne : source ≠ sink)
    (houts : ∀ n ∈ nodes, (wiring.outs n).Nonempty) :
    wiring.Scheduled source sink nodes ↔
      wiring.Network source sink nodes ∧ wiring.Topological nodes := by
  constructor
  · exact fun h => ⟨h.network hsrc hsink hne, h.topological hsrc hsink⟩
  · exact fun ⟨h, horder⟩ => h.scheduled horder hsrc hsink houts

end Live

end Wiring

end Networks
