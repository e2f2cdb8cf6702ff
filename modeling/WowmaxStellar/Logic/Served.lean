import WowmaxStellar.Logic.SwapRuns

/-!
# What the branches are handed

The strand loop and the fill loop hand out the shares of the split: branch `i` gets share
`i`, with the sum of the shares before it as the running allocation. A run gets past a branch
only when its share is positive.

* `strandStep_shares`, `fillStep_shares` — one branch;
* `strandLoop_shares_pos`, `fillLoop_shares_pos` — all of them.
-/

namespace WowmaxStellar

open Runs Split

/-- The strand loop hands strand `i` its share, with the shares before it as the running
allocation. -/
def StrandsServed (amount : Int) (plan : List Strand) (shares : List Int) : Prop :=
  ∀ {V : Type} (env : Env V) (tokenIn tokenOut : Address) (deadline : UInt64) (i : Nat)
    (strand : Strand), plan[i]? = some strand →
    strandStep env tokenIn tokenOut amount (weights (plan.map Strand.parts)).sum deadline
        plan.length i strand (shares.take i).sum =
      if BranchOverflows amount plan.length i strand.parts then throw (.overflow .mul)
      else do
        panicIf (strand.hops.len = 0) .emptyStrand
        let _ ← loop (hopStep env tokenIn tokenOut deadline strand.hops) 0 strand.hops.val
          (shares.getD i 0)
        pure (shares.take (i + 1)).sum

/-- The fill loop of a stage hands fill `i` its share, with the shares before it as the
running allocation. -/
def FillsServed (amount : Int) (stage : Stage) (shares : List Int) : Prop :=
  ∀ {V : Type} (env : Env V) (deadline : UInt64) (i : Nat) (fill : Fill) (avail : Avail),
    stage.fills.val[i]? = some fill →
    fillStep env deadline stage.token amount (weights (stage.fills.val.map Fill.parts)).sum
        stage.fills.len i fill ((shares.take i).sum, avail) =
      if BranchOverflows amount stage.fills.len i fill.parts then throw (.overflow .mul)
      else do
        panicIf (fill.tokenOut = stage.token) .degenerateFill
        panicIf (shares.getD i 0 ≤ 0) .fillNotPositive
        let produced ← runFill env deadline stage.token fill (shares.getD i 0)
        let avail ← creditAvail avail stage.token fill.tokenOut (shares.getD i 0) produced
        pure ((shares.take (i + 1)).sum, avail)

section Steps

variable {amount : Int}

theorem strandStep_shares {plan : List Strand} (hamount : 1 ≤ amount ∧ amount ≤ i128Max)
    (htotal : 0 < (weights (plan.map Strand.parts)).sum) :
    StrandsServed amount plan (shares amount (weights (plan.map Strand.parts))) := by
  intro V env tokenIn tokenOut deadline i strand hget
  have h0 : 0 ≤ amount := by omega
  obtain ⟨done, rest, hsplit, rfl⟩ := exists_split_at hget
  obtain ⟨halloc, hshare, hsum⟩ := shares_at h0 htotal (parts_split hsplit)
  rw [List.length_map] at halloc hshare hsum
  obtain ⟨share, rfl, _, _, heq⟩ := strandStep_eq halloc (by omega) htotal hsplit
  rw [heq, hsum, hshare]

theorem fillStep_shares {stage : Stage} (hamount : 1 ≤ amount ∧ amount ≤ i128Max)
    (htotal : 0 < (weights (stage.fills.val.map Fill.parts)).sum) :
    FillsServed amount stage (shares amount (weights (stage.fills.val.map Fill.parts))) := by
  intro V env deadline i fill avail hget
  have h0 : 0 ≤ amount := by omega
  obtain ⟨done, rest, hsplit, rfl⟩ := exists_split_at hget
  obtain ⟨halloc, hshare, hsum⟩ := shares_at h0 htotal (parts_split hsplit)
  rw [List.length_map] at halloc hshare hsum
  have hbal : 0 < amount ∧ amount ≤ i128Max := by omega
  let acc : Int × Avail :=
    (((shares amount (weights (stage.fills.val.map Fill.parts))).take done.length).sum, avail)
  obtain ⟨share, rfl, _, _, heq⟩ := @fillStep_eq V stage done rest fill acc amount halloc hbal
    htotal hsplit
  rw [heq, hsum, hshare]

end Steps

section Loops

variable {V : Type} {env : Env V} {amount : Int} {deadline : UInt64} {s : State V}

/-- A strand that gets through was handed something. -/
theorem hopLoop_pos {tokenIn tokenOut : Address} {hops : Vec Hop} {share out : Int} {s' : State V}
    (hhops : hops.len ≠ 0)
    (h : loop (hopStep env tokenIn tokenOut deadline hops) 0 hops.val share s = .ok out s') :
    0 < share := by
  cases hval : hops.val with
  | nil =>
      unfold Vec.len at hhops
      rw [hval] at hhops
      exact absurd rfl hhops
  | cons hop rest =>
      rw [hval, loop_cons] at h
      obtain ⟨produced, s1, hstep, _⟩ := bind_ok_iff.mp h
      unfold hopStep at hstep
      obtain ⟨_, s2, _, hrun⟩ := bind_ok_iff.mp hstep
      by_contra hshare
      obtain ⟨guard, t, hpanic⟩ := runHop_of_nonpos env deadline hop (not_lt.mp hshare) s2
      rw [hpanic] at hrun
      cases hrun

/-- The running allocation of a loop and the shares served so far. -/
def ServedUpTo (shares : List Int) (count : Nat) (allocated : Int) : Prop :=
  allocated = (shares.take count).sum ∧ ∀ share ∈ shares.take count, 0 < share

theorem ServedUpTo.succ {shares : List Int} {count : Nat} {allocated : Int}
    (h : ServedUpTo shares count allocated) (hcount : count < shares.length)
    (hpos : 0 < shares.getD count 0) :
    ServedUpTo shares (count + 1) (shares.take (count + 1)).sum := by
  refine ⟨rfl, ?_⟩
  intro share hshare
  rw [List.take_add_one, List.getElem?_eq_getElem hcount] at hshare
  rw [List.getD_eq_getElem?_getD, List.getElem?_eq_getElem hcount] at hpos
  rcases List.mem_append.mp hshare with hshare | hshare
  · exact h.2 share hshare
  · rw [Option.toList_some, List.mem_singleton] at hshare
    rw [hshare]
    exact hpos

theorem strandLoop_shares_pos {tokenIn tokenOut : Address} {plan : List Strand}
    (hamount : 1 ≤ amount ∧ amount ≤ i128Max)
    (htotal : 0 < (weights (plan.map Strand.parts)).sum) :
    Post (loop (strandStep env tokenIn tokenOut amount (weights (plan.map Strand.parts)).sum
        deadline plan.length) 0 plan 0) s
      (fun _ _ => ∀ share ∈ shares amount (weights (plan.map Strand.parts)), 0 < share)
      (fun _ _ => True) := by
  have hlength : (shares amount (weights (plan.map Strand.parts))).length = plan.length := by
    rw [length_shares (weights_ne_nil htotal), length_weights, List.length_map]
  refine (Post.loop (E := fun _ _ => True) (I := fun done allocated _ => ServedUpTo
    (shares amount (weights (plan.map Strand.parts))) done.length allocated) ?_ ?_).mono ?_ ?_
  · rintro done strand rest hsplit allocated s1 hserved
    have hget : plan[done.length]? = some strand := by
      rw [← hsplit]
      simp
    have hcount : done.length < plan.length := (List.getElem?_eq_some_iff.mp hget).1
    rw [hserved.1, strandStep_shares hamount htotal env tokenIn tokenOut deadline done.length
      strand hget]
    refine .ite (fun _ => .throw trivial) fun _ => ?_
    refine post_panicIf_bind (fun _ => trivial) fun hempty => ?_
    refine Post.bind (P := fun _ _ => 0 < (shares amount (weights (plan.map Strand.parts))).getD
      done.length 0) (.intro (fun _ _ hrun => hopLoop_pos hempty hrun) fun _ _ _ => trivial) ?_
    intro _ s2 hpos
    rw [List.length_append, List.length_singleton]
    exact .pure (hserved.succ (by omega) hpos)
  · exact ⟨rfl, by simp⟩
  · intro _ _ hserved
    have hall := hserved.2
    rw [← hlength, List.take_length] at hall
    exact hall
  · exact fun _ _ h => h

theorem fillLoop_shares_pos {stage : Stage} (avail : Avail)
    (hamount : 1 ≤ amount ∧ amount ≤ i128Max)
    (htotal : 0 < (weights (stage.fills.val.map Fill.parts)).sum) :
    Post (loop (fillStep env deadline stage.token amount
        (weights (stage.fills.val.map Fill.parts)).sum stage.fills.len) 0 stage.fills.val
        (0, avail)) s
      (fun _ _ => ∀ share ∈ shares amount (weights (stage.fills.val.map Fill.parts)), 0 < share)
      (fun _ _ => True) := by
  have hlength : (shares amount (weights (stage.fills.val.map Fill.parts))).length =
      stage.fills.val.length := by
    rw [length_shares (weights_ne_nil htotal), length_weights, List.length_map]
  refine (Post.loop (E := fun _ _ => True) (I := fun done acc _ => ServedUpTo
    (shares amount (weights (stage.fills.val.map Fill.parts))) done.length acc.1)
    ?_ ?_).mono ?_ ?_
  · rintro done fill rest hsplit ⟨allocated, avail⟩ s1 hserved
    have hget : stage.fills.val[done.length]? = some fill := by
      rw [← hsplit]
      simp
    have hcount : done.length < stage.fills.val.length := (List.getElem?_eq_some_iff.mp hget).1
    obtain rfl : allocated = _ := hserved.1
    rw [fillStep_shares hamount htotal env deadline done.length fill avail hget]
    refine .ite (fun _ => .throw trivial) fun _ => ?_
    refine post_panicIf_bind (fun _ => trivial) fun _ => ?_
    refine post_panicIf_bind (fun _ => trivial) fun hpos => ?_
    refine .intro ?_ fun _ _ _ => trivial
    intro acc s2 hrun
    obtain ⟨_, _, _, hrun⟩ := bind_ok_iff.mp hrun
    obtain ⟨_, _, _, hrun⟩ := bind_ok_iff.mp hrun
    obtain ⟨rfl, _⟩ := pure_ok_iff.mp hrun
    rw [List.length_append, List.length_singleton]
    exact hserved.succ (by omega) (not_le.mp hpos)
  · exact ⟨rfl, by simp⟩
  · intro _ _ hserved
    have hall := hserved.2
    rw [← hlength, List.take_length] at hall
    exact hall
  · exact fun _ _ h => h

end Loops

end WowmaxStellar
