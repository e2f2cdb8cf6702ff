import WowmaxStellar.Logic.Honest

/-!
# Strands on honest venues

With honest venues a strand is a node of a dataflow, too. Its share is dealt out to it in
advance, it works on its own pools, and what it changes besides are balances.

* `Pools.Honest.runHop` — a hop tracks the offer of its pool;
* `Pools.strandNet_lawful` — strands are lawful nodes;
* `Pools.strandLoop` — the strand loop tracks the dataflow.
-/

namespace WowmaxStellar

open Runs Flow Split Dataflow

/-! ## Hops -/

section Hops

variable {ι P : Type} [DecidableEq ι] {pools : Pools ι P} {deadline : UInt64}
  {ready : (ι → P) → Ledger → Prop} {scope : Scope (ι → P)} {s s0 : State (ι → P)}
  {tokenIn tokenOut : Address}

theorem runHop_of_not_routed {V : Type} {hop : Hop} (env : Env V) (deadline : UInt64)
    (amount : Int) (s : State V) (hrouted : ¬ hop.Routed) :
    ∃ panic s', runHop env deadline hop amount s = .error panic s' := by
  rw [runHop_eq]
  exact measuredEdge_of_not_routed env hrouted _

/-- A hop on an honest venue tracks the offer of its pool. -/
theorem Pools.Honest.runHop {env : Env (ι → P)} {hop : Hop} {amount : Int}
    (h : pools.Honest env deadline ready hop) (hdistinct : hop.tokenIn ≠ hop.tokenOut)
    (hready : ready s.venues s.ledger) (hamount : 0 < amount)
    (hcovered : amount ≤ s.ledger.balance hop.tokenIn env.contract) (hrouted : hop.Routed) :
    Tracks Overflowed (fun out s' quote => out = quote.out ∧ Traded pools ready hop quote s s')
      (runHop env deadline hop amount s)
      (pools.quote hop (s.venues (pools.pool hop)) amount) := by
  rw [runHop_eq]
  simp only [measuredEdge_of_routed env hamount hrouted]
  refine Tracks.mono (h.measuredLeg .hopNoOutput (s := (s.served _).served _) hdistinct hready
    hamount hcovered) ?_
  rintro out s' quote ⟨hout, htraded⟩
  exact ⟨hout, htraded.venues, htraded.ledger, htraded.ready⟩

/-- What the hops of a strand have come to so far. -/
structure Carry (ι P : Type) where
  amount : Int
  moves : Address → Address → Int
  venues : ι → P

open Classical in
/-- One hop on honest venues: what is carried, traded as the pool offers. -/
noncomputable def Pools.hop (pools : Pools ι P) (tokenIn tokenOut : Address) (hops : Vec Hop)
    (h : Nat) (hop : Hop) (carry : Carry ι P) : Option (Carry ι P) :=
  if ¬ GoesOn tokenIn tokenOut hops h hop ∨ carry.amount ≤ 0 ∨ ¬ hop.Routed then none
  else (pools.quote hop (carry.venues (pools.pool hop)) carry.amount).map fun quote =>
    { amount := quote.out
      moves := carry.moves + quote.moves
      venues := Function.update carry.venues (pools.pool hop) quote.next }

theorem Pools.hop_eq_some {hops : Vec Hop} {h : Nat} {hop : Hop} {carry carry' : Carry ι P}
    (hstep : pools.hop tokenIn tokenOut hops h hop carry = some carry') :
    ∃ quote : Quote P, carry'.venues =
      Function.update carry.venues (pools.pool hop) quote.next := by
  unfold Pools.hop at hstep
  split at hstep
  · cases hstep
  · obtain ⟨quote, _, rfl⟩ := Option.map_eq_some_iff.mp hstep
    exact ⟨quote, rfl⟩

/-- The hop loop of a strand that started on `ledger`, against what it carries. -/
structure Conveyed (ready : (ι → P) → Ledger → Prop) (ledger : Ledger) (hopIn : Int)
    (s : State (ι → P)) (carry : Carry ι P) : Prop where
  amount : hopIn = carry.amount
  venues : s.venues = carry.venues
  ledger : ∀ t h, s.ledger.balance t h = ledger.balance t h + carry.moves t h
  ready : ready s.venues s.ledger

theorem Pools.hopStep {start reserve : Address → Int} {earlier legs : List Leg} {hops : Vec Hop}
    {done rest : List Hop} {hop : Hop} {hopIn : Int} {carry : Carry ι P} {ledger : Ledger}
    (hhonest : pools.Honest scope.env scope.deadline ready hop)
    (hopened : scope.Opened start s0) (hreserve : ∀ t, 0 ≤ reserve t)
    (hsplit : done ++ hop :: rest = hops.val)
    (hinv : HopInv scope s0 start reserve earlier tokenIn legs done hopIn s)
    (h : Conveyed ready ledger hopIn s carry) :
    Tracks Overflowed (fun out s carry => Conveyed ready ledger out s carry ∧
        ∃ legs, HopInv scope s0 start reserve earlier tokenIn legs (done ++ [hop]) out s)
      (hopStep scope.env tokenIn tokenOut scope.deadline hops done.length hop hopIn s)
      (pools.hop tokenIn tokenOut hops done.length hop carry) := by
  have hrun : Tracks Overflowed (Conveyed ready ledger)
      (WowmaxStellar.hopStep scope.env tokenIn tokenOut scope.deadline hops done.length hop hopIn s)
      (pools.hop tokenIn tokenOut hops done.length hop carry) := by
    unfold WowmaxStellar.hopStep Pools.hop
    rw [← h.amount]
    -- each way to stop the step is one of the node's
    by_cases hgoes : GoesOn tokenIn tokenOut hops done.length hop
    swap
    · obtain ⟨site, _, heq⟩ := hopChecks_of_not_goesOn (V := ι → P) hgoes
      rw [heq, if_pos (.inl hgoes)]
      exact .fail _ _
    rw [hopChecks_of_goesOn hgoes, pure_bind]
    by_cases hpos : hopIn ≤ 0
    · obtain ⟨site, s', hfail⟩ := runHop_of_nonpos scope.env scope.deadline hop hpos s
      rw [hfail, if_pos (.inr (.inl hpos))]
      exact .fail _ _
    by_cases hrouted : hop.Routed
    swap
    · obtain ⟨panic, s', hfail⟩ := runHop_of_not_routed scope.env scope.deadline hopIn s hrouted
      rw [hfail, if_pos (.inr (.inr hrouted))]
      exact .fail _ _
    rw [if_neg (by simp [hgoes, hpos, hrouted]), ← h.venues]
    have hcovered := (hinv.covers hopened hreserve).self
    rw [← hgoes.start hsplit] at hcovered
    have hbase := hopened.base_nonneg hop.tokenIn
    have hamount : 0 < hopIn := by omega
    have hfunded : hopIn ≤ s.ledger.balance hop.tokenIn scope.env.contract := by omega
    refine (hhonest.runHop hgoes.1 h.ready hamount hfunded hrouted).map ?_
    rintro out s' quote ⟨rfl, htraded⟩
    exact
      { amount := rfl
        venues := htraded.venues
        ledger := by
          intro t x
          rw [htraded.ledger, h.ledger]
          exact add_assoc _ _ _
        ready := htraded.ready }
  refine (hrun.and_left (hopStep_post hopened hreserve hsplit hinv)).mono ?_
  rintro out s' carry' ⟨hconveyed, _, leg, _, _, hinv'⟩
  exact ⟨hconveyed, _, hinv'⟩

/-- The hops of a strand track what it carries. -/
theorem Pools.hopLoop {start reserve : Address → Int} {earlier : List Leg} {hops : Vec Hop}
    {share : Int}
    (hhonest : ∀ hop ∈ hops.val, pools.Honest scope.env scope.deadline ready hop)
    (hopened : scope.Opened start s0) (hreserve : ∀ t, 0 ≤ reserve t)
    (hinv : HopInv scope s0 start reserve earlier tokenIn [] [] share s)
    (hready : ready s.venues s.ledger) :
    Tracks Overflowed (Conveyed ready s.ledger)
      (loop (WowmaxStellar.hopStep scope.env tokenIn tokenOut scope.deadline hops) 0 hops.val share
        s)
      (walk (pools.hop tokenIn tokenOut hops) 0 hops.val ⟨share, 0, s.venues⟩) := by
  refine Tracks.mono (R := fun out s' carry => Conveyed ready s.ledger out s' carry ∧
      ∃ legs, HopInv scope s0 start reserve earlier tokenIn legs hops.val out s')
    (Tracks.loop (I := fun done out s' carry => Conveyed ready s.ledger out s' carry ∧
      ∃ legs, HopInv scope s0 start reserve earlier tokenIn legs done out s') ?_ ?_)
    fun _ _ _ h => h.1
  · rintro done hop rest hsplit out s' carry ⟨hconveyed, legs, hinv'⟩
    have hmem : hop ∈ hops.val := by
      rw [← hsplit]
      simp
    exact Pools.hopStep (hhonest hop hmem) hopened hreserve hsplit hinv' hconveyed
  · exact ⟨⟨rfl, rfl, fun t h => (Int.add_zero _).symm, hready⟩, [], hinv⟩

end Hops

/-! ## A strand as a node -/

/-- A strand with the share dealt out to it; the last one of a plan gets what is left. -/
structure Dealt where
  strand : Strand
  share : Int
  last : Bool
deriving DecidableEq

/-- A plan of the strands `front` and a last one, with the shares of `amount`. -/
def dealOut (amount : Int) (front : List Strand) (final : Strand) : List Dealt :=
  let total := (weights ((front ++ [final]).map Strand.parts)).sum
  let dealt := front.map fun strand =>
    Dealt.mk strand (portion amount total strand.parts.toNat) false
  dealt ++ [⟨final, amount - (dealt.map Dealt.share).sum, true⟩]

section Nodes

variable {ι P : Type} [DecidableEq ι]

open Classical in
/-- A strand on honest venues, with its share. -/
noncomputable def Pools.strand (pools : Pools ι P) (tokenIn tokenOut : Address) (amountIn : Int)
    (node : Dealt) (venues : ι → P) :
    Option (Emission Dealt (Address → Address → Int) × (ι → P)) :=
  if (node.last = false ∧ ¬ InI128 (amountIn * node.strand.parts.toNat)) ∨
      node.strand.hops.len = 0 then none
  else (walk (pools.hop tokenIn tokenOut node.strand.hops) 0 node.strand.hops.val
      ⟨node.share, 0, venues⟩).map fun carry => (⟨0, carry.moves⟩, carry.venues)

/-- The strands of `swap` as a dataflow in which nobody waits for anybody. -/
noncomputable def Pools.strandNet (pools : Pools ι P) (tokenIn tokenOut : Address)
    (amountIn : Int) : Net Dealt Dealt ι P (Address → Address → Int) where
  src := id
  targets _ _ := False
  foot node i := ∃ hop ∈ node.strand.hops.val, pools.pool hop = i
  process node _ := pools.strand tokenIn tokenOut amountIn node

theorem Pools.strand_eq_some {pools : Pools ι P} {tokenIn tokenOut : Address} {amountIn : Int}
    {node : Dealt} {venues w : ι → P} {emission : Emission Dealt (Address → Address → Int)}
    (h : pools.strand tokenIn tokenOut amountIn node venues = some (emission, w)) :
    ∃ carry, walk (pools.hop tokenIn tokenOut node.strand.hops) 0 node.strand.hops.val
        ⟨node.share, 0, venues⟩ = some carry ∧ emission = ⟨0, carry.moves⟩ ∧ carry.venues = w ∧
      ¬ ((node.last = false ∧ ¬ InI128 (amountIn * node.strand.parts.toNat)) ∨
        node.strand.hops.len = 0) := by
  unfold Pools.strand at h
  split at h
  · cases h
  · rename_i hheader
    obtain ⟨carry, hwalk, heq⟩ := Option.map_eq_some_iff.mp h
    cases heq
    exact ⟨carry, hwalk, rfl, rfl, hheader⟩

/-- A strand depends on its own pools only. -/
theorem Pools.strandNet_lawful (pools : Pools ι P) (tokenIn tokenOut : Address) (amountIn : Int)
    (node : Dealt) : (pools.strandNet tokenIn tokenOut amountIn).Lawful node where
  targets := by
    intro share venues emission w hprocess t _
    obtain ⟨carry, -, rfl, -, -⟩ := Pools.strand_eq_some hprocess
    rfl
  frame := by
    intro share venues emission w hprocess i hfoot
    obtain ⟨carry, hwalk, -, hvenues, -⟩ := Pools.strand_eq_some hprocess
    rw [← hvenues]
    refine walk_inv (I := fun carry : Carry ι P => carry.venues i = venues i) ?_ rfl hwalk
    intro index hop carry carry' hhop hsame hstep
    obtain ⟨quote, hvenues'⟩ := Pools.hop_eq_some hstep
    rw [hvenues', Function.update_of_ne, hsame]
    rintro rfl
    exact hfoot ⟨hop, hhop, rfl⟩
  locality := by
    intro share venues venues' emission w hagree hprocess
    obtain ⟨carry, hwalk, rfl, hvenues, hheader⟩ := Pools.strand_eq_some hprocess
    have hsim := walk_sim (f := pools.hop tokenIn tokenOut node.strand.hops) node.strand.hops.val
      (R := fun carry carry' : Carry ι P => carry.amount = carry'.amount ∧
        carry.moves = carry'.moves ∧ ∀ i, (pools.strandNet tokenIn tokenOut amountIn).foot node i →
          carry'.venues i = carry.venues i) ?_
      (b := ⟨node.share, 0, venues⟩)
      (show _ = (⟨node.share, 0, venues'⟩ : Carry ι P).amount ∧ _ from
        ⟨rfl, rfl, fun i hi => (hagree i hi).symm⟩) hwalk
    · obtain ⟨carry', hwalk', -, hmoves', hvenues'⟩ := hsim
      refine ⟨carry'.venues, ?_, fun i hi => by rw [hvenues' i hi, hvenues]⟩
      show pools.strand tokenIn tokenOut amountIn node venues' = _
      unfold Pools.strand
      rw [if_neg hheader, hwalk']
      show some ((⟨0, carry'.moves⟩, carry'.venues) : Emission Dealt _ × (ι → P)) = _
      rw [hmoves']
    · rintro index hop carry carry' next hhop ⟨hamount, hmoves, hagree⟩ hstep
      have hpool := hagree _ ⟨hop, hhop, rfl⟩
      unfold Pools.hop at hstep ⊢
      rw [← hamount, hpool]
      split at hstep
      · cases hstep
      · rename_i hguards
        obtain ⟨quote, hquote, rfl⟩ := Option.map_eq_some_iff.mp hstep
        rw [if_neg hguards, hquote]
        exact ⟨_, rfl, rfl, by rw [hmoves], Net.update_agree hagree _ _⟩

end Nodes

/-! ## The strand loop -/

section Loop

variable {amount : Int} {front : List Strand} {final : Strand}

theorem strands_dealOut (amount : Int) (front : List Strand) (final : Strand) :
    (dealOut amount front final).map Dealt.strand = front ++ [final] := by
  unfold dealOut
  simp [Function.comp_def]

/-- Every strand but the last one gets its portion, whoever came before it. -/
theorem dealOut_split {done rest : List Dealt} {node : Dealt}
    (hsplit : done ++ node :: rest = dealOut amount front final) :
    (node.last = true ∧ rest = [] ∧ node.share = amount - (done.map Dealt.share).sum) ∨
      (node.last = false ∧ rest ≠ [] ∧ node.share = portion amount
        (weights ((front ++ [final]).map Strand.parts)).sum node.strand.parts.toNat) := by
  unfold dealOut at hsplit
  dsimp only at hsplit
  rcases List.eq_nil_or_concat rest with rfl | ⟨before, x, rfl⟩
  · left
    obtain ⟨hdone, hnode⟩ := List.append_inj' hsplit rfl
    obtain rfl := (List.cons.inj hnode).1
    exact ⟨rfl, rfl, by rw [hdone]⟩
  · right
    rw [List.concat_eq_append, ← List.cons_append, ← List.append_assoc] at hsplit
    obtain ⟨hfront, -⟩ := List.append_inj' hsplit rfl
    have hmem : node ∈ done ++ node :: before := by simp
    rw [hfront] at hmem
    obtain ⟨strand, -, rfl⟩ := List.mem_map.mp hmem
    exact ⟨rfl, by simp, rfl⟩

/-- What the strand loop computes for a strand is what was dealt out to it. -/
theorem dealOut_branch {done rest : List Dealt} {node : Dealt} {allocated : Int}
    (hsplit : done ++ node :: rest = dealOut amount front final)
    (hallocated : allocated = (done.map Dealt.share).sum) :
    branch amount (weights ((front ++ [final]).map Strand.parts)) done.length
        node.strand.parts.toNat allocated = node.share ∧
      (BranchOverflows amount (front ++ [final]).length done.length node.strand.parts ↔
        node.last = false ∧ ¬ InI128 (amount * node.strand.parts.toNat)) := by
  have hlength : (front ++ [final]).length = done.length + 1 + rest.length := by
    rw [← strands_dealOut amount front final, ← hsplit, List.length_map, List.length_append,
      List.length_cons]
    omega
  unfold branch BranchOverflows
  rw [length_weights, List.length_map]
  rcases dealOut_split hsplit with ⟨hlast, rfl, hnode⟩ | ⟨hlast, hrest, hnode⟩
  · rw [List.length_nil] at hlength
    rw [if_pos (by omega), hallocated, ← hnode, hlast]
    refine ⟨rfl, ?_⟩
    constructor
    · exact fun hover => absurd (by omega) hover.1
    · exact fun hover => Bool.noConfusion hover.1
  · have hlater := List.length_pos_iff.mpr hrest
    rw [if_neg (by omega), ← hnode]
    exact ⟨rfl, and_congr_left fun _ => ⟨fun _ => hlast, fun _ => by omega⟩⟩

variable {ι P : Type} [DecidableEq ι] {pools : Pools ι P}
  {ready : (ι → P) → Ledger → Prop} {scope : Scope (ι → P)} {s s0 : State (ι → P)}
  {tokenIn tokenOut : Address} {store : Store Dealt ι P (Address → Address → Int)}

/-- The strand loop against the store of the dataflow. -/
structure Reached (ready : (ι → P) → Ledger → Prop) (s : State (ι → P))
    (store : Store Dealt ι P (Address → Address → Int)) : Prop where
  venues : s.venues = store.locals
  ledger : s.ledger.balance = store.effect
  ready : ready s.venues s.ledger

/-- One strand tracks its node. -/
theorem Pools.strandStep {done rest : List Dealt} {node : Dealt} {runs : List StrandRun}
    {allocated : Int}
    (hhonest : ∀ hop ∈ node.strand.hops.val, pools.Honest scope.env scope.deadline ready hop)
    (hopened : scope.Opened (fun t => if t = tokenIn then amount else 0) s0)
    (hamount : 0 < amount ∧ amount ≤ i128Max)
    (htotal : 0 < (weights ((front ++ [final]).map Strand.parts)).sum)
    (hsplit : done ++ node :: rest = dealOut amount front final)
    (hinv : SwapInv scope s0 tokenIn tokenOut amount ((front ++ [final]).map Strand.parts) runs
      (done.map Dealt.strand) allocated s)
    (hallocated : allocated = (done.map Dealt.share).sum) (h : Reached ready s store) :
    Tracks Overflowed (fun allocated s store => Reached ready s store ∧
        allocated = ((done ++ [node]).map Dealt.share).sum ∧
        ∃ runs, SwapInv scope s0 tokenIn tokenOut amount ((front ++ [final]).map Strand.parts) runs
          ((done ++ [node]).map Dealt.strand) allocated s)
      (strandStep scope.env tokenIn tokenOut amount
        (weights ((front ++ [final]).map Strand.parts)).sum scope.deadline
        (front ++ [final]).length done.length node.strand allocated s)
      ((pools.strandNet tokenIn tokenOut amount).step node store) := by
  have hstrands : done.map Dealt.strand ++ node.strand :: rest.map Dealt.strand =
      front ++ [final] := by
    rw [← strands_dealOut amount front final, ← hsplit, List.map_append, List.map_cons]
  have hindex : (done.map Dealt.strand).length = done.length := List.length_map _
  have hrun : Tracks Overflowed
      (fun allocated s store => Reached ready s store ∧
        allocated = ((done ++ [node]).map Dealt.share).sum)
      (WowmaxStellar.strandStep scope.env tokenIn tokenOut amount
        (weights ((front ++ [final]).map Strand.parts)).sum scope.deadline
        (front ++ [final]).length done.length node.strand allocated s)
      ((pools.strandNet tokenIn tokenOut amount).step node store) := by
    obtain ⟨share, hshare, hle, -, hstep⟩ := strandStep_eq hinv.running hamount htotal hstrands
    have heq := hstep scope.env tokenIn tokenOut scope.deadline
    rw [hindex] at hshare heq
    have hdealt := dealOut_branch hsplit hallocated
    rw [← hshare] at hdealt
    obtain ⟨rfl, hoverflows⟩ := hdealt
    rw [heq]
    unfold Net.step
    show Tracks _ _ _ (Option.map _ (pools.strand tokenIn tokenOut amount node store.locals))
    unfold Pools.strand
    by_cases hover : BranchOverflows amount (front ++ [final]).length done.length node.strand.parts
    · rw [if_pos hover, if_pos (.inl (hoverflows.mp hover))]
      exact .fail _ _
    rw [if_neg hover]
    by_cases hempty : node.strand.hops.len = 0
    · rw [panicIf_of hempty, if_pos (.inr hempty)]
      exact .fail _ _
    rw [panicIf_of_not hempty, pure_bind,
      if_neg (not_or.mpr ⟨fun hbad => hover (hoverflows.mpr hbad), hempty⟩), Option.map_map,
      Option.map_eq_bind, ← h.venues]
    refine (Pools.hopLoop hhonest hopened (hinv.reserve_nonneg hle) (hinv.enter node.share)
      h.ready).bind ?_
    rintro out s' carry - - hconveyed
    refine ⟨⟨hconveyed.venues, ?_, hconveyed.ready⟩, ?_⟩
    · funext t x
      rw [hconveyed.ledger, h.ledger]
      rfl
    · rw [List.map_append, List.sum_append, hallocated]
      simp
  have hpost := strandStep_post hopened hamount htotal hstrands hinv
  rw [hindex] at hpost
  refine (hrun.and_left hpost).mono ?_
  rintro allocated' s' store' ⟨⟨hreached, hsum⟩, run, share, -, -, -, hinv'⟩
  have hdone : (done ++ [node]).map Dealt.strand = done.map Dealt.strand ++ [node.strand] :=
    List.map_append
  refine ⟨hreached, hsum, runs ++ [run], ?_⟩
  rw [hdone]
  exact hinv'

/-- The strand loop tracks the run of the dataflow. -/
theorem Pools.strandLoop (tokenOut : Address)
    (hhonest : ∀ hop ∈ swapEdges (front ++ [final]),
      pools.Honest scope.env scope.deadline ready hop)
    (hopened : scope.Opened (fun t => if t = tokenIn then amount else 0) s0)
    (hamount : 0 < amount ∧ amount ≤ i128Max)
    (htotal : 0 < (weights ((front ++ [final]).map Strand.parts)).sum)
    (hjournal : Journal scope s0 [] s) (h : Reached ready s store) :
    Tracks Overflowed (fun _ s store => Reached ready s store)
      (loop (WowmaxStellar.strandStep scope.env tokenIn tokenOut amount
        (weights ((front ++ [final]).map Strand.parts)).sum scope.deadline
        (front ++ [final]).length) 0 (front ++ [final]) 0 s)
      ((pools.strandNet tokenIn tokenOut amount).run (dealOut amount front final) store) := by
  have hloop : loop (WowmaxStellar.strandStep scope.env tokenIn tokenOut amount
      (weights ((front ++ [final]).map Strand.parts)).sum scope.deadline
      (front ++ [final]).length) 0 (front ++ [final]) 0 =
      loop (fun i node => WowmaxStellar.strandStep scope.env tokenIn tokenOut amount
        (weights ((front ++ [final]).map Strand.parts)).sum scope.deadline
        (front ++ [final]).length i node.strand) 0 (dealOut amount front final) 0 := by
    rw [← strands_dealOut amount front final, loop_map]
  rw [hloop, Net.run_eq_walk _ 0]
  refine Tracks.mono (Tracks.loop (I := fun done allocated s store => Reached ready s store ∧
    allocated = (done.map Dealt.share).sum ∧
    ∃ runs, SwapInv scope s0 tokenIn tokenOut amount ((front ++ [final]).map Strand.parts) runs
      (done.map Dealt.strand) allocated s) ?_ ?_) fun _ _ _ h => h.1
  · rintro done node rest hsplit allocated s' store' ⟨hreached, hallocated, runs, hinv⟩
    refine Pools.strandStep (fun hop hhop => hhonest hop ?_) hopened hamount htotal hsplit hinv
      hallocated hreached
    rw [← strands_dealOut amount front final, ← hsplit]
    unfold swapEdges
    rw [List.map_append, List.flatMap_append, List.map_cons, List.flatMap_cons]
    exact List.mem_append_right _ (List.mem_append_left _ hhop)
  · exact ⟨h, rfl, [], .initial hjournal htotal⟩

end Loop

end WowmaxStellar
