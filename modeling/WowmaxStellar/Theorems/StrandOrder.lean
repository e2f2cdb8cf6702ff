import WowmaxStellar.Logic.Agreement
import WowmaxStellar.Logic.Desk
import WowmaxStellar.Logic.Strands

/-!
# The order of the strands

The strands of a `swap` run side by side in intention and one after the other in fact. With
honest venues and no pool in two strands their order does not matter, as long as the last one,
which gets what rounding down leaves of the others, stays where it is.

* `Pools.run_dealt` — both orders are the same run of the dataflow;
* `strand_order_irrelevant` — the same result and the same world.
-/

namespace WowmaxStellar

open Runs Flow Split Dataflow

/-- No two strands trade on the same pool. -/
def Pools.Apart {ι P : Type} (pools : Pools ι P) (plan : List Strand) : Prop :=
  plan.Pairwise fun strand strand' => ∀ hop ∈ strand.hops.val, ∀ hop' ∈ strand'.hops.val,
    pools.pool hop ≠ pools.pool hop'

theorem sum_parts_perm {front front' : List Strand} (hperm : front.Perm front') (final : Strand) :
    (weights ((front ++ [final]).map Strand.parts)).sum =
      (weights ((front' ++ [final]).map Strand.parts)).sum :=
  (((hperm.append_right [final]).map Strand.parts).map _).sum_eq

/-- The shares of the two orders are the same. -/
theorem dealOut_perm {front front' : List Strand} (hperm : front.Perm front') (amount : Int)
    (final : Strand) : (dealOut amount front final).Perm (dealOut amount front' final) := by
  unfold dealOut
  dsimp only
  rw [sum_parts_perm hperm final]
  have hdealt := hperm.map fun strand => Dealt.mk strand
    (portion amount (weights ((front' ++ [final]).map Strand.parts)).sum strand.parts.toNat) false
  rw [(hdealt.map Dealt.share).sum_eq]
  exact hdealt.append_right _

section Orders

variable {ι P : Type} [DecidableEq ι] {pools : Pools ι P} {tokenIn tokenOut : Address}
  {amount : Int}

/-- A plan's strands, dealt out, are as far apart as the plan's. -/
theorem Pools.Apart.dealt {front : List Strand} {final : Strand}
    (h : pools.Apart (front ++ [final])) :
    (dealOut amount front final).Pairwise fun m n => ∀ i,
      (pools.strandNet tokenIn tokenOut amount).foot m i →
        ¬ (pools.strandNet tokenIn tokenOut amount).foot n i := by
  unfold Pools.Apart at h
  rw [← strands_dealOut amount front final, List.pairwise_map] at h
  refine h.imp ?_
  rintro m n hapart i ⟨hop, hhop, rfl⟩ ⟨hop', hhop', heq⟩
  exact hapart hop hhop hop' hhop' heq.symm

/-- Both orders of the strands are the same run of the dataflow. -/
theorem Pools.run_dealt {front front' : List Strand} {final : Strand}
    (hperm : front.Perm front') (hapart : pools.Apart (front ++ [final]))
    (store : Store Dealt ι P (Address → Address → Int)) :
    (pools.strandNet tokenIn tokenOut amount).run (dealOut amount front final) store =
      (pools.strandNet tokenIn tokenOut amount).run (dealOut amount front' final) store := by
  have hdealt := dealOut_perm hperm amount final
  by_cases hempty : ∃ node ∈ dealOut amount front final, node.strand.hops.len = 0
  · -- a strand without hops stops the run wherever it stands
    obtain ⟨node, hmem, hlen⟩ := hempty
    have hnone : ∀ a v, (pools.strandNet tokenIn tokenOut amount).process node a v = none := by
      intro a v
      show pools.strand tokenIn tokenOut amount node v = none
      exact if_pos (.inr hlen)
    rw [Net.run_eq_none _ hmem hnone, Net.run_eq_none _ (hdealt.subset hmem) hnone]
  have hne : ∀ node ∈ dealOut amount front final, ∃ hop, hop ∈ node.strand.hops.val := by
    intro node hmem
    apply List.exists_mem_of_ne_nil
    intro hnil
    exact hempty ⟨node, hmem, by unfold Vec.len; rw [hnil]; rfl⟩
  have hfoot : (dealOut amount front final).Pairwise fun m n => ∀ i,
      (pools.strandNet tokenIn tokenOut amount).foot m i →
        ¬ (pools.strandNet tokenIn tokenOut amount).foot n i := hapart.dealt
  have hnodup : (dealOut amount front final).Nodup := by
    refine hfoot.imp_of_mem ?_
    rintro m n hm _ hfar rfl
    obtain ⟨hop, hhop⟩ := hne m hm
    exact hfar (pools.pool hop) ⟨hop, hhop, rfl⟩ ⟨hop, hhop, rfl⟩
  have htopological : ∀ nodes, (pools.strandNet tokenIn tokenOut amount).Topological nodes :=
    fun nodes => List.pairwise_of_forall fun _ _ h => h
  refine Net.run_perm hdealt ?_ hfoot
    (fun node _ => pools.strandNet_lawful tokenIn tokenOut amount node) (htopological _)
    (htopological _) store
  exact (List.map_id _).symm ▸ hnodup

variable {scope : Scope (ι → P)} {ready : (ι → P) → Ledger → Prop} {s : State (ι → P)}
  {front front' : List Strand} {final : Strand}

/-- The strand loops of the two orders, from one state. -/
theorem strandLoop_reordered (tokenOut : Address) (hperm : front.Perm front')
    (hapart : pools.Apart (front ++ [final]))
    (hhonest : ∀ hop ∈ swapEdges (front ++ [final]),
      pools.Honest scope.env scope.deadline ready hop)
    (hopened : scope.Opened (fun t => if t = tokenIn then amount else 0) s)
    (hamount : 0 < amount ∧ amount ≤ i128Max)
    (htotal : 0 < (weights ((front ++ [final]).map Strand.parts)).sum)
    (hready : ready s.venues s.ledger) :
    Lockstep Overflowed (fun _ _ _ _ => True) (fun _ _ t t' => t.world = t'.world)
      (loop (strandStep scope.env tokenIn tokenOut amount
        (weights ((front ++ [final]).map Strand.parts)).sum scope.deadline
        (front ++ [final]).length) 0 (front ++ [final]) 0 s)
      (loop (strandStep scope.env tokenIn tokenOut amount
        (weights ((front' ++ [final]).map Strand.parts)).sum scope.deadline
        (front' ++ [final]).length) 0 (front' ++ [final]) 0 s) := by
  let store : Store Dealt ι P (Address → Address → Int) := ⟨fun _ => 0, s.venues, s.ledger.balance⟩
  have hreached : Reached ready s store := ⟨rfl, rfl, hready⟩
  have hhonest' : ∀ hop ∈ swapEdges (front' ++ [final]),
      pools.Honest scope.env scope.deadline ready hop := by
    intro hop hmem
    obtain ⟨strand, hstrand, hhop⟩ := List.mem_flatMap.mp hmem
    apply hhonest
    exact List.mem_flatMap.mpr ⟨strand, (hperm.symm.append_right [final]).subset hstrand, hhop⟩
  have htracks := Pools.strandLoop tokenOut hhonest hopened hamount htotal .start hreached
  rw [sum_parts_perm hperm final] at htotal
  have htracks' := Pools.strandLoop tokenOut hhonest' hopened hamount htotal .start hreached
  rw [pools.run_dealt hperm hapart] at htracks
  refine (htracks.lockstep htracks').mono ?_
  rintro _ _ t t' ⟨store', hend, hend'⟩
  exact State.world_eq (fun _ _ => by rw [hend.ledger, hend'.ledger])
    (hend.venues.trans hend'.venues.symm)

end Orders

section Calls

variable {V : Type} {env : Env V} {user tokenIn tokenOut : Address} {amountIn amountOutMin : I128}
  {deadline : UInt64} {plan : Vec Strand} {front : List Strand} {final : Strand}

/-- `swap` on a plan that has a last strand. -/
theorem swap_eq_of_last (hplan : plan.val = front ++ [final]) :
    swap env user tokenIn tokenOut amountIn amountOutMin deadline plan = (do
      entryChecks env user tokenIn tokenOut amountIn amountOutMin deadline
      let outBefore ← balance tokenOut env.contract
      transfer env tokenIn user env.contract amountIn
      panicIf ((weights ((front ++ [final]).map Strand.parts)).sum ≤ 0) .totalPartsZero
      let _ ← loop (strandStep env tokenIn tokenOut amountIn
        (weights ((front ++ [final]).map Strand.parts)).sum deadline (front ++ [final]).length) 0
        (front ++ [final]) 0
      forwardOutput env user tokenOut outBefore amountOutMin) := by
  have hlen : plan.len = (front ++ [final]).length := congrArg List.length hplan
  have hlength : ((front ++ [final]).map Strand.parts).length < 2 ^ 32 := by
    rw [List.length_map, ← hlen]
    exact plan.property
  unfold swap
  rw [hlen, hplan, panicIf_of_not (by simp), sumParts_eq _ hlength]
  simp only [pure_bind]

/-- The payout sees the world only. -/
theorem forwardOutput_lockstep {outBefore : Int} {s t : State V} (hworld : s.world = t.world) :
    Lockstep Overflowed (fun _ _ _ _ => True) (fun out out' s t => out = out' ∧ s.world = t.world)
      (forwardOutput env user tokenOut outBefore amountOutMin s)
      (forwardOutput env user tokenOut outBefore amountOutMin t) := by
  have hledger : s.ledger = t.ledger := congrArg World.ledger hworld
  unfold forwardOutput
  refine lockstep_balance_bind (lockstep_checkedSub_bind (by rw [hledger]) trivial fun _ => ?_)
  rw [hledger]
  refine lockstep_panicIf_bind Iff.rfl trivial fun _ _ => ?_
  refine lockstep_panicIf_bind Iff.rfl trivial fun _ _ => ?_
  exact lockstep_transfer_bind (s := s.served _) (t := t.served _) hworld
    fun s' t' hsame => ⟨rfl, hsame⟩

end Calls

/-- The runs of the two orders. -/
theorem swap_reordered {ι P : Type} [DecidableEq ι] {pools : Pools ι P} {env : Env (ι → P)}
    {ready : (ι → P) → Ledger → Prop} {world : World (ι → P)} {user tokenIn tokenOut : Address}
    {amountIn amountOutMin : I128} {deadline : UInt64} {plan plan' : Vec Strand}
    {front front' : List Strand} {final : Strand} (hplan : plan.val = front ++ [final])
    (hplan' : plan'.val = front' ++ [final]) (hperm : front.Perm front')
    (hapart : pools.Apart plan.val)
    (hhonest : ∀ hop ∈ swapEdges plan.val, pools.Honest env deadline ready hop)
    (hready : ∀ ledger, world.ledger.transfer tokenIn user env.contract amountIn = .ok ledger →
      ready world.venues ledger) :
    Lockstep Overflowed (fun _ _ _ _ => True) (fun out out' s t => out = out' ∧ s.world = t.world)
      (swap env user tokenIn tokenOut amountIn amountOutMin deadline plan world.start)
      (swap env user tokenIn tokenOut amountIn amountOutMin deadline plan' world.start) := by
  rw [hplan] at hapart hhonest
  rw [swap_eq_of_last hplan, swap_eq_of_last hplan']
  refine lockstep_prelude fun hsigned hamount _ _ s htransfer hvenues => ?_
  refine lockstep_panicIf_bind (by rw [sum_parts_perm hperm final]) trivial fun htotal _ => ?_
  let scope : Scope (ι → P) :=
    (EntryCall.swap user tokenIn tokenOut amountIn amountOutMin deadline plan).scope env world
  have hopened : scope.Opened (fun t => if t = tokenIn then (amountIn : Int) else 0) s :=
    { base_nonneg := fun t => world.ledger.nonneg t env.contract
      held := fun t => (pulled_balance htransfer hsigned t).ge }
  have hhonest : ∀ hop ∈ swapEdges (front ++ [final]),
      pools.Honest scope.env scope.deadline ready hop := hhonest
  have hloops := strandLoop_reordered tokenOut hperm hapart hhonest hopened
    ⟨hamount, amountIn.property.2⟩ (by omega) (by rw [hvenues]; exact hready _ htransfer)
  exact hloops.bind fun _ _ t t' _ _ hworld => forwardOutput_lockstep hworld

/-- The same call with other strands. -/
def SwapArgs.withPlan (args : SwapArgs) (plan : Vec Strand) : SwapArgs := { args with plan := plan }

/-- **Order of the strands.** A `swap` whose strands but the last are permuted succeeds exactly
when the original does, with the same value, and leaves the same world, unless a balance
overflows. -/
theorem strand_order_irrelevant {ι P : Type} [DecidableEq ι] (pools : Pools ι P)
    (ready : (ι → P) → Ledger → Prop) (env : Env (ι → P)) (world : World (ι → P))
    (args : SwapArgs) (plan : Vec Strand)
    (hhonest : ∀ hop ∈ swapEdges args.plan.val, pools.Honest env args.deadline ready hop)
    (hready : ∀ ledger, world.ledger.transfer args.tokenIn args.user env.contract args.amountIn =
      .ok ledger → ready world.venues ledger)
    (hapart : pools.Apart args.plan.val) (hperm : args.plan.val.Perm plan.val)
    (hlast : args.plan.val.getLast? = plan.val.getLast?)
    (hfits : (args.call.invoke env world).result ≠ .error (.host .balanceOverflow))
    (hfits' : ((args.withPlan plan).call.invoke env world).result ≠
      .error (.host .balanceOverflow)) :
    (∀ out, (args.call.invoke env world).result = .ok out ↔
        ((args.withPlan plan).call.invoke env world).result = .ok out) ∧
      (args.call.invoke env world).world =
        ((args.withPlan plan).call.invoke env world).world := by
  rcases List.eq_nil_or_concat args.plan.val with hnil | ⟨front, final, hplan⟩
  · -- no strand: there is nothing to permute
    rw [hnil] at hperm
    have hsame : plan = args.plan := Subtype.ext ((List.nil_perm.mp hperm).trans hnil.symm)
    rw [hsame]
    exact ⟨fun _ => Iff.rfl, rfl⟩
  rw [List.concat_eq_append] at hplan
  rcases List.eq_nil_or_concat plan.val with hnil | ⟨front', final', hplan'⟩
  · rw [hplan, hnil] at hperm
    exact absurd (List.perm_nil.mp hperm) (by simp)
  rw [List.concat_eq_append] at hplan'
  obtain rfl : final = final' := by simpa [hplan, hplan'] using hlast
  have hfront : front.Perm front' := by
    rw [hplan, hplan'] at hperm
    exact (List.perm_append_right_iff [final]).mp hperm
  have hlockstep : Lockstep Overflowed (fun _ _ _ _ => True)
      (fun out out' s t => out = out' ∧ s.world = t.world) (args.call.run env world.start)
      ((args.withPlan plan).call.run env world.start) :=
    swap_reordered hplan hplan' hfront hapart hhonest hready
  obtain ⟨hresult, hworld, -⟩ := invoke_of_lockstep hlockstep (fun _ _ _ _ hsame => hsame)
    (EntryCall.not_overflowed hfits) (EntryCall.not_overflowed hfits')
  exact ⟨hresult, hworld⟩

/-- Three strands from token 10 to token 13, two of them by way of token 11. -/
def deskTrio : SwapArgs :=
  ⟨⟨1⟩, ⟨10⟩, ⟨13⟩, .ofUInt32 100, .ofUInt32 90, 0,
    ⟨[⟨1, .pair (deskHop 20 10 11) (deskHop 22 11 13)⟩,
      ⟨2, .pair (deskHop 21 10 11) (deskHop 23 11 13)⟩, ⟨4, .single (deskHop 24 10 13)⟩], by simp⟩⟩

theorem strand_order_irrelevant_desk :
    (∀ out, (deskTrio.call.invoke deskEnv (deskWorld 5)).result = .ok out ↔
        ((deskTrio.withPlan
          ⟨[⟨2, .pair (deskHop 21 10 11) (deskHop 23 11 13)⟩,
            ⟨1, .pair (deskHop 20 10 11) (deskHop 22 11 13)⟩, ⟨4, .single (deskHop 24 10 13)⟩],
            by simp⟩).call.invoke deskEnv (deskWorld 5)).result = .ok out) ∧
      (deskTrio.call.invoke deskEnv (deskWorld 5)).world =
        ((deskTrio.withPlan
          ⟨[⟨2, .pair (deskHop 21 10 11) (deskHop 23 11 13)⟩,
            ⟨1, .pair (deskHop 20 10 11) (deskHop 22 11 13)⟩, ⟨4, .single (deskHop 24 10 13)⟩],
            by simp⟩).call.invoke deskEnv (deskWorld 5)).world := by
  have hdesks : ∀ hop ∈ swapEdges deskTrio.plan.val, hop.AtDesk := by
    intro hop hmem
    have hedges : swapEdges deskTrio.plan.val = [deskHop 20 10 11, deskHop 22 11 13,
      deskHop 21 10 11, deskHop 23 11 13, deskHop 24 10 13] := rfl
    rw [hedges] at hmem
    simp only [List.mem_cons, List.not_mem_nil, or_false] at hmem
    rcases hmem with rfl | rfl | rfl | rfl | rfl <;> exact deskHop_atDesk (by decide) (by decide)
  have hout : (deskTrio.call.invoke deskEnv (deskWorld 5)).result = .ok 100 := by decide +kernel
  apply strand_order_irrelevant deskPools (fun _ _ => True) deskEnv (deskWorld 5) deskTrio
  · exact fun hop hmem => desk_honest (hdesks hop hmem)
  · exact fun _ _ => trivial
  · unfold Pools.Apart deskPools
    decide
  · exact .swap ..
  · rfl
  · rw [hout]
    exact nofun
  · decide +kernel

end WowmaxStellar
