import WowmaxStellar.Logic.MergeRuns

/-!
# Runs of `swap`

A strand carries one amount from `token_in` to `token_out`: each hop spends what the
hop before it delivered. The books of a run are the input not yet allocated and the
outputs of the strands already through.

* `hopStep_post`, `hopLoop_post` — one hop, one strand's hops;
* `strandStep_post`, `strandLoop_post` — one strand, all of them.
-/

namespace WowmaxStellar

open Runs Flow Split

variable {V : Type}

/-- The token a strand is in once the hops `done` are through. -/
def strandToken (tokenIn : Address) (done : List Hop) : Address :=
  (done.getLast?.map Hop.tokenOut).getD tokenIn

@[simp] theorem strandToken_nil (tokenIn : Address) : strandToken tokenIn [] = tokenIn := rfl

@[simp] theorem strandToken_snoc (tokenIn : Address) (done : List Hop) (hop : Hop) :
    strandToken tokenIn (done ++ [hop]) = hop.tokenOut := by
  simp [strandToken]

@[simp] theorem strandToken_cons (tokenIn : Address) (hop : Hop) (rest : List Hop) :
    strandToken tokenIn (hop :: rest) = strandToken hop.tokenOut rest := by
  unfold strandToken
  rw [List.getLast?_cons]
  cases rest.getLast? <;> rfl

/-! ## The checks on a hop -/

/-- What the checks of the hop at index `h` ask. -/
def GoesOn (tokenIn tokenOut : Address) (hops : Vec Hop) (h : Nat) (hop : Hop) : Prop :=
  hop.tokenIn ≠ hop.tokenOut ∧
    (if h = 0 then hop.tokenIn = tokenIn
      else hops.val[h - 1]?.map Hop.tokenOut = some hop.tokenIn) ∧
    (h = hops.len - 1 → hop.tokenOut = tokenOut)

/-- The panics of the checks. -/
def ContinuityGuard (site : Guard) : Prop :=
  site ∈ [Guard.degenerateHop, .strandStart, .hopMismatch, .strandEnd]

instance (site : Guard) : Decidable (ContinuityGuard site) :=
  inferInstanceAs (Decidable (_ ∈ _))

section Checks

variable {tokenIn tokenOut : Address} {hops : Vec Hop} {done rest : List Hop} {hop : Hop}

theorem hopChecks_of_goesOn {h : Nat} (hgoes : GoesOn tokenIn tokenOut hops h hop) :
    (hopChecks tokenIn tokenOut hops h hop : Exec V Unit) = pure () := by
  obtain ⟨hdistinct, hstart, hend⟩ := hgoes
  have hlast : ¬ (h = hops.len - 1 ∧ hop.tokenOut ≠ tokenOut) := fun hbad => hbad.2 (hend hbad.1)
  unfold hopChecks
  rw [panicIf_of_not hdistinct, pure_bind, panicIf_of_not hlast]
  by_cases hzero : h = 0
  · rw [if_pos hzero] at hstart ⊢
    rw [panicIf_of_not (not_not.mpr hstart)]
    rfl
  · rw [if_neg hzero] at hstart ⊢
    rw [panicIf_of_not (not_not.mpr hstart)]
    rfl

theorem hopChecks_of_not_goesOn {h : Nat} (hnot : ¬ GoesOn tokenIn tokenOut hops h hop) :
    ∃ site, ContinuityGuard site ∧
      (hopChecks tokenIn tokenOut hops h hop : Exec V Unit) = throw (.guard site) := by
  unfold hopChecks
  by_cases hdistinct : hop.tokenIn = hop.tokenOut
  · rw [panicIf_of hdistinct]
    exact ⟨.degenerateHop, by decide, rfl⟩
  rw [panicIf_of_not hdistinct, pure_bind]
  -- the start is tested first, then the end
  have hend : (if h = 0 then hop.tokenIn = tokenIn
      else hops.val[h - 1]?.map Hop.tokenOut = some hop.tokenIn) →
      h = hops.len - 1 ∧ hop.tokenOut ≠ tokenOut := by
    intro hstart
    by_contra hnone
    exact hnot ⟨hdistinct, hstart, fun hlast => not_not.mp fun hne => hnone ⟨hlast, hne⟩⟩
  by_cases hzero : h = 0
  · rw [if_pos hzero] at hend ⊢
    by_cases hstart : hop.tokenIn = tokenIn
    · rw [panicIf_of_not (not_not.mpr hstart), pure_bind, panicIf_of (hend hstart)]
      exact ⟨.strandEnd, by decide, rfl⟩
    · rw [panicIf_of hstart]
      exact ⟨.strandStart, by decide, rfl⟩
  · rw [if_neg hzero] at hend ⊢
    by_cases hstart : hops.val[h - 1]?.map Hop.tokenOut = some hop.tokenIn
    · rw [panicIf_of_not (not_not.mpr hstart), pure_bind, panicIf_of (hend hstart)]
      exact ⟨.strandEnd, by decide, rfl⟩
    · rw [panicIf_of hstart]
      exact ⟨.hopMismatch, by decide, rfl⟩

/-- The token the hop before delivered is the token the strand is in. -/
theorem previous_iff (hsplit : done ++ hop :: rest = hops.val) :
    (if done.length = 0 then hop.tokenIn = tokenIn
      else hops.val[done.length - 1]?.map Hop.tokenOut = some hop.tokenIn) ↔
      hop.tokenIn = strandToken tokenIn done := by
  rcases List.eq_nil_or_concat done with rfl | ⟨before, last, rfl⟩
  · rw [if_pos List.length_nil, strandToken_nil]
  · have hprevious : hops.val[(before.concat last).length - 1]? = some last := by
      rw [← hsplit]
      simp
    rw [if_neg (by simp), hprevious, List.concat_eq_append, strandToken_snoc, Option.map_some,
      Option.some_inj]
    exact eq_comm

theorem lastIndex_iff (hsplit : done ++ hop :: rest = hops.val) :
    done.length = hops.len - 1 ↔ rest = [] := by
  have hlength : hops.len = done.length + (rest.length + 1) := by
    unfold Vec.len
    rw [← hsplit, List.length_append, List.length_cons]
  rw [hlength, ← List.length_eq_zero_iff]
  omega

/-- The checks in the terms of the strand: the hop goes on where the strand is. -/
theorem goesOn_iff (hsplit : done ++ hop :: rest = hops.val) :
    GoesOn tokenIn tokenOut hops done.length hop ↔
      hop.tokenIn ≠ hop.tokenOut ∧ hop.tokenIn = strandToken tokenIn done ∧
        (rest = [] → hop.tokenOut = tokenOut) := by
  unfold GoesOn
  rw [previous_iff hsplit, lastIndex_iff hsplit]

theorem GoesOn.start (hsplit : done ++ hop :: rest = hops.val)
    (hgoes : GoesOn tokenIn tokenOut hops done.length hop) :
    hop.tokenIn = strandToken tokenIn done :=
  ((goesOn_iff hsplit).mp hgoes).2.1

/-- What the continuity checks let through. -/
theorem post_hopChecks_bind {β : Type} {s : State V} {Q : β → State V → Prop}
    {E : Panic → State V → Prop} {f : Unit → Exec V β} (hsplit : done ++ hop :: rest = hops.val)
    (hfail : ∀ site, ContinuityGuard site → E (.guard site) s)
    (hpass : hop.tokenIn ≠ hop.tokenOut → hop.tokenIn = strandToken tokenIn done →
      (rest = [] → hop.tokenOut = tokenOut) → Post (f ()) s Q E) :
    Post (hopChecks tokenIn tokenOut hops done.length hop >>= f) s Q E := by
  by_cases hgoes : GoesOn tokenIn tokenOut hops done.length hop
  · obtain ⟨hdistinct, hstart, hend⟩ := (goesOn_iff hsplit).mp hgoes
    rw [hopChecks_of_goesOn hgoes, pure_bind]
    exact hpass hdistinct hstart hend
  · obtain ⟨site, hsite, heq⟩ := hopChecks_of_not_goesOn (V := V) hgoes
    rw [heq]
    exact .throw (hfail site hsite)

/-- The continuity checks pass on a hop that goes on where the strand is. -/
theorem hopChecks_eq (done rest : List Hop) (hsplit : done ++ hop :: rest = hops.val)
    (hdistinct : hop.tokenIn ≠ hop.tokenOut) (hstart : hop.tokenIn = strandToken tokenIn done)
    (hend : rest = [] → hop.tokenOut = tokenOut) :
    (hopChecks tokenIn tokenOut hops done.length hop : Exec V Unit) = pure () :=
  hopChecks_of_goesOn ((goesOn_iff hsplit).mpr ⟨hdistinct, hstart, hend⟩)

/-- The hops of a strand of one hop are that hop. -/
theorem hopLoop_single (env : Env V) {deadline : UInt64} {amount : Int}
    (hin : hop.tokenIn = tokenIn) (hout : hop.tokenOut = tokenOut)
    (hdistinct : tokenIn ≠ tokenOut) :
    loop (hopStep env tokenIn tokenOut deadline (.single hop)) 0 (Vec.single hop).val amount =
      runHop env deadline hop amount := by
  have hchecks : (hopChecks tokenIn tokenOut (.single hop) 0 hop : Exec V Unit) = pure () :=
    hopChecks_eq [] [] rfl (by rw [hin, hout]; exact hdistinct) hin fun _ => hout
  rw [Vec.single_val, loop_cons]
  unfold hopStep
  rw [hchecks, pure_bind]
  show (runHop env deadline hop amount >>= pure) = _
  rw [bind_pure]

end Checks

/-! ## Hops -/

section Hops

variable {scope : Scope V} {s0 s : State V} {start reserve : Address → Int}
  {earlier legs : List Leg} {tokenIn tokenOut : Address} {hops : Vec Hop}
  {done rest : List Hop} {hop : Hop} {hopIn : Int}

/-- The state of a strand once the hops `done` are through: `reserve` is what the books
hold for others. -/
structure HopInv (scope : Scope V) (s0 : State V) (start reserve : Address → Int)
    (earlier : List Leg) (tokenIn : Address) (legs : List Leg) (done : List Hop)
    (hopIn : Int) (s : State V) : Prop where
  journal : Journal scope s0 (earlier ++ legs) s
  hops : legs.map Leg.hop = done
  books : ∀ t, holding start ((earlier ++ legs).map Leg.move) t =
    reserve t + if t = strandToken tokenIn done then hopIn else 0
  output : ∀ leg, legs.getLast? = some leg → leg.out = hopIn ∧ 0 < hopIn

/-- The books show what the next hop is handed. -/
theorem HopInv.covers (h : HopInv scope s0 start reserve earlier tokenIn legs done hopIn s)
    (hopened : scope.Opened start s0) (hreserve : ∀ t, 0 ≤ reserve t) :
    scope.Covers (strandToken tokenIn done) hopIn s.ledger := by
  intro t
  have hcovered := h.journal.covered hopened.held t
  have hnonneg := hreserve t
  rw [h.books] at hcovered
  omega

theorem hopStep_post (hopened : scope.Opened start s0) (hreserve : ∀ t, 0 ≤ reserve t)
    (hsplit : done ++ hop :: rest = hops.val)
    (h : HopInv scope s0 start reserve earlier tokenIn legs done hopIn s) :
    Post (hopStep scope.env tokenIn tokenOut scope.deadline hops done.length hop hopIn) s
      (fun out s' => (rest = [] → hop.tokenOut = tokenOut) ∧ ∃ leg : Leg, leg.amount = hopIn ∧
        leg.out = out ∧
        HopInv scope s0 start reserve earlier tokenIn (legs ++ [leg]) (done ++ [hop]) out s')
      (Stopped scope s0 (earlier.map Leg.hop ++ (done ++ [hop]))) := by
  have hedges : earlier.map Leg.hop ++ (done ++ [hop]) =
      (earlier ++ legs).map Leg.hop ++ [hop] := by
    rw [List.map_append, h.hops, List.append_assoc]
  unfold hopStep
  refine post_hopChecks_bind hsplit ?_ ?_
  · intro site hsite
    refine h.journal.stopped ?_ ?_
    · unfold Unreached
      rintro (hs | hs | hs | hs) <;> cases hs <;> exact absurd hsite (by decide)
    · rw [hedges]
      exact List.prefix_append _ _
  intro hdistinct hstart hend
  have hcovers : scope.Covers hop.tokenIn hopIn s.ledger := by
    rw [hstart]
    exact h.covers hopened hreserve
  refine (h.journal.runHop_post hdistinct fun _ => hcovers).mono ?_ ?_
  · rintro out s' ⟨hpos, record, hjournal⟩
    refine ⟨hend, ⟨hop, hopIn, out, record⟩, rfl, rfl, ?_⟩
    rw [List.append_assoc] at hjournal
    exact
      { journal := hjournal
        hops := by rw [List.map_append, h.hops, List.map_singleton]
        books := by
          intro t
          rw [← List.append_assoc, List.map_append, List.map_singleton, holding_move,
            h.books, strandToken_snoc, ← hstart]
          show reserve t + (if t = hop.tokenIn then hopIn else 0) +
            (if hop.tokenOut = t then out else 0) - (if hop.tokenIn = t then hopIn else 0) = _
          simp only [eq_comm (a := t)]
          omega
        output := by
          intro leg hleg
          rw [List.getLast?_append] at hleg
          simp only [List.getLast?_singleton, Option.some_or, Option.some.injEq] at hleg
          rw [← hleg]
          exact ⟨rfl, hpos⟩ }
  · rintro panic s' ⟨hpanic, called, hcalled, hhalted⟩
    exact ⟨hpanic.reached (.inl rfl), called, by rw [hedges]; exact hcalled, hhalted⟩

/-- Legs that hand one amount on: each is handed what the one before it delivered. -/
def Strung : Int → List Leg → Int → Prop
  | amount, [], out => out = amount
  | amount, leg :: rest, out => leg.amount = amount ∧ Strung leg.out rest out

theorem Strung.snoc {amount out : Int} {legs : List Leg} (h : Strung amount legs out) {leg : Leg}
    (hleg : leg.amount = out) : Strung amount (legs ++ [leg]) leg.out := by
  induction legs generalizing amount with
  | nil => exact ⟨hleg.trans h, rfl⟩
  | cons first rest ih => exact ⟨h.1, ih h.2⟩

/-- The hops of a strand: the amount is handed on and arrives in `tokenOut`. -/
theorem hopLoop_post (hopened : scope.Opened start s0) (hreserve : ∀ t, 0 ≤ reserve t)
    (hne : hops.val ≠ [])
    (h : HopInv scope s0 start reserve earlier tokenIn [] [] hopIn s) :
    Post (loop (hopStep scope.env tokenIn tokenOut scope.deadline hops) 0 hops.val hopIn) s
      (fun out s' => strandToken tokenIn hops.val = tokenOut ∧ ∃ legs, Strung hopIn legs out ∧
        HopInv scope s0 start reserve earlier tokenIn legs hops.val out s')
      (Stopped scope s0 (earlier.map Leg.hop ++ hops.val)) := by
  have hloop : Post (loop (hopStep scope.env tokenIn tokenOut scope.deadline hops) 0 hops.val
        hopIn) s
      (fun out s' => (hops.val = hops.val → hops.val ≠ [] →
          strandToken tokenIn hops.val = tokenOut) ∧
        ∃ legs, Strung hopIn legs out ∧
          HopInv scope s0 start reserve earlier tokenIn legs hops.val out s')
      (Stopped scope s0 (earlier.map Leg.hop ++ hops.val)) := by
    refine Post.loop
      (I := fun done out s' => (done = hops.val → done ≠ [] →
          strandToken tokenIn done = tokenOut) ∧
        ∃ legs, Strung hopIn legs out ∧
          HopInv scope s0 start reserve earlier tokenIn legs done out s') ?_
      ⟨fun _ hnil => absurd rfl hnil, [], rfl, h⟩
    rintro done hop rest hsplit out s' ⟨_, legs, hstrung, hinv⟩
    refine (hopStep_post hopened hreserve hsplit hinv).mono ?_ ?_
    · rintro out' s'' ⟨hend, leg, hamount, rfl, hinv'⟩
      refine ⟨fun hall _ => ?_, legs ++ [leg], hstrung.snoc hamount, hinv'⟩
      rw [strandToken_snoc]
      refine hend ?_
      rw [← hsplit] at hall
      simpa using hall
    · intro panic s'' hstopped
      refine hstopped.mono ((List.prefix_append_right_inj _).mpr ⟨rest, ?_⟩)
      rw [← hsplit, List.append_assoc, List.singleton_append]
  exact hloop.mono (fun out s' hout => ⟨hout.1 rfl hne, hout.2⟩) fun _ _ hstopped => hstopped

end Hops

/-! ## Strands -/

/-- A completed strand with its legs. -/
structure StrandRun where
  strand : Strand
  legs : List Leg

/-- The measured output of the strand's last hop. -/
def StrandRun.output (run : StrandRun) : Int := (run.legs.getLast?.map Leg.out).getD 0

/-- Over its legs a strand turns `share` of `tokenIn` into its output of `tokenOut`, and
leaves every other token as it was. -/
structure StrandRun.Isolated (tokenIn tokenOut : Address) (share : Int) (run : StrandRun) :
    Prop where
  strung : Strung share run.legs run.output
  net : ∀ t, gainedOf (run.legs.map Leg.move) t - spentOf (run.legs.map Leg.move) t =
    (if t = tokenOut then run.output else 0) - if t = tokenIn then share else 0

/-- The legs of completed strands, in the order in which they ran. -/
def strandLegs (runs : List StrandRun) : List Leg := runs.flatMap StrandRun.legs

@[simp] theorem strandLegs_append (left right : List StrandRun) :
    strandLegs (left ++ right) = strandLegs left ++ strandLegs right := List.flatMap_append

@[simp] theorem strandLegs_singleton (run : StrandRun) : strandLegs [run] = run.legs := by
  simp [strandLegs]

/-- The state of a run once the strands `done` are through. -/
structure SwapInv (scope : Scope V) (s0 : State V) (tokenIn tokenOut : Address)
    (amountIn : Int) (parts : List UInt32) (runs : List StrandRun) (done : List Strand)
    (allocated : Int) (s : State V) : Prop where
  journal : Journal scope s0 (strandLegs runs) s
  strands : runs.map StrandRun.strand = done
  edges : ∀ run ∈ runs, run.legs.map Leg.hop = run.strand.hops.val
  output_pos : ∀ run ∈ runs, 0 < run.output
  running : Allocated amountIn (weights parts) (weights (done.map Strand.parts)) allocated
  books : ∀ t, holding (fun t => if t = tokenIn then amountIn else 0)
      ((strandLegs runs).map Leg.move) t =
    (if t = tokenIn then amountIn - allocated else 0) +
      (if t = tokenOut then (runs.map StrandRun.output).sum else 0)

section Strands

variable {scope : Scope V} {s0 s : State V} {tokenIn tokenOut : Address} {amountIn allocated : Int}
  {plan : List Strand} {runs : List StrandRun} {done rest : List Strand} {strand : Strand}

theorem SwapInv.hops {parts : List UInt32}
    (h : SwapInv scope s0 tokenIn tokenOut amountIn parts runs done allocated s) :
    (strandLegs runs).map Leg.hop = swapEdges done := by
  have hflat : ∀ runs : List StrandRun,
      (∀ run ∈ runs, run.legs.map Leg.hop = run.strand.hops.val) →
      (strandLegs runs).map Leg.hop = swapEdges (runs.map StrandRun.strand) := by
    intro runs
    induction runs with
    | nil =>
        intro _
        rfl
    | cons run rest ih =>
        intro hedges
        have hrest := ih fun r hr => hedges r (List.mem_cons_of_mem run hr)
        have hhead := hedges run (List.mem_cons_self ..)
        unfold strandLegs swapEdges at *
        rw [List.map_cons, List.flatMap_cons, List.flatMap_cons, List.map_append, hrest, hhead]
  rw [hflat runs h.edges, h.strands]

theorem SwapInv.outputs_nonneg {parts : List UInt32}
    (h : SwapInv scope s0 tokenIn tokenOut amountIn parts runs done allocated s) :
    0 ≤ (runs.map StrandRun.output).sum := by
  refine List.sum_nonneg ?_
  intro x hx
  obtain ⟨run, hrun, rfl⟩ := List.mem_map.mp hx
  exact (h.output_pos run hrun).le

/-- When there is a strand, something came out. -/
theorem SwapInv.outputs_pos {parts : List UInt32}
    (h : SwapInv scope s0 tokenIn tokenOut amountIn parts runs done allocated s)
    (hne : done ≠ []) : 0 < (runs.map StrandRun.output).sum := by
  obtain ⟨run, hrun⟩ : ∃ run, run ∈ runs := by
    refine List.exists_mem_of_ne_nil runs ?_
    rintro rfl
    exact hne h.strands.symm
  refine lt_of_lt_of_le (h.output_pos run hrun) ?_
  refine List.single_le_sum ?_ _ (List.mem_map_of_mem hrun)
  intro x hx
  obtain ⟨r, hr, rfl⟩ := List.mem_map.mp hx
  exact (h.output_pos r hr).le

/-- Before the first strand. -/
theorem SwapInv.initial {parts : List UInt32} (hjournal : Journal scope s0 [] s)
    (htotal : 0 < (weights parts).sum) :
    SwapInv scope s0 tokenIn tokenOut amountIn parts [] [] 0 s where
  journal := hjournal
  strands := rfl
  edges := by simp
  output_pos := by simp
  running := Allocated.start (weights_ne_nil htotal)
  books t := by
    show holding _ [] t = _
    rw [holding_nil, Int.sub_zero, List.map_nil, List.sum_nil]
    split <;> simp

/-- What the books hold while a strand runs: what is not allocated yet, and the outputs of
the strands before it. -/
def strandReserve (tokenIn tokenOut : Address) (amountIn allocated : Int)
    (runs : List StrandRun) (t : Address) : Int :=
  (if t = tokenIn then amountIn - allocated else 0) +
    (if t = tokenOut then (runs.map StrandRun.output).sum else 0)

theorem SwapInv.reserve_nonneg {parts : List UInt32} {share : Int}
    (h : SwapInv scope s0 tokenIn tokenOut amountIn parts runs done allocated s)
    (hle : allocated + share ≤ amountIn) (t : Address) :
    0 ≤ strandReserve tokenIn tokenOut amountIn (allocated + share) runs t := by
  have houtputs := h.outputs_nonneg
  unfold strandReserve
  split <;> split <;> omega

/-- The next strand starts with its share. -/
theorem SwapInv.enter {parts : List UInt32}
    (h : SwapInv scope s0 tokenIn tokenOut amountIn parts runs done allocated s) (share : Int) :
    HopInv scope s0 (fun t => if t = tokenIn then amountIn else 0)
      (strandReserve tokenIn tokenOut amountIn (allocated + share) runs) (strandLegs runs) tokenIn
      [] [] share s where
  journal := by
    rw [List.append_nil]
    exact h.journal
  hops := rfl
  books t := by
    rw [List.append_nil, h.books, strandToken_nil]
    unfold strandReserve
    split <;> omega
  output leg hleg := by cases hleg

/-- A strand gets a share, unless the computation of the share overflows. -/
theorem strandStep_eq
    (halloc : Allocated amountIn (weights (plan.map Strand.parts))
      (weights (done.map Strand.parts)) allocated)
    (hamount : 0 < amountIn ∧ amountIn ≤ i128Max)
    (htotal : 0 < (weights (plan.map Strand.parts)).sum)
    (hsplit : done ++ strand :: rest = plan) :
    ∃ share, share = branch amountIn (weights (plan.map Strand.parts)) done.length
        strand.parts.toNat allocated ∧ allocated + share ≤ amountIn ∧
      Allocated amountIn (weights (plan.map Strand.parts))
        (weights ((done ++ [strand]).map Strand.parts)) (allocated + share) ∧
      ∀ (env : Env V) (tokenIn tokenOut : Address) (deadline : UInt64),
        strandStep env tokenIn tokenOut amountIn (weights (plan.map Strand.parts)).sum deadline
            plan.length done.length strand allocated =
          if BranchOverflows amountIn plan.length done.length strand.parts then
            throw (.overflow .mul)
          else (do
            panicIf (strand.hops.len = 0) .emptyStrand
            let _ ← loop (hopStep env tokenIn tokenOut deadline strand.hops) 0 strand.hops.val
              share
            pure (allocated + share)) := by
  obtain ⟨-, hle, hnext⟩ := allocated_branch_map halloc hsplit hamount.1.le htotal
  refine ⟨_, rfl, hle, hnext, fun env tokenIn tokenOut deadline => ?_⟩
  unfold strandStep
  rw [branch_bind_map_eq halloc hsplit hamount.1.le hamount.2 htotal]

/-- A strand that arrived put out what its last hop did. -/
theorem HopInv.arrived {start reserve : Address → Int} {earlier legs : List Leg} {out : Int}
    (hinv : HopInv scope s0 start reserve earlier tokenIn legs strand.hops.val out s)
    (hne : strand.hops.val ≠ []) : (StrandRun.mk strand legs).output = out ∧ 0 < out := by
  unfold StrandRun.output
  rcases List.eq_nil_or_concat legs with rfl | ⟨before, last, rfl⟩
  · exact absurd hinv.hops.symm hne
  · rw [List.concat_eq_append] at *
    have hlast := hinv.output last (by simp)
    simp only [List.getLast?_append, List.getLast?_singleton, Option.some_or, Option.map_some,
      Option.getD_some]
    omega

/-- The books of a strand that arrived changed by its share and its output only. -/
theorem SwapInv.isolated {parts : List UInt32} {share out : Int} {legs : List Leg} {s' : State V}
    (h : SwapInv scope s0 tokenIn tokenOut amountIn parts runs done allocated s)
    (harrived : strandToken tokenIn strand.hops.val = tokenOut) (hstrung : Strung share legs out)
    (hinv : HopInv scope s0 (fun t => if t = tokenIn then amountIn else 0)
      (strandReserve tokenIn tokenOut amountIn (allocated + share) runs) (strandLegs runs) tokenIn
      legs strand.hops.val out s')
    (hout : (StrandRun.mk strand legs).output = out) :
    (StrandRun.mk strand legs).Isolated tokenIn tokenOut share := by
  refine ⟨by rw [hout]; exact hstrung, fun t => ?_⟩
  have hbefore := (h.enter share).books t
  have hafter := hinv.books t
  rw [List.append_nil, strandToken_nil] at hbefore
  rw [List.map_append, holding_append, harrived] at hafter
  unfold holding at hbefore hafter
  rw [hout]
  show gainedOf (legs.map Leg.move) t - spentOf (legs.map Leg.move) t = _
  omega

/-- The state of the run after one more strand. -/
theorem SwapInv.snoc {share out : Int} {legs : List Leg} {s' : State V}
    (h : SwapInv scope s0 tokenIn tokenOut amountIn (plan.map Strand.parts) runs done allocated
      s)
    (harrived : strandToken tokenIn strand.hops.val = tokenOut)
    (hinv : HopInv scope s0 (fun t => if t = tokenIn then amountIn else 0)
      (strandReserve tokenIn tokenOut amountIn (allocated + share) runs) (strandLegs runs) tokenIn
      legs strand.hops.val out s')
    (hout : (StrandRun.mk strand legs).output = out) (hpos : 0 < out)
    (hnext : Allocated amountIn (weights (plan.map Strand.parts))
      (weights ((done ++ [strand]).map Strand.parts)) (allocated + share)) :
    SwapInv scope s0 tokenIn tokenOut amountIn (plan.map Strand.parts) (runs ++ [⟨strand, legs⟩])
      (done ++ [strand]) (allocated + share) s' where
  journal := by
    rw [strandLegs_append, strandLegs_singleton]
    exact hinv.journal
  strands := by rw [List.map_append, h.strands, List.map_singleton]
  edges := by
    intro run hrun
    rcases List.mem_append.mp hrun with hrun | hrun
    · exact h.edges run hrun
    · rw [List.mem_singleton.mp hrun]
      exact hinv.hops
  output_pos := by
    intro run hrun
    rcases List.mem_append.mp hrun with hrun | hrun
    · exact h.output_pos run hrun
    · rw [List.mem_singleton.mp hrun, hout]
      exact hpos
  running := hnext
  books := by
    intro t
    rw [strandLegs_append, strandLegs_singleton, hinv.books, harrived, List.map_append,
      List.sum_append, List.map_singleton, List.sum_singleton, hout]
    unfold strandReserve
    split <;> split <;> omega

theorem strandStep_post
    (hopened : scope.Opened (fun t => if t = tokenIn then amountIn else 0) s0)
    (hamount : 0 < amountIn ∧ amountIn ≤ i128Max)
    (htotal : 0 < (weights (plan.map Strand.parts)).sum)
    (hsplit : done ++ strand :: rest = plan)
    (h : SwapInv scope s0 tokenIn tokenOut amountIn (plan.map Strand.parts) runs done allocated
      s) :
    Post (strandStep scope.env tokenIn tokenOut amountIn (weights (plan.map Strand.parts)).sum
        scope.deadline plan.length done.length strand allocated) s
      (fun allocated' s' => ∃ run share, share = branch amountIn (weights (plan.map Strand.parts))
          done.length strand.parts.toNat allocated ∧ allocated' = allocated + share ∧
        run.Isolated tokenIn tokenOut share ∧ SwapInv scope s0 tokenIn tokenOut amountIn
          (plan.map Strand.parts) (runs ++ [run]) (done ++ [strand]) allocated' s')
      (Stopped scope s0 (swapEdges (done ++ [strand]))) := by
  have hedges : swapEdges (done ++ [strand]) =
      (strandLegs runs).map Leg.hop ++ strand.hops.val := by
    rw [h.hops]
    simp [swapEdges]
  have hinit : (strandLegs runs).map Leg.hop <+: swapEdges (done ++ [strand]) := by
    rw [hedges]
    exact List.prefix_append _ _
  obtain ⟨strandIn, hshare, hle, hnext, heq⟩ := strandStep_eq h.running hamount htotal hsplit
  rw [heq]
  refine .ite (fun _ => .throw (h.journal.stopped (by simp [Unreached]) hinit)) fun _ => ?_
  refine post_panicIf_bind
    (fun _ => h.journal.stopped (by simp [Unreached]) hinit) fun hempty => ?_
  have hhops : strand.hops.val ≠ [] := fun hnil => hempty (by unfold Vec.len; rw [hnil]; rfl)
  refine (hopLoop_post hopened (h.reserve_nonneg hle) hhops (h.enter strandIn)).bind_mono
    ?_ ?_
  · intro panic s' hstopped
    rw [hedges]
    exact hstopped
  rintro out s' ⟨harrived, legs, hstrung, hinv⟩
  obtain ⟨hout, hpos⟩ := hinv.arrived hhops
  exact .pure ⟨⟨strand, legs⟩, strandIn, hshare, rfl, h.isolated harrived hstrung hinv hout,
    h.snoc harrived hinv hout hpos hnext⟩

/-- The strand loop over a whole plan: each strand is isolated, with its share. -/
theorem strandLoop_post
    (hopened : scope.Opened (fun t => if t = tokenIn then amountIn else 0) s0)
    (hamount : 0 < amountIn ∧ amountIn ≤ i128Max)
    (htotal : 0 < (weights (plan.map Strand.parts)).sum)
    (hjournal : Journal scope s0 [] s) :
    Post (loop (strandStep scope.env tokenIn tokenOut amountIn
        (weights (plan.map Strand.parts)).sum scope.deadline plan.length) 0 plan 0) s
      (fun allocated' s' => ∃ runs, SwapInv scope s0 tokenIn tokenOut amountIn
          (plan.map Strand.parts) runs plan allocated' s' ∧
        List.Forall₂ (StrandRun.Isolated tokenIn tokenOut)
          ((shares amountIn (weights (plan.map Strand.parts))).take plan.length) runs)
      (Stopped scope s0 (swapEdges plan)) := by
  refine Post.mono (Post.loop
    (I := fun done allocated s => ∃ runs, SwapInv scope s0 tokenIn tokenOut amountIn
        (plan.map Strand.parts) runs done allocated s ∧
      allocated = ((shares amountIn (weights (plan.map Strand.parts))).take done.length).sum ∧
      List.Forall₂ (StrandRun.Isolated tokenIn tokenOut)
        ((shares amountIn (weights (plan.map Strand.parts))).take done.length) runs) ?_ ?_) ?_
    fun _ _ h => h
  · rintro done strand rest hsplit allocated s' ⟨runs, hinv, hallocated, hisolated⟩
    have hparts : weights (done.map Strand.parts) ++ (strand.parts.toNat : Int) ::
        weights (rest.map Strand.parts) = weights (plan.map Strand.parts) := by
      rw [← hsplit]
      simp [weights]
    have hbranch := branch_shares amountIn hparts
    have hsum := take_succ_shares amountIn hparts
    rw [List.length_append, List.length_singleton] at hsum
    rw [length_weights, List.length_map, ← hallocated] at hbranch hsum
    refine (strandStep_post hopened hamount htotal hsplit hinv).mono ?_ ?_
    · rintro allocated' s'' ⟨run, share, rfl, rfl, hrun, hinv'⟩
      refine ⟨runs ++ [run], hinv', ?_, ?_⟩
      · rw [List.length_append, List.length_singleton, hsum]
      · rw [List.length_append, List.length_singleton, List.take_add_one, hbranch]
        exact List.rel_append hisolated (.cons hrun .nil)
    · intro panic s'' hstopped
      refine hstopped.mono ⟨swapEdges rest, ?_⟩
      rw [← hsplit]
      simp [swapEdges]
  · exact ⟨[], .initial hjournal htotal, by simp, by simp⟩
  · rintro allocated s' ⟨runs, hinv, _, hisolated⟩
    exact ⟨runs, hinv, hisolated⟩

end Strands

end WowmaxStellar
