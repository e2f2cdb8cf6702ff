import WowmaxStellar.Logic.Calls
import WowmaxStellar.Logic.Twin

/-!
# Agreement of two programs on one ledger

Two runs that start from one world are level as long as they are on the same ledger,
with the same venues and the same acts behind them. Two invocations agree when one
returns a value exactly if the other does, and both leave the same world.

* `Level.runHop_runFill` — a hop of `swap` and a fill of `swap_merge`;
* `Level.prelude`, `Level.payouts` — the common beginning, and the two tails;
* `swap_strand_eq` — `swap` on a plan of one strand;
* `invoke_of_lockstep`, `agrees_of_lockstep` — from lockstep to agreement.
-/

namespace WowmaxStellar

open Runs

variable {V : Type}

/-- Twins on the same ledger. -/
abbrev Level {ω : Type} (obs : Act → ω) (contract : Address) (s t : State V) : Prop :=
  Twin obs contract (fun _ => 0) (fun _ => 0) s t

/-- One invocation returns a value exactly if the other does, with the same acts as far as
`obs` shows; both leave the same world. -/
structure Invocation.Agrees {ω : Type} (obs : Act → ω) (first second : Invocation V) : Prop where
  result : ∀ out, first.result = .ok out ↔ second.result = .ok out
  acts : ∀ out, first.result = .ok out → seen obs first.trace = seen obs second.trace
  world : first.world = second.world

section Level

variable {ω : Type} {obs : Act → ω} {env : Env V} {s t : State V} {α β : Type}
  {X : Panic → Prop} {R : α → β → State V → State V → Prop}

theorem Level.refl (obs : Act → ω) (contract : Address) (s : State V) :
    Level obs contract s s where
  ledgers := .refl _ _ _
  venues := rfl
  acts := rfl

theorem Level.ledger_eq (h : Level obs env.contract s t) : s.ledger = t.ledger := h.ledgers.eq

theorem SameOutcome.refl (contract : Address) (outcome : Ledger × V × Reply) :
    SameOutcome contract (fun _ => 0) (fun _ => 0) outcome outcome :=
  ⟨.refl _ _ _, rfl⟩

/-- A call comes to the same on both sides. -/
theorem Level.sameCalls (h : Level obs env.contract s t) (hop : Hop) (amount : Int)
    (outMin : Option Int) (deadline : UInt64) :
    SameCalls X obs env (fun _ => 0) (fun _ => 0) hop amount outMin outMin deadline s t where
  settle := by
    rw [h.ledger_eq, h.venues]
    exact .refl (SameOutcome.refl _) _
  obs _ := rfl

theorem Level.transfer_bind {token src dst : Address} {amount : Int} {f : Unit → Exec V α}
    {g : Unit → Exec V β} (h : Level obs env.contract s t)
    (hpass : ∀ s' t', s.ledger.transfer token src dst amount = .ok s'.ledger →
      Level obs env.contract s' t' →
      Lockstep X (fun _ _ _ _ => True) R (f () s') (g () t')) :
    Lockstep X (fun _ _ _ _ => True) R ((transfer env token src dst amount >>= f) s)
      ((transfer env token src dst amount >>= g) t) := by
  refine Twin.transfer_bind h ?_ ?_ (fun _ => trivial) hpass
  · rw [h.ledger_eq, h.venues]
  · rw [h.ledger_eq]
    exact .refl (fun _ => .refl _ _ _) _

/-- A hop of a strand and the fill with its venue fields. -/
theorem Level.runHop_runFill {hop : Hop} {amount : Int} {deadline : UInt64}
    (h : Level obs env.contract s t) (parts : UInt32) :
    Lockstep X (fun _ _ _ _ => True) (TwinOutput obs env.contract (fun _ => 0) (fun _ => 0))
      (runHop env deadline hop amount s)
      (runFill env deadline hop.tokenIn (hop.toFill parts) amount t) := by
  have hread : Level obs env.contract
      ((s.served (.balance hop.tokenOut env.contract)).served (.balance hop.tokenIn env.contract))
      ((t.served (.balance hop.tokenIn env.contract)).served
        (.balance hop.tokenOut env.contract)) := (h.read _ _).read _ _
  have heq := hread.ledger_eq
  simp only [State.served_ledger] at heq
  rw [runHop_eq, runFill_eq]
  refine Twin.measuredEdge
    (s := (s.served _).served _) (t := (t.served _).served _) hread
    (fun _ _ => Level.sameCalls hread hop amount none deadline) ?_ ?_ (fun _ _ _ _ => trivial)
    fun _ _ _ => trivial
  · simp only [State.served_ledger, heq]
  · simp only [State.served_ledger, heq]
    rfl

/-- The tails of the two plan executors. The two accounting panics of `swap_merge` are
never reached, so they count as escapes. -/
theorem Level.payouts {user tokenOut : Address} {outBefore amountOutMin trackedOut : Int}
    (h : Level obs env.contract s t) :
    Lockstep Unreached (fun _ _ _ _ => True)
      (fun out out' s t => out = out' ∧ Level obs env.contract s t)
      (forwardOutput env user tokenOut outBefore amountOutMin s)
      (settleMerge env user tokenOut outBefore amountOutMin trackedOut t) := by
  have hread := h.read tokenOut tokenOut
  have heq := h.ledger_eq
  unfold forwardOutput settleMerge
  refine lockstep_checkedSub_bind (s := s.served _) (t := t.served _) (by rw [heq]) trivial
    fun _ => ?_
  by_cases hgap : s.ledger.balance tokenOut env.contract - outBefore < trackedOut
  · rw [panicIf_of hgap]
    exact .escape_right rfl (.inr (.inr (.inl rfl)))
  rw [panicIf_of_not hgap, pure_bind]
  refine lockstep_panicIf_bind Iff.rfl trivial fun _ _ => ?_
  refine lockstep_panicIf_bind Iff.rfl trivial fun _ _ => ?_
  exact Level.transfer_bind hread fun s' t' _ hmoved => ⟨rfl, hmoved⟩

end Level

section Prelude

variable {α β : Type} {X : Panic → Prop}

/-- Transfers on the same ledger with the same venues come to the same. -/
theorem lockstep_transfer_bind {X : Panic → Prop} {R : α → β → State V → State V → Prop}
    {token src dst : Address} {amount : Int} {f : Unit → Exec V α} {g : Unit → Exec V β}
    (hworld : s.world = t.world)
    (hpass : ∀ s' t' : State V, s'.world = t'.world →
      Lockstep X (fun _ _ _ _ => True) R (f () s') (g () t')) :
    Lockstep X (fun _ _ _ _ => True) R ((transfer env token src dst amount >>= f) s)
      ((transfer env token src dst amount >>= g) t) := by
  have hledger : s.ledger = t.ledger := congrArg World.ledger hworld
  have hvenues : s.venues = t.venues := congrArg World.venues hworld
  refine Lockstep.bind (R := fun _ _ s' t' => s'.world = t'.world) ?_
    fun _ _ s' t' _ _ hsame => hpass s' t' hsame
  unfold transfer
  rw [hledger, hvenues]
  split
  · exact .inr (.inr trivial)
  split
  · exact .inr (.inr trivial)
  cases t.ledger.transfer token src dst amount with
  | error e => exact .inr (.inr trivial)
  | ok ledger =>
      show World.mk ledger s.venues = World.mk ledger t.venues
      rw [hvenues]

variable {ω : Type} {env : Env V} {user tokenIn tokenOut : Address}
  {amountIn amountOutMin : I128} {deadline : UInt64} {world : World V}

/-- Every entry point begins alike: it checks, reads the output balance and pulls the
input. -/
theorem lockstep_prelude {f g : Int → Exec V Int} {R : Int → Int → State V → State V → Prop}
    (hpass : user ∈ env.signers → 0 < (amountIn : Int) → 0 ≤ (amountOutMin : Int) →
      tokenIn ≠ tokenOut → ∀ s : State V,
      world.ledger.transfer tokenIn user env.contract amountIn = .ok s.ledger →
      s.venues = world.venues → Lockstep X (fun _ _ _ _ => True) R
        (f (world.ledger.balance tokenOut env.contract) s)
        (g (world.ledger.balance tokenOut env.contract) s)) :
    Lockstep X (fun _ _ _ _ => True) R
      ((do
        entryChecks env user tokenIn tokenOut amountIn amountOutMin deadline
        let outBefore ← balance tokenOut env.contract
        transfer env tokenIn user env.contract amountIn
        f outBefore) world.start)
      ((do
        entryChecks env user tokenIn tokenOut amountIn amountOutMin deadline
        let outBefore ← balance tokenOut env.contract
        transfer env tokenIn user env.contract amountIn
        g outBefore) world.start) := by
  rcases entryChecks_cases env user tokenIn tokenOut amountIn amountOutMin deadline with
    ⟨panic, _, heq⟩ | ⟨hsigned, hamount, hmin, hdistinct, _, heq⟩
  · rw [heq]
    exact .inr (.inr trivial)
  · rw [heq, pure_bind, pure_bind]
    have hpull : Post (transfer env tokenIn user env.contract amountIn)
        (world.start.served (.balance tokenOut env.contract))
        (fun _ s => world.ledger.transfer tokenIn user env.contract amountIn = .ok s.ledger ∧
          s.venues = world.venues) fun _ _ => True := by
      rw [← bind_pure (transfer env tokenIn user env.contract amountIn)]
      exact post_transfer_bind (fun _ => trivial) fun ledger hledger => .pure ⟨hledger, rfl⟩
    exact hpull.lockstep_bind fun _ s h => hpass hsigned hamount hmin hdistinct s h.1 h.2

theorem Level.prelude (obs : Act → ω) {f g : Int → Exec V Int}
    {R : Int → Int → State V → State V → Prop}
    (hpass : user ∈ env.signers → 0 < (amountIn : Int) → 0 ≤ (amountOutMin : Int) →
      tokenIn ≠ tokenOut → ∀ s t,
      world.ledger.transfer tokenIn user env.contract amountIn = .ok s.ledger →
      Level obs env.contract s t → Lockstep X (fun _ _ _ _ => True) R
        (f (world.ledger.balance tokenOut env.contract) s)
        (g (world.ledger.balance tokenOut env.contract) t)) :
    Lockstep X (fun _ _ _ _ => True) R
      ((do
        entryChecks env user tokenIn tokenOut amountIn amountOutMin deadline
        let outBefore ← balance tokenOut env.contract
        transfer env tokenIn user env.contract amountIn
        f outBefore) world.start)
      ((do
        entryChecks env user tokenIn tokenOut amountIn amountOutMin deadline
        let outBefore ← balance tokenOut env.contract
        transfer env tokenIn user env.contract amountIn
        g outBefore) world.start) :=
  lockstep_prelude fun hsigned hamount hmin hdistinct s htransfer _ =>
    hpass hsigned hamount hmin hdistinct s s htransfer (.refl obs env.contract s)

/-- `swap` on one strand: the strand gets the whole input. -/
theorem swap_strand_eq {parts : UInt32} {hops : Vec Hop} :
    swap env user tokenIn tokenOut amountIn amountOutMin deadline (.single ⟨parts, hops⟩) = (do
      entryChecks env user tokenIn tokenOut amountIn amountOutMin deadline
      let outBefore ← balance tokenOut env.contract
      transfer env tokenIn user env.contract amountIn
      panicIf ((parts.toNat : Int) ≤ 0) .totalPartsZero
      panicIf (hops.len = 0) .emptyStrand
      let _ ← loop (hopStep env tokenIn tokenOut deadline hops) 0 hops.val amountIn
      forwardOutput env user tokenOut outBefore amountOutMin) := by
  have hsum : (sumParts ((Vec.single (⟨parts, hops⟩ : Strand)).val.map Strand.parts) :
      Exec V Int) = pure (parts.toNat : Int) := by
    rw [sumParts_eq _ (by simp)]
    simp [weights]
  have hfit : InI128 ((amountIn : Int) - 0) := by
    rw [Int.sub_zero]
    exact amountIn.property
  have hadd : InI128 (0 + (amountIn : Int)) := by
    rw [Int.zero_add]
    exact amountIn.property
  have hlen : (Vec.single (⟨parts, hops⟩ : Strand)).len = 1 := rfl
  unfold swap
  rw [hsum, hlen, panicIf_of_not (by omega), Vec.single_val]
  simp only [pure_bind, loop_cons]
  unfold strandStep branchAmount checkedSub checkedAdd
  rw [if_pos rfl, checked_of_inI128 hfit]
  simp only [pure_bind, bind_assoc, Int.sub_zero, checked_of_inI128 hadd, loop_nil]

end Prelude

/-- Runs in lockstep from one world, up to escapes that neither makes: the invocations have the
same results and the same worlds, and the runs behind two values are related. -/
theorem invoke_of_lockstep {env env' : Env V} {call call' : EntryCall} {world : World V}
    {X : Panic → Prop} {R : Int → Int → State V → State V → Prop}
    (h : Lockstep X (fun _ _ _ _ => True) R (call.run env world.start)
      (call'.run env' world.start))
    (hR : ∀ out out' s t, R out out' s t → out = out' ∧ s.world = t.world)
    (hX : ∀ panic s, call.run env world.start = .error panic s → ¬ X panic)
    (hX' : ∀ panic s, call'.run env' world.start = .error panic s → ¬ X panic) :
    (∀ out, (call.invoke env world).result = .ok out ↔ (call'.invoke env' world).result = .ok out) ∧
      (call.invoke env world).world = (call'.invoke env' world).world ∧
      ∀ out, (call.invoke env world).result = .ok out → ∃ s t, R out out s t ∧
        (call.invoke env world).trace = s.trace ∧ (call'.invoke env' world).trace = t.trace := by
  rcases h.ends hX hX' with ⟨out, out', s, t, hs, ht, hrel⟩ | ⟨panic, panic', s, t, hs, ht, -⟩
  · obtain ⟨rfl, hworld⟩ := hR out out' s t hrel
    rw [EntryCall.invoke_of_ok hs, EntryCall.invoke_of_ok ht]
    refine ⟨fun _ => Iff.rfl, hworld, ?_⟩
    rintro _ ⟨⟩
    exact ⟨s, t, hrel, rfl, rfl⟩
  · -- both calls roll back to the world they began in
    rw [EntryCall.invoke_of_error hs, EntryCall.invoke_of_error ht]
    refine ⟨fun out => ?_, rfl, fun out hout => ?_⟩
    · constructor <;> intro hout <;> cases hout
    · cases hout

/-- Runs in lockstep from one world make agreeing invocations. -/
theorem agrees_of_lockstep {ω : Type} {obs : Act → ω} {env env' : Env V}
    {call call' : EntryCall} {world : World V} {contract : Address} {X : Panic → Prop}
    (h : Lockstep X (fun _ _ _ _ => True) (fun out out' s t => out = out' ∧ Level obs contract s t)
      (call.run env world.start) (call'.run env' world.start))
    (hX : ∀ panic s, call.run env world.start = .error panic s → ¬ X panic)
    (hX' : ∀ panic s, call'.run env' world.start = .error panic s → ¬ X panic) :
    (call.invoke env world).Agrees obs (call'.invoke env' world) := by
  have hsame : ∀ out out' : Int, ∀ s t : State V, out = out' ∧ Level obs contract s t →
      out = out' ∧ s.world = t.world := by
    rintro out out' s t ⟨hout, hlevel⟩
    refine ⟨hout, State.world_eq (fun _ _ => ?_) hlevel.venues⟩
    rw [hlevel.ledgers.eq]
  obtain ⟨hresult, hworld, hruns⟩ := invoke_of_lockstep h hsame hX hX'
  refine ⟨hresult, fun out hout => ?_, hworld⟩
  obtain ⟨s, t, ⟨-, hlevel⟩, htrace, htrace'⟩ := hruns out hout
  rw [htrace, htrace']
  exact hlevel.acts

end WowmaxStellar
