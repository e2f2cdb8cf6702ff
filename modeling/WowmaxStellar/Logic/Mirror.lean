import WowmaxStellar.Logic.Calls
import WowmaxStellar.Logic.Twin

/-!
# One call on two rows of the executor's balances

The same call runs on two ledgers that differ in the executor's own balances only. The
venues and tokens are blind: they do not look at these balances. The two runs mirror
each other as long as the executor has gained the same in both; what the invariants of
the first run cover is then covered in the second run, too.

* `Mirror.runHop`, `Mirror.runFill` — one edge;
* `Mirror.hopLoop`, `Mirror.fillLoop`, … — the loops of the two plan executors;
* `Mirror.payOut`, `Mirror.forwardOutput`, `Mirror.settleMerge` — the payouts.
-/

namespace WowmaxStellar

open Runs Flow Split

variable {V : Type}

/-- Venues and tokens do not look at the executor's balances. -/
structure Network.Blind (net : Network V) : Prop where
  venue : ∀ venues ledger ledger' auths call,
    (∀ token holder, holder ≠ net.contract →
      ledger.balance token holder = ledger'.balance token holder) →
    net.venue venues ledger auths call = net.venue venues ledger' auths call
  accepts : ∀ venues ledger ledger' token src dst amount,
    (∀ token holder, holder ≠ net.contract →
      ledger.balance token holder = ledger'.balance token holder) →
    net.accepts venues ledger token src dst amount =
      net.accepts venues ledger' token src dst amount

/-- A balance does not fit: the one failure that may happen on one side only. -/
def Overflowed (panic : Panic) : Prop := panic = .host .balanceOverflow

/-- A call that does not end with an overflow does not stop with one. -/
theorem EntryCall.not_overflowed {env : Env V} {call : EntryCall} {world : World V}
    (hfits : (call.invoke env world).result ≠ .error (.host .balanceOverflow)) (panic : Panic)
    (s : State V) (hrun : call.run env world.start = .error panic s) : ¬ Overflowed panic := by
  intro hover
  rw [EntryCall.invoke_of_error hrun] at hfits
  exact hfits (congrArg Except.error hover)

/-- The same panic after the same acts. -/
def SameFailure (panic panic' : Panic) (s t : State V) : Prop :=
  panic = panic' ∧ seen id s.trace = seen id t.trace

theorem SameFailure.of_seen {panic : Panic} {s t : State V}
    (h : seen id s.trace = seen id t.trace) : SameFailure panic panic s t := ⟨rfl, h⟩

/-- Two rows of balances that a call on blind venues is compared on. -/
structure Scope.Facing (scope : Scope V) (base' : Address → Int) : Prop where
  blind : scope.env.Blind
  base_nonneg : ∀ t, 0 ≤ scope.base t
  base_nonneg' : ∀ t, 0 ≤ base' t

/-- Twins over the two rows. -/
abbrev Mirror (scope : Scope V) (base' : Address → Int) (s t : State V) : Prop :=
  Twin id scope.env.contract scope.base base' s t

section Edges

variable {scope : Scope V} {base' : Address → Int} {s t : State V}

theorem Scope.Covers.self {token : Address} {amount : Int} {ledger : Ledger}
    (h : scope.Covers token amount ledger) :
    scope.base token + amount ≤ ledger.balance token scope.env.contract := by
  have hcovered := h token
  rwa [if_pos rfl] at hcovered

theorem Mirror.gained (h : Mirror scope base' s t) (token : Address) :
    s.ledger.balance token scope.env.contract - scope.base token =
      t.ledger.balance token scope.env.contract - base' token :=
  h.ledgers.gained token

/-- A covered call comes to the same on both sides. -/
theorem Mirror.sameCalls (h : Mirror scope base' s t) (hfacing : scope.Facing base') {hop : Hop}
    {amount : Int} (hamount : 0 ≤ amount) (hcovered : scope.base hop.tokenIn + amount ≤
      s.ledger.balance hop.tokenIn scope.env.contract) (outMin : Option Int) :
    SameCalls Overflowed id scope.env scope.base base' hop amount outMin outMin scope.deadline s
      t where
  settle := by
    have hgained := h.gained hop.tokenIn
    have hbase := hfacing.base_nonneg hop.tokenIn
    have hbase' := hfacing.base_nonneg' hop.tokenIn
    unfold Hop.settle
    rw [← h.venues]
    exact h.ledgers.settle rfl (.single hamount (by omega)) (.single hamount (by omega))
      (hfacing.blind.venue _ _ _ _ _ h.ledgers.others)
  obs _ := rfl

theorem Mirror.runHop (h : Mirror scope base' s t) (hfacing : scope.Facing base') {hop : Hop}
    {amount : Int} (hcovers : scope.Covers hop.tokenIn amount s.ledger) :
    Lockstep Overflowed SameFailure (TwinOutput id scope.env.contract scope.base base')
      (runHop scope.env scope.deadline hop amount s)
      (runHop scope.env scope.deadline hop amount t) := by
  have hread : Mirror scope base' ((s.served (.balance hop.tokenOut scope.env.contract)).served
      (.balance hop.tokenIn scope.env.contract))
      ((t.served (.balance hop.tokenOut scope.env.contract)).served
        (.balance hop.tokenIn scope.env.contract)) := (h.read _ _).read _ _
  rw [runHop_eq]
  exact Twin.measuredEdge (s := (s.served _).served _) (t := (t.served _).served _) hread
    (fun hpos _ => Mirror.sameCalls hread hfacing hpos.le hcovers.self none) (h.gained hop.tokenIn)
    (h.gained hop.tokenOut) (fun _ _ _ => .of_seen) fun _ _ => .of_seen

theorem Mirror.runFill (h : Mirror scope base' s t) (hfacing : scope.Facing base')
    {stageToken : Address} {fill : Fill} {amount : Int}
    (hcovers : scope.Covers stageToken amount s.ledger) :
    Lockstep Overflowed SameFailure (TwinOutput id scope.env.contract scope.base base')
      (runFill scope.env scope.deadline stageToken fill amount s)
      (runFill scope.env scope.deadline stageToken fill amount t) := by
  have hread : Mirror scope base' ((s.served (.balance stageToken scope.env.contract)).served
      (.balance fill.tokenOut scope.env.contract))
      ((t.served (.balance stageToken scope.env.contract)).served
        (.balance fill.tokenOut scope.env.contract)) := (h.read _ _).read _ _
  rw [runFill_eq]
  exact Twin.measuredEdge (s := (s.served _).served _) (t := (t.served _).served _) hread
    (fun hpos _ => Mirror.sameCalls hread hfacing hpos.le hcovers.self none) (h.gained stageToken)
    (h.gained fill.tokenOut) (fun _ _ _ => .of_seen) fun _ _ => .of_seen

end Edges

/-! ## Strands -/

theorem steady_panicIf (c : Prop) [Decidable c] (site : Guard) :
    Steady (panicIf c site : Exec V Unit) := by
  unfold panicIf
  exact .ite (.throw _) (.pure _)

section Strands

variable {scope : Scope V} {base' : Address → Int} {s0 s t : State V} {tokenIn tokenOut : Address}

theorem steady_hopChecks (tokenIn tokenOut : Address) (hops : Vec Hop) (index : Nat) (hop : Hop) :
    Steady (hopChecks tokenIn tokenOut hops index hop : Exec V Unit) := by
  unfold hopChecks
  refine (steady_panicIf _ _).bind fun _ => ?_
  split
  · exact (steady_panicIf _ _).bind fun _ => steady_panicIf _ _
  · exact (steady_panicIf _ _).bind fun _ => steady_panicIf _ _

/-- One hop: the books of the first run cover it. -/
theorem Mirror.hopStep {start reserve : Address → Int} {earlier legs : List Leg} {hops : Vec Hop}
    {done rest : List Hop} {hop : Hop} {hopIn : Int} (h : Mirror scope base' s t)
    (hfacing : scope.Facing base') (hopened : scope.Opened start s0)
    (hreserve : ∀ t, 0 ≤ reserve t) (hsplit : done ++ hop :: rest = hops.val)
    (hinv : HopInv scope s0 start reserve earlier tokenIn legs done hopIn s) :
    Lockstep Overflowed SameFailure (fun out out' s t => out = out' ∧ Mirror scope base' s t ∧
        ∃ legs, HopInv scope s0 start reserve earlier tokenIn legs (done ++ [hop]) out s)
      (hopStep scope.env tokenIn tokenOut scope.deadline hops done.length hop hopIn s)
      (hopStep scope.env tokenIn tokenOut scope.deadline hops done.length hop hopIn t) := by
  have hchecks : Post (hopChecks tokenIn tokenOut hops done.length hop) s
      (fun _ _ => hop.tokenIn = strandToken tokenIn done) (fun _ _ => True) := by
    rw [← bind_pure (hopChecks tokenIn tokenOut hops done.length hop)]
    exact post_hopChecks_bind hsplit (fun _ _ => trivial) fun _ hstart _ => .pure hstart
  have hrun : Lockstep Overflowed SameFailure (fun out out' s t => out = out' ∧
        Mirror scope base' s t)
      (WowmaxStellar.hopStep scope.env tokenIn tokenOut scope.deadline hops done.length hop hopIn s)
      (WowmaxStellar.hopStep scope.env tokenIn tokenOut scope.deadline hops done.length hop hopIn
        t) := by
    unfold WowmaxStellar.hopStep
    refine (((steady_hopChecks tokenIn tokenOut hops done.length hop).lockstep
      fun _ => .of_seen h.acts).and_left hchecks).bind ?_
    rintro _ _ _ _ _ _ ⟨⟨_, rfl, rfl⟩, hstart⟩
    refine (h.runHop hfacing ?_).mono fun _ _ _ _ hout => ⟨hout.1, hout.2.2⟩
    rw [hstart]
    exact hinv.covers hopened hreserve
  refine (hrun.and_left (hopStep_post hopened hreserve hsplit hinv)).mono ?_
  rintro out out' s' t' ⟨⟨hout, hmirror⟩, _, leg, _, _, hinv'⟩
  exact ⟨hout, hmirror, _, hinv'⟩

theorem Mirror.hopLoop {start reserve : Address → Int} {earlier : List Leg} {hops : Vec Hop}
    {hopIn : Int} (h : Mirror scope base' s t) (hfacing : scope.Facing base')
    (hopened : scope.Opened start s0) (hreserve : ∀ t, 0 ≤ reserve t)
    (hinv : HopInv scope s0 start reserve earlier tokenIn [] [] hopIn s) :
    Lockstep Overflowed SameFailure (fun out out' s t => out = out' ∧ Mirror scope base' s t)
      (loop (WowmaxStellar.hopStep scope.env tokenIn tokenOut scope.deadline hops) 0 hops.val hopIn
        s)
      (loop (WowmaxStellar.hopStep scope.env tokenIn tokenOut scope.deadline hops) 0 hops.val hopIn
        t) := by
  refine Lockstep.mono (R := fun out out' s t => out = out' ∧ Mirror scope base' s t ∧
    ∃ legs, HopInv scope s0 start reserve earlier tokenIn legs hops.val out s)
    (Lockstep.loop (I := fun done out out' s t => out = out' ∧ Mirror scope base' s t ∧
      ∃ legs, HopInv scope s0 start reserve earlier tokenIn legs done out s) ?_
      ⟨rfl, h, [], hinv⟩) fun _ _ _ _ hout => ⟨hout.1, hout.2.1⟩
  rintro done hop rest hsplit out _ s' t' ⟨rfl, hmirror, legs, hinv'⟩
  exact hmirror.hopStep hfacing hopened hreserve hsplit hinv'

/-- One strand. -/
theorem Mirror.strandStep {amountIn allocated : Int} {plan done rest : List Strand}
    {strand : Strand} {runs : List StrandRun} (h : Mirror scope base' s t)
    (hfacing : scope.Facing base')
    (hopened : scope.Opened (fun t => if t = tokenIn then amountIn else 0) s0)
    (hamount : 0 < amountIn ∧ amountIn ≤ i128Max)
    (htotal : 0 < (weights (plan.map Strand.parts)).sum) (hsplit : done ++ strand :: rest = plan)
    (hinv : SwapInv scope s0 tokenIn tokenOut amountIn (plan.map Strand.parts) runs done allocated
      s) :
    Lockstep Overflowed SameFailure
      (fun allocated allocated' s t => allocated = allocated' ∧ Mirror scope base' s t ∧
        ∃ runs, SwapInv scope s0 tokenIn tokenOut amountIn (plan.map Strand.parts) runs
          (done ++ [strand]) allocated s)
      (strandStep scope.env tokenIn tokenOut amountIn (weights (plan.map Strand.parts)).sum
        scope.deadline plan.length done.length strand allocated s)
      (strandStep scope.env tokenIn tokenOut amountIn (weights (plan.map Strand.parts)).sum
        scope.deadline plan.length done.length strand allocated t) := by
  have hrun : Lockstep Overflowed SameFailure
      (fun allocated allocated' s t => allocated = allocated' ∧ Mirror scope base' s t)
      (WowmaxStellar.strandStep scope.env tokenIn tokenOut amountIn
        (weights (plan.map Strand.parts)).sum scope.deadline plan.length done.length strand
        allocated s)
      (WowmaxStellar.strandStep scope.env tokenIn tokenOut amountIn
        (weights (plan.map Strand.parts)).sum scope.deadline plan.length done.length strand
        allocated t) := by
    obtain ⟨share, _, hle, _, heq⟩ := strandStep_eq hinv.running hamount htotal hsplit
    rw [heq]
    split
    · exact .inr (.inr (.of_seen h.acts))
    · refine lockstep_panicIf_bind Iff.rfl (.of_seen h.acts) fun _ _ => ?_
      refine (h.hopLoop hfacing hopened (hinv.reserve_nonneg hle) (hinv.enter share)).bind ?_
      rintro _ _ _ _ _ _ ⟨_, hmirror⟩
      exact ⟨rfl, hmirror⟩
  refine (hrun.and_left (strandStep_post hopened hamount htotal hsplit hinv)).mono ?_
  rintro allocated' _ s' t' ⟨⟨rfl, hmirror⟩, run, _, _, _, _, hinv'⟩
  exact ⟨rfl, hmirror, _, hinv'⟩

theorem Mirror.strandLoop {amountIn : Int} {plan : List Strand} (h : Mirror scope base' s t)
    (hfacing : scope.Facing base')
    (hopened : scope.Opened (fun t => if t = tokenIn then amountIn else 0) s0)
    (hamount : 0 < amountIn ∧ amountIn ≤ i128Max)
    (htotal : 0 < (weights (plan.map Strand.parts)).sum) (hjournal : Journal scope s0 [] s) :
    Lockstep Overflowed SameFailure (fun _ _ s t => Mirror scope base' s t)
      (loop (WowmaxStellar.strandStep scope.env tokenIn tokenOut amountIn
        (weights (plan.map Strand.parts)).sum scope.deadline plan.length) 0 plan 0 s)
      (loop (WowmaxStellar.strandStep scope.env tokenIn tokenOut amountIn
        (weights (plan.map Strand.parts)).sum scope.deadline plan.length) 0 plan 0 t) := by
  refine Lockstep.mono (R := fun allocated allocated' s t => allocated = allocated' ∧
    Mirror scope base' s t ∧ ∃ runs, SwapInv scope s0 tokenIn tokenOut amountIn
      (plan.map Strand.parts) runs plan allocated s)
    (Lockstep.loop (I := fun done allocated allocated' s t => allocated = allocated' ∧
      Mirror scope base' s t ∧ ∃ runs, SwapInv scope s0 tokenIn tokenOut amountIn
        (plan.map Strand.parts) runs done allocated s) ?_
      ⟨rfl, h, [], .initial hjournal htotal⟩) fun _ _ _ _ hout => hout.2.1
  rintro done strand rest hsplit allocated _ s' t' ⟨rfl, hmirror, runs, hinv⟩
  exact hmirror.strandStep hfacing hopened hamount htotal hsplit hinv

end Strands

/-! ## Stages -/

theorem steady_checked (op : ArithOp) (x : Int) : Steady (checked op x : Exec V Int) := by
  unfold checked
  exact .ite (.pure _) (.throw _)

theorem steady_sumParts (parts : List UInt32) : Steady (sumParts parts : Exec V Int) :=
  .loop fun _ _ _ => steady_checked _ _

theorem steady_creditAvail (avail : Avail) (stageToken tokenOut : Address) (fillIn produced : Int) :
    Steady (creditAvail avail stageToken tokenOut fillIn produced : Exec V Avail) := by
  unfold creditAvail
  exact (steady_checked _ _).bind fun _ => (steady_checked _ _).bind fun _ => .pure _

theorem steady_stageHeader (stage : Stage) (bal : Int) :
    Steady (stageHeader stage bal : Exec V Int) := by
  unfold stageHeader
  refine (steady_panicIf _ _).bind fun _ => (steady_panicIf _ _).bind fun _ => ?_
  exact (steady_sumParts _).bind fun _ => (steady_panicIf _ _).bind fun _ => .pure _

theorem steady_deadEndCheck (tokenOut : Address) (avail : Avail) :
    Steady (deadEndCheck tokenOut avail : Exec V Unit) :=
  .loop fun _ _ _ => steady_panicIf _ _

section Stages

variable {scope : Scope V} {base' : Address → Int} {s0 s t : State V} {start : Address → Int}

/-- One fill: the map of the first run covers it. -/
theorem Mirror.fillStep {earlier legs : List Leg} {stage : Stage} {before : Avail}
    {done rest : List Fill} {fill : Fill} {acc : Int × Avail} (h : Mirror scope base' s t)
    (hfacing : scope.Facing base') (hopened : scope.Opened start s0)
    (hbefore : ∀ t, before.amount t = holding start (earlier.map Leg.move) t)
    (hbal : 0 < before.amount stage.token ∧ before.amount stage.token ≤ i128Max)
    (htotal : 0 < (weights (stage.fills.val.map Fill.parts)).sum)
    (hsplit : done ++ fill :: rest = stage.fills.val)
    (hinv : FillInv scope s0 earlier stage before legs done acc s) :
    Lockstep Overflowed SameFailure (fun acc acc' s t => acc = acc' ∧ Mirror scope base' s t ∧
        ∃ legs, FillInv scope s0 earlier stage before legs (done ++ [fill]) acc s)
      (fillStep scope.env scope.deadline stage.token (before.amount stage.token)
        (weights (stage.fills.val.map Fill.parts)).sum stage.fills.len done.length fill acc s)
      (fillStep scope.env scope.deadline stage.token (before.amount stage.token)
        (weights (stage.fills.val.map Fill.parts)).sum stage.fills.len done.length fill acc t) := by
  have hrun : Lockstep Overflowed SameFailure
      (fun acc acc' s t => acc = acc' ∧ Mirror scope base' s t)
      (WowmaxStellar.fillStep scope.env scope.deadline stage.token (before.amount stage.token)
        (weights (stage.fills.val.map Fill.parts)).sum stage.fills.len done.length fill acc s)
      (WowmaxStellar.fillStep scope.env scope.deadline stage.token (before.amount stage.token)
        (weights (stage.fills.val.map Fill.parts)).sum stage.fills.len done.length fill acc
        t) := by
    obtain ⟨share, _, hle, _, heq⟩ := fillStep_eq hinv.running hbal htotal hsplit
    rw [heq]
    split
    · exact .inr (.inr (.of_seen h.acts))
    refine lockstep_panicIf_bind Iff.rfl (.of_seen h.acts) fun _ _ => ?_
    refine lockstep_panicIf_bind Iff.rfl (.of_seen h.acts) fun _ _ => ?_
    refine (h.runFill hfacing (hinv.covers hopened hbefore hle)).bind ?_
    rintro produced _ s' t' _ _ ⟨rfl, _, hmirror⟩
    refine (steady_creditAvail _ _ _ _ _).lockstep_bind (fun _ => .of_seen hmirror.acts) ?_
    exact fun avail _ => ⟨rfl, hmirror⟩
  -- the first run's invariant comes along for the steps behind
  refine (hrun.and_left (fillStep_post hopened hbefore hbal htotal hsplit hinv)).mono ?_
  rintro acc' _ s' t' ⟨⟨rfl, hmirror⟩, leg, hinv'⟩
  exact ⟨rfl, hmirror, _, hinv'⟩

theorem Mirror.fillLoop {earlier : List Leg} {stage : Stage} {before : Avail}
    (h : Mirror scope base' s t) (hfacing : scope.Facing base') (hopened : scope.Opened start s0)
    (hbefore : ∀ t, before.amount t = holding start (earlier.map Leg.move) t)
    (hbal : 0 < before.amount stage.token ∧ before.amount stage.token ≤ i128Max)
    (htotal : 0 < (weights (stage.fills.val.map Fill.parts)).sum)
    (hinv : FillInv scope s0 earlier stage before [] [] (0, before) s) :
    Lockstep Overflowed SameFailure (fun acc acc' s t => acc = acc' ∧ Mirror scope base' s t)
      (loop (WowmaxStellar.fillStep scope.env scope.deadline stage.token
        (before.amount stage.token) (weights (stage.fills.val.map Fill.parts)).sum
        stage.fills.len) 0 stage.fills.val (0, before) s)
      (loop (WowmaxStellar.fillStep scope.env scope.deadline stage.token
        (before.amount stage.token) (weights (stage.fills.val.map Fill.parts)).sum
        stage.fills.len) 0 stage.fills.val (0, before) t) := by
  refine Lockstep.mono (R := fun acc acc' s t => acc = acc' ∧ Mirror scope base' s t ∧
    ∃ legs, FillInv scope s0 earlier stage before legs stage.fills.val acc s)
    (Lockstep.loop (I := fun done acc acc' s t => acc = acc' ∧ Mirror scope base' s t ∧
      ∃ legs, FillInv scope s0 earlier stage before legs done acc s) ?_
      ⟨rfl, h, [], hinv⟩) fun _ _ _ _ hout => ⟨hout.1, hout.2.1⟩
  rintro done fill rest hsplit acc _ s' t' ⟨rfl, hmirror, legs, hinv'⟩
  exact hmirror.fillStep hfacing hopened hbefore hbal htotal hsplit hinv'

/-- One stage. -/
theorem Mirror.stageStep {runs : List StageRun} {done : List Stage} {stage : Stage} {avail : Avail}
    (h : Mirror scope base' s t) (hfacing : scope.Facing base') (hopened : scope.Opened start s0)
    (hinv : MergeInv scope s0 start runs done avail s) :
    Lockstep Overflowed SameFailure (fun avail avail' s t => avail = avail' ∧
        Mirror scope base' s t ∧
        ∃ runs, MergeInv scope s0 start runs (done ++ [stage]) avail s)
      (stageStep scope.env scope.deadline stage avail s)
      (stageStep scope.env scope.deadline stage avail t) := by
  have hrun : Lockstep Overflowed SameFailure
      (fun avail avail' s t => avail = avail' ∧ Mirror scope base' s t)
      (WowmaxStellar.stageStep scope.env scope.deadline stage avail s)
      (WowmaxStellar.stageStep scope.env scope.deadline stage avail t) := by
    unfold WowmaxStellar.stageStep
    have hheader : Post (stageHeader stage (avail.amount stage.token)) s
        (fun totalParts _ => 0 < avail.amount stage.token ∧
          0 < (weights (stage.fills.val.map Fill.parts)).sum ∧
          totalParts = (weights (stage.fills.val.map Fill.parts)).sum) (fun _ _ => True) :=
      post_stageHeader (fun _ _ => trivial) fun hbal htotal => ⟨hbal, htotal, rfl⟩
    refine (((steady_stageHeader stage _).lockstep fun _ => .of_seen h.acts).and_left
      hheader).bind ?_
    rintro _ _ _ _ _ _ ⟨⟨rfl, rfl, rfl⟩, hbal, htotal, rfl⟩
    refine (h.fillLoop hfacing hopened hinv.books ⟨hbal, hinv.le_max hopened _⟩ htotal
      (.initial hinv.journal hinv.nonneg hbal htotal)).bind ?_
    rintro acc _ s' t' _ _ ⟨rfl, hmirror⟩
    exact ⟨rfl, hmirror⟩
  refine (hrun.and_left (stageStep_post hopened hinv)).mono ?_
  rintro avail' _ s' t' ⟨⟨rfl, hmirror⟩, run, hinv'⟩
  exact ⟨rfl, hmirror, _, hinv'⟩

theorem Mirror.stageLoop {stages : List Stage} {avail : Avail} (h : Mirror scope base' s t)
    (hfacing : scope.Facing base') (hopened : scope.Opened start s0)
    (hinv : MergeInv scope s0 start [] [] avail s) :
    Lockstep Overflowed SameFailure (fun avail avail' s t => avail = avail' ∧
        Mirror scope base' s t)
      (loop (fun _ => WowmaxStellar.stageStep scope.env scope.deadline) 0 stages avail s)
      (loop (fun _ => WowmaxStellar.stageStep scope.env scope.deadline) 0 stages avail t) := by
  refine Lockstep.mono (R := fun avail avail' s t => avail = avail' ∧ Mirror scope base' s t ∧
    ∃ runs, MergeInv scope s0 start runs stages avail s)
    (Lockstep.loop (I := fun done avail avail' s t => avail = avail' ∧ Mirror scope base' s t ∧
      ∃ runs, MergeInv scope s0 start runs done avail s) ?_
      ⟨rfl, h, [], hinv⟩) fun _ _ _ _ hout => ⟨hout.1, hout.2.1⟩
  rintro done stage rest hsplit avail' _ s' t' ⟨rfl, hmirror, runs, hinv'⟩
  exact hmirror.stageStep hfacing hopened hinv'

end Stages

/-! ## Payouts -/

section Payouts

variable {scope : Scope V} {base' : Address → Int} {s t : State V} {user tokenOut : Address}
  {amountOutMin out : Int}

/-- A transfer of the executor that its gain covers. -/
theorem Mirror.transfer_bind {α β : Type} {token src dst : Address} {amount : Int}
    {f : Unit → Exec V α} {g : Unit → Exec V β} {R : α → β → State V → State V → Prop}
    (h : Mirror scope base' s t) (hfacing : scope.Facing base')
    (hcovered : src = scope.env.contract →
      scope.base token + amount ≤ s.ledger.balance token scope.env.contract)
    (hpass : ∀ s' t', s.ledger.transfer token src dst amount = .ok s'.ledger →
      Mirror scope base' s' t' → Lockstep Overflowed SameFailure R (f () s') (g () t')) :
    Lockstep Overflowed SameFailure R ((transfer scope.env token src dst amount >>= f) s)
      ((transfer scope.env token src dst amount >>= g) t) := by
  refine Twin.transfer_bind h ?_ ?_ (fun _ => .of_seen h.acts) hpass
  · rw [← h.venues]
    exact hfacing.blind.accepts _ _ _ _ _ _ _ h.ledgers.others
  · refine h.ledgers.transfer rfl fun hsrc => ?_
    have hown := hcovered hsrc
    have hgained := h.gained token
    have hbase := hfacing.base_nonneg token
    have hbase' := hfacing.base_nonneg' token
    constructor <;> omega

theorem Mirror.payOut (h : Mirror scope base' s t) (hfacing : scope.Facing base')
    (hgain : out = s.ledger.balance tokenOut scope.env.contract - scope.base tokenOut) :
    Lockstep Overflowed SameFailure (fun out out' s t => out = out' ∧ Mirror scope base' s t)
      (payOut scope.env user tokenOut amountOutMin out s)
      (payOut scope.env user tokenOut amountOutMin out t) := by
  unfold WowmaxStellar.payOut
  refine lockstep_panicIf_bind Iff.rfl (.of_seen h.acts) fun _ _ => ?_
  exact h.transfer_bind hfacing (fun _ => by omega) fun _ _ _ hmoved => ⟨rfl, hmoved⟩

theorem Mirror.forwardOutput (h : Mirror scope base' s t) (hfacing : scope.Facing base') :
    Lockstep Overflowed SameFailure (fun out out' s t => out = out' ∧ Mirror scope base' s t)
      (forwardOutput scope.env user tokenOut (scope.base tokenOut) amountOutMin s)
      (forwardOutput scope.env user tokenOut (base' tokenOut) amountOutMin t) := by
  have hread : Mirror scope base' (s.served (.balance tokenOut scope.env.contract))
      (t.served (.balance tokenOut scope.env.contract)) := h.read _ _
  rw [forwardOutput_eq, forwardOutput_eq]
  refine lockstep_balance_bind ?_
  refine lockstep_checkedSub_bind (h.gained tokenOut) (.of_seen hread.acts) fun _ => ?_
  refine lockstep_panicIf_bind Iff.rfl (.of_seen hread.acts) fun _ _ => ?_
  exact Mirror.payOut hread hfacing rfl

theorem Mirror.settleMerge {trackedOut : Int} (h : Mirror scope base' s t)
    (hfacing : scope.Facing base') :
    Lockstep Overflowed SameFailure (fun out out' s t => out = out' ∧ Mirror scope base' s t)
      (settleMerge scope.env user tokenOut (scope.base tokenOut) amountOutMin trackedOut s)
      (settleMerge scope.env user tokenOut (base' tokenOut) amountOutMin trackedOut t) := by
  have hread : Mirror scope base' (s.served (.balance tokenOut scope.env.contract))
      (t.served (.balance tokenOut scope.env.contract)) := h.read _ _
  unfold WowmaxStellar.settleMerge
  refine lockstep_balance_bind ?_
  refine lockstep_checkedSub_bind (h.gained tokenOut) (.of_seen hread.acts) fun _ => ?_
  refine lockstep_panicIf_bind Iff.rfl (.of_seen hread.acts) fun _ _ => ?_
  refine lockstep_panicIf_bind Iff.rfl (.of_seen hread.acts) fun _ _ => ?_
  exact Mirror.payOut hread hfacing rfl

end Payouts

end WowmaxStellar
