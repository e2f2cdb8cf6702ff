import WowmaxStellar.Logic.Leg

/-!
# Twin runs

Two runs are twins as long as their ledgers agree off the executor, the executor has
gained the same in both over two given sets of balances, and both made the same acts as
far as an observation shows them.
Legs, checks and transfers keep twins twins.

* `Shift` — the relation between the ledgers; `Shift.eq` when nothing is shifted;
* `Shift.settle` — a venue call comes to the same on shifted ledgers, provided what it
  was handed is there in both;
* `Twin.measuredLeg`, `Twin.transfer_bind` — the rules for programs.
-/

namespace WowmaxStellar

open Runs

variable {V : Type}

/-! ## Acts -/

/-- What the executor did to the outside: it authorised, or it called a venue with some
authorisations pending. -/
inductive Act
  | authorize (entries : List TransferAuth)
  | call (entries : List TransferAuth) (call : VenueCall)
deriving DecidableEq

def Event.act? : Event → Option Act
  | .authorize entries => some (.authorize entries)
  | .invoke record => some (.call record.auths record.call)
  | _ => none

/-- The acts of a trace, in order. -/
def acts (trace : List Event) : List Act := trace.filterMap Event.act?

@[simp] theorem State.acts_called (s : State V) (record : VenueRecord) (ledger : Ledger)
    (venues : V) : acts (s.called record ledger venues).trace =
      acts s.trace ++ [.authorize record.auths, .call record.auths record.call] := by
  simp [State.called, acts, Event.act?]

@[simp] theorem State.acts_served_balance (s : State V) (token holder : Address) :
    acts (s.served (.balance token holder)).trace = acts s.trace := by
  simp [acts, Event.act?]

@[simp] theorem State.acts_moved (s : State V) (token src dst : Address) (amount : Int)
    (ledger : Ledger) : acts (s.moved token src dst amount ledger).trace = acts s.trace := by
  simp [State.moved, acts, Event.act?]

/-! ## Shifted ledgers -/

/-- The ledgers agree off `contract`, which has gained the same in both: over `base` in
the first, over `base'` in the second. -/
structure Shift (contract : Address) (base base' : Address → Int) (ledger ledger' : Ledger) :
    Prop where
  others : ∀ token holder, holder ≠ contract →
    ledger.balance token holder = ledger'.balance token holder
  gained : ∀ token, ledger.balance token contract - base token =
    ledger'.balance token contract - base' token

section Ledgers

variable {contract : Address} {base base' : Address → Int} {ledger ledger' : Ledger}
  {X : HostError → Prop} {token holder : Address} {amount : Int}

theorem Shift.refl (contract : Address) (base : Address → Int) (ledger : Ledger) :
    Shift contract base base ledger ledger where
  others _ _ _ := rfl
  gained _ := rfl

/-- Ledgers shifted by nothing are equal. -/
theorem Shift.eq (h : Shift contract base base ledger ledger') : ledger = ledger' := by
  ext token holder
  by_cases hholder : holder = contract
  · subst hholder
    have := h.gained token
    omega
  · exact h.others token holder hholder

theorem Shift.set {a a' : Int} (h : Shift contract base base' ledger ledger')
    (ha : 0 ≤ a ∧ a ≤ i128Max) (ha' : 0 ≤ a' ∧ a' ≤ i128Max)
    (hother : holder ≠ contract → a = a')
    (hown : holder = contract → a - base token = a' - base' token) :
    Shift contract base base' (ledger.set token holder a ha) (ledger'.set token holder a' ha')
    where
  others t x hx := by
    show (if t = token ∧ x = holder then a else ledger.balance t x) =
      if t = token ∧ x = holder then a' else ledger'.balance t x
    split
    · rename_i heq
      exact hother (heq.2 ▸ hx)
    · exact h.others t x hx
  gained t := by
    show (if t = token ∧ contract = holder then a else ledger.balance t contract) - base t =
      (if t = token ∧ contract = holder then a' else ledger'.balance t contract) - base' t
    split
    · rename_i heq
      rw [heq.1]
      exact hown heq.2.symm
    · exact h.gained t

/-- A debit of the executor that both ledgers cover, or any debit of somebody else. -/
theorem Shift.debit (h : Shift contract base base' ledger ledger')
    (hcovered : holder = contract →
      amount ≤ ledger.balance token contract ∧ amount ≤ ledger'.balance token contract) :
    Alike X (Shift contract base base') (ledger.debit token holder amount)
      (ledger'.debit token holder amount) := by
  unfold Ledger.debit
  by_cases hneg : amount < 0
  · rw [dif_pos hneg, dif_pos hneg]
    exact .inr (.inr rfl)
  rw [dif_neg hneg, dif_neg hneg]
  by_cases hholder : holder = contract
  · obtain ⟨hcov, hcov'⟩ := hcovered hholder
    have hgained := h.gained token
    rw [← hholder] at hcov hcov' hgained
    rw [dif_neg (by omega), dif_neg (by omega)]
    exact h.set _ _ (fun hne => absurd hholder hne) fun _ => by omega
  · have hbalance := h.others token holder hholder
    by_cases hlow : ledger.balance token holder < amount
    · rw [dif_pos hlow, dif_pos (by omega)]
      exact .inr (.inr rfl)
    · rw [dif_neg hlow, dif_neg (by omega)]
      exact h.set _ _ (fun _ => by omega) fun heq => absurd heq hholder

/-- A credit; the executor's balance may overflow in one of the ledgers only. -/
theorem Shift.credit (h : Shift contract base base' ledger ledger')
    (hoverflow : X .balanceOverflow) :
    Alike X (Shift contract base base') (ledger.credit token holder amount)
      (ledger'.credit token holder amount) := by
  unfold Ledger.credit
  by_cases hneg : amount < 0
  · rw [dif_pos hneg, dif_pos hneg]
    exact .inr (.inr rfl)
  rw [dif_neg hneg, dif_neg hneg]
  by_cases hhigh : i128Max < ledger.balance token holder + amount
  · rw [dif_pos hhigh]
    by_cases hhigh' : i128Max < ledger'.balance token holder + amount
    · rw [dif_pos hhigh']
      exact .inl hoverflow
    · rw [dif_neg hhigh']
      exact hoverflow
  rw [dif_neg hhigh]
  by_cases hhigh' : i128Max < ledger'.balance token holder + amount
  · rw [dif_pos hhigh']
    exact hoverflow
  rw [dif_neg hhigh']
  refine h.set _ _ (fun hne => ?_) fun heq => ?_
  · rw [h.others token holder hne]
  · have hgained := h.gained token
    rw [← heq] at hgained
    omega

theorem Ledger.transfer_eq_bind (ledger : Ledger) (token src dst : Address) (amount : Int) :
    ledger.transfer token src dst amount =
      ledger.debit token src amount >>= fun spent => spent.credit token dst amount := by
  unfold Ledger.transfer
  cases ledger.debit token src amount <;> rfl

theorem Shift.transfer {dst : Address} (h : Shift contract base base' ledger ledger')
    (hoverflow : X .balanceOverflow)
    (hcovered : holder = contract →
      amount ≤ ledger.balance token contract ∧ amount ≤ ledger'.balance token contract) :
    Alike X (Shift contract base base') (ledger.transfer token holder dst amount)
      (ledger'.transfer token holder dst amount) := by
  rw [Ledger.transfer_eq_bind, Ledger.transfer_eq_bind]
  exact (h.debit hcovered).bind fun _ _ _ _ hspent => Shift.credit hspent hoverflow

end Ledgers

/-! ## Venue calls -/

/-- What is authorised is there. -/
structure Funded (contract : Address) (auths : List TransferAuth) (ledger : Ledger) : Prop where
  nonneg : ∀ auth ∈ auths, 0 ≤ auth.amount
  there : ∀ token, pending auths token ≤ ledger.balance token contract

theorem Funded.single {contract token src dst : Address} {amount : Int} {ledger : Ledger}
    (hnonneg : 0 ≤ amount) (hthere : amount ≤ ledger.balance token contract) :
    Funded contract [⟨token, src, dst, amount⟩] ledger where
  nonneg auth hauth := by
    rw [List.mem_singleton.mp hauth]
    exact hnonneg
  there t := by
    rw [pending_singleton]
    dsimp only
    split
    · rename_i heq
      rw [← heq]
      exact hthere
    · exact ledger.nonneg t contract

section Calls

variable {contract : Address} {base base' : Address → Int} {ledger ledger' : Ledger}
  {auths : List TransferAuth} {X : HostError → Prop}

theorem Funded.amount_le {auth : TransferAuth} (h : Funded contract auths ledger)
    (hmem : auth ∈ auths) : auth.amount ≤ ledger.balance auth.token contract := by
  have hthere := h.there auth.token
  rw [pending_erase hmem, if_pos rfl] at hthere
  have hrest : 0 ≤ pending (auths.erase auth) auth.token :=
    pending_nonneg (fun a ha => h.nonneg a (List.mem_of_mem_erase ha)) auth.token
  omega

theorem Funded.step {auths' : List TransferAuth} {next : Ledger} {call : TokenCall}
    (h : Funded contract auths ledger)
    (hok : tokenCall contract auths ledger call = .ok (auths', next)) :
    Funded contract auths' next := by
  obtain ⟨hsub, hfloor⟩ := tokenCall_floor hok
  refine ⟨fun auth hauth => h.nonneg auth (hsub auth hauth), fun token => ?_⟩
  have hthere := h.there token
  have hstep := hfloor token
  omega

theorem Shift.tokenCall (h : Shift contract base base' ledger ledger')
    (hoverflow : X .balanceOverflow) (hfunded : Funded contract auths ledger)
    (hfunded' : Funded contract auths ledger') (call : TokenCall) :
    Alike X (fun next next' => next.1 = next'.1 ∧ Shift contract base base' next.2 next'.2)
      (tokenCall contract auths ledger call) (tokenCall contract auths ledger' call) := by
  cases call with
  | transfer token src dst amount =>
      simp only [WowmaxStellar.tokenCall]
      split_ifs with hsrc hmem
      · -- what is authorised is there on both sides
        refine Alike.map (h.transfer hoverflow fun _ => ?_) fun _ _ hnext => ⟨rfl, hnext⟩
        exact ⟨hfunded.amount_le hmem, hfunded'.amount_le hmem⟩
      · exact .inr (.inr rfl)
      · exact Alike.map (h.transfer hoverflow fun heq => absurd heq hsrc)
          fun _ _ hnext => ⟨rfl, hnext⟩
  | mint token dst amount =>
      exact Alike.map (h.credit hoverflow) fun _ _ hnext => ⟨rfl, hnext⟩
  | burn token src amount =>
      simp only [WowmaxStellar.tokenCall]
      split_ifs with hsrc
      · exact .inr (.inr rfl)
      · exact Alike.map (h.debit fun heq => absurd heq hsrc) fun _ _ hnext => ⟨rfl, hnext⟩

theorem tokenCalls_cons (contract : Address) (auths : List TransferAuth) (ledger : Ledger)
    (call : TokenCall) (rest : List TokenCall) :
    (tokenCalls contract auths ledger (call :: rest)).2 =
      tokenCall contract auths ledger call >>= fun next =>
        (tokenCalls contract next.1 next.2 rest).2 := by
  rw [WowmaxStellar.tokenCalls]
  cases WowmaxStellar.tokenCall contract auths ledger call <;> rfl

theorem Shift.tokenCalls (h : Shift contract base base' ledger ledger')
    (hoverflow : X .balanceOverflow) (hfunded : Funded contract auths ledger)
    (hfunded' : Funded contract auths ledger') (calls : List TokenCall) :
    Alike X (Shift contract base base') (tokenCalls contract auths ledger calls).2
      (tokenCalls contract auths ledger' calls).2 := by
  induction calls generalizing auths ledger ledger' with
  | nil => exact h
  | cons call rest ih =>
      rw [tokenCalls_cons, tokenCalls_cons]
      refine (h.tokenCall hoverflow hfunded hfunded' call).bind ?_
      rintro ⟨auths1, ledger1⟩ ⟨_, ledger1'⟩ hs ht ⟨rfl, hnext⟩
      exact ih hnext (hfunded.step hs) (hfunded'.step ht)

/-- What two calls come to, one on each side. -/
def SameOutcome (contract : Address) (base base' : Address → Int)
    (end' end'' : Ledger × V × Reply) : Prop :=
  Shift contract base base' end'.1 end''.1 ∧ end'.2 = end''.2

theorem Network.settle_eq_bind (net : Network V) (venues : V) (ledger : Ledger)
    (auths : List TransferAuth) (call : VenueCall) :
    net.settle venues ledger auths call =
      (WowmaxStellar.tokenCalls net.contract auths ledger
        (net.venue venues ledger auths call).calls).2 >>= fun after =>
      match (net.venue venues ledger auths call).reply with
      | none => .error .trapped
      | some reply => .ok (after, (net.venue venues ledger auths call).venues, reply) := by
  unfold Network.settle
  dsimp only
  cases (WowmaxStellar.tokenCalls net.contract auths ledger
      (net.venue venues ledger auths call).calls).2 with
  | error e => rfl
  | ok after => cases (net.venue venues ledger auths call).reply <;> rfl

/-- A venue that answers both ledgers alike comes to the same on both. -/
theorem Shift.settle {net : Network V} {venues : V} {call : VenueCall}
    (h : Shift net.contract base base' ledger ledger') (hoverflow : X .balanceOverflow)
    (hfunded : Funded net.contract auths ledger) (hfunded' : Funded net.contract auths ledger')
    (hanswer : net.venue venues ledger auths call = net.venue venues ledger' auths call) :
    Alike X (SameOutcome net.contract base base') (net.settle venues ledger auths call)
      (net.settle venues ledger' auths call) := by
  rw [Network.settle_eq_bind, Network.settle_eq_bind, ← hanswer]
  refine (h.tokenCalls hoverflow hfunded hfunded' _).bind ?_
  intro after after' _ _ hafter
  cases (net.venue venues ledger auths call).reply with
  | none => exact .inr (.inr rfl)
  | some reply => exact ⟨hafter, rfl⟩

end Calls

/-! ## Programs -/

/-- The acts of a trace as far as `obs` shows them. -/
def seen {ω : Type} (obs : Act → ω) (trace : List Event) : List ω := (acts trace).map obs

/-- The states of two twin runs: shifted ledgers, the same venues, and the same acts
behind them as far as `obs` shows. -/
structure Twin {ω : Type} (obs : Act → ω) (contract : Address) (base base' : Address → Int)
    (s t : State V) : Prop where
  ledgers : Shift contract base base' s.ledger t.ledger
  venues : s.venues = t.venues
  acts : seen obs s.trace = seen obs t.trace

section Programs

variable {ω : Type} {obs : Act → ω} {env : Env V} {base base' : Address → Int} {s t : State V}
  {α β : Type}
  {X : Panic → Prop} {F : Panic → Panic → State V → State V → Prop}
  {R : α → β → State V → State V → Prop}

theorem Twin.read (h : Twin obs env.contract base base' s t) (token token' : Address) :
    Twin obs env.contract base base' (s.served (.balance token env.contract))
      (t.served (.balance token' env.contract)) where
  ledgers := h.ledgers
  venues := h.venues
  acts := by
    unfold seen
    rw [State.acts_served_balance, State.acts_served_balance]
    exact h.acts

theorem Twin.read_left (h : Twin obs env.contract base base' s t) (token : Address) :
    Twin obs env.contract base base' (s.served (.balance token env.contract)) t where
  ledgers := h.ledgers
  venues := h.venues
  acts := by
    unfold seen
    rw [State.acts_served_balance]
    exact h.acts

theorem Twin.read_right (h : Twin obs env.contract base base' s t) (token : Address) :
    Twin obs env.contract base base' s (t.served (.balance token env.contract)) where
  ledgers := h.ledgers
  venues := h.venues
  acts := by
    unfold seen
    rw [State.acts_served_balance]
    exact h.acts

theorem lockstep_balance_bind {token token' holder holder' : Address} {f : Int → Exec V α}
    {g : Int → Exec V β}
    (h : Lockstep X F R
      (f (s.ledger.balance token holder) (s.served (.balance token holder)))
      (g (t.ledger.balance token' holder') (t.served (.balance token' holder')))) :
    Lockstep X F R ((balance token holder >>= f) s) ((balance token' holder' >>= g) t) := h

theorem lockstep_panicIf_bind {c c' : Prop} [Decidable c] [Decidable c'] {site site' : Guard}
    {f : Unit → Exec V α} {g : Unit → Exec V β} (hc : c ↔ c')
    (hfail : F (.guard site) (.guard site') s t)
    (hpass : ¬ c → ¬ c' → Lockstep X F R (f () s) (g () t)) :
    Lockstep X F R ((panicIf c site >>= f) s) ((panicIf c' site' >>= g) t) := by
  by_cases h : c
  · rw [panicIf_of h, panicIf_of (hc.mp h)]
    exact .inr (.inr hfail)
  · have h' : ¬ c' := fun hc' => h (hc.mpr hc')
    rw [panicIf_of_not h, panicIf_of_not h', pure_bind, pure_bind]
    exact hpass h h'

/-- The same difference on both sides. -/
theorem lockstep_checkedSub_bind {a b a' b' : Int} {f : Int → Exec V α} {g : Int → Exec V β}
    (heq : a - b = a' - b') (hfail : F (.overflow .sub) (.overflow .sub) s t)
    (hpass : InI128 (a - b) → Lockstep X F R (f (a - b) s) (g (a - b) t)) :
    Lockstep X F R ((checkedSub a b >>= f) s) ((checkedSub a' b' >>= g) t) := by
  unfold checkedSub checked
  rw [← heq]
  split
  · rename_i hfit
    exact hpass hfit
  · exact .inr (.inr hfail)

/-- A transfer that comes to the same on both sides. -/
theorem Twin.transfer_bind {token src dst : Address} {amount : Int} {f : Unit → Exec V α}
    {g : Unit → Exec V β} (h : Twin obs env.contract base base' s t)
    (haccepts : env.accepts s.venues s.ledger token src dst amount =
      env.accepts t.venues t.ledger token src dst amount)
    (htransfer : Alike (fun e => X (.host e)) (Shift env.contract base base')
      (s.ledger.transfer token src dst amount) (t.ledger.transfer token src dst amount))
    (hfail : ∀ e, F (.host e) (.host e) s t)
    (hpass : ∀ s' t', s.ledger.transfer token src dst amount = .ok s'.ledger →
      Twin obs env.contract base base' s' t' → Lockstep X F R (f () s') (g () t')) :
    Lockstep X F R ((transfer env token src dst amount >>= f) s)
      ((transfer env token src dst amount >>= g) t) := by
  refine Lockstep.bind (R := fun _ _ s' t' =>
    s.ledger.transfer token src dst amount = .ok s'.ledger ∧
      Twin obs env.contract base base' s' t') ?_
    fun _ _ s' t' _ _ h => hpass s' t' h.1 h.2
  unfold WowmaxStellar.transfer
  by_cases hauth : src ≠ env.contract ∧ src ∉ env.signers
  · simp only [if_pos hauth]
    exact .inr (.inr (hfail _))
  simp only [if_neg hauth, ← haccepts]
  by_cases hrefused : env.accepts s.venues s.ledger token src dst amount = false
  · simp only [if_pos hrefused]
    exact .inr (.inr (hfail _))
  simp only [if_neg hrefused]
  refine htransfer.elim ?_ ?_ ?_ ?_
  · intro ledger ledger' hs ht hshift
    rw [hs, ht]
    refine ⟨rfl, hshift, h.venues, ?_⟩
    show seen obs (s.moved token src dst amount ledger).trace =
      seen obs (t.moved token src dst amount ledger').trace
    unfold seen
    rw [State.acts_moved, State.acts_moved]
    exact h.acts
  · intro e hs hX
    rw [hs]
    exact .escape_left rfl hX
  · intro e ht hX
    rw [ht]
    exact .escape_right rfl hX
  · intro e hs ht
    rw [hs, ht]
    exact .inr (.inr (hfail e))

theorem lockstep_expectReply {replyType : ReplyType} {reply : Reply}
    {R : Unit → Unit → State V → State V → Prop} (hfail : ∀ panic, F panic panic s t)
    (hpass : R () () s t) :
    Lockstep X F R (expectReply replyType reply s) (expectReply replyType reply t) := by
  cases replyType <;> cases reply
  case amounts.amounts values =>
    by_cases hempty : values = []
    · subst hempty
      exact .inr (.inr (hfail _))
    · unfold expectReply
      dsimp only
      rw [panicIf_of_not hempty]
      exact hpass
  all_goals first | exact hpass | exact .inr (.inr (hfail _))

/-- A leg that returned, by what its call came to. -/
theorem measuredLeg_ok {hop : Hop} {amount : Int} {outMin : Option Int} {deadline : UInt64}
    {srcBefore outBefore out : Int} {site : Guard} {s' : State V}
    (h : measuredLeg env hop amount outMin deadline srcBefore outBefore site s = .ok out s') :
    ∃ outcome, hop.settle env amount outMin deadline s.venues s.ledger = .ok outcome ∧
      s'.ledger = outcome.1 ∧
      out = s'.ledger.balance hop.tokenOut env.contract - outBefore := by
  unfold measuredLeg at h
  obtain ⟨⟨⟩, s1, hcall, h⟩ := bind_ok_iff.mp h
  have hsettled : ∃ outcome,
      hop.settle env amount outMin deadline s.venues s.ledger = .ok outcome ∧
        s1.ledger = outcome.1 := by
    unfold Hop.authorizedCall at hcall
    rw [authorizedCall_eq] at hcall
    unfold Hop.settle
    cases hsettle : env.settle s.venues s.ledger
        [⟨hop.tokenIn, env.contract, hop.pullTarget, amount⟩]
        (hop.call env amount outMin deadline) with
    | error e =>
        rw [hsettle] at hcall
        cases hcall
    | ok outcome =>
        rw [hsettle] at hcall
        have hpost : Post (expectReply hop.replyType outcome.2.2)
            (s.called (env.record hop.tokenIn hop.pullTarget amount
              (hop.call env amount outMin deadline) s) outcome.1 outcome.2.1)
            (fun _ s' => s'.ledger = outcome.1) (fun _ _ => True) :=
          post_expectReply (fun _ _ => trivial) rfl
        exact ⟨outcome, rfl, hpost.ok hcall⟩
  obtain ⟨outcome, hsettle, hledger⟩ := hsettled
  have hrest : Post (requireConsumed env hop.tokenIn srcBefore amount >>= fun _ =>
      balance hop.tokenOut env.contract >>= fun outAfter =>
      checkedSub outAfter outBefore >>= fun out => panicIf (out ≤ 0) site >>= fun _ => pure out) s1
      (fun out s' => s'.ledger = s1.ledger ∧
        out = s'.ledger.balance hop.tokenOut env.contract - outBefore) (fun _ _ => True) := by
    unfold requireConsumed checkedSub
    simp only [bind_assoc]
    refine post_balance_bind (post_checked_bind (fun _ => trivial) fun _ => ?_)
    refine post_panicIf_bind (fun _ => trivial) fun _ => ?_
    refine post_balance_bind (post_checked_bind (fun _ => trivial) fun _ => ?_)
    exact post_panicIf_bind (fun _ => trivial) fun _ => .pure ⟨rfl, rfl⟩
  obtain ⟨hsame, hout⟩ := hrest.ok h
  exact ⟨outcome, hsettle, by rw [hsame, hledger], hout⟩

/-- Two calls of an edge that come to the same and look the same; they may differ in the
minimum they ask for. -/
structure SameCalls (X : Panic → Prop) (obs : Act → ω) (env : Env V)
    (base base' : Address → Int) (hop : Hop) (amount : Int) (outMin outMin' : Option Int)
    (deadline : UInt64) (s t : State V) : Prop where
  settle : Alike (fun e => X (.host e)) (SameOutcome env.contract base base')
    (hop.settle env amount outMin deadline s.venues s.ledger)
    (hop.settle env amount outMin' deadline t.venues t.ledger)
  obs : ∀ entries, obs (.call entries (hop.call env amount outMin deadline)) =
    obs (.call entries (hop.call env amount outMin' deadline))

theorem Twin.authorizedCall_bind {hop : Hop} {amount : Int} {outMin outMin' : Option Int}
    {deadline : UInt64} {f : Unit → Exec V α} {g : Unit → Exec V β}
    (h : Twin obs env.contract base base' s t)
    (hcalls : SameCalls X obs env base base' hop amount outMin outMin' deadline s t)
    (hfail : ∀ panic s t, seen obs s.trace = seen obs t.trace → F panic panic s t)
    (hpass : ∀ s' t', Twin obs env.contract base base' s' t' → Lockstep X F R (f () s') (g () t')) :
    Lockstep X F R ((hop.authorizedCall env amount outMin deadline >>= f) s)
      ((hop.authorizedCall env amount outMin' deadline >>= g) t) := by
  refine Lockstep.bind (R := fun _ _ s' t' => Twin obs env.contract base base' s' t') ?_
    fun _ _ s' t' _ _ htwin => hpass s' t' htwin
  unfold Hop.authorizedCall
  rw [authorizedCall_eq, authorizedCall_eq]
  have hacts : ∀ ledger venues ledger' venues',
      seen obs (s.called (env.record hop.tokenIn hop.pullTarget amount
          (hop.call env amount outMin deadline) s) ledger venues).trace =
        seen obs (t.called (env.record hop.tokenIn hop.pullTarget amount
          (hop.call env amount outMin' deadline) t) ledger' venues').trace := by
    intro ledger venues ledger' venues'
    have hbefore := h.acts
    unfold seen at hbefore ⊢
    simp only [State.acts_called, List.map_append, hbefore, Env.record, List.map_cons, hcalls.obs]
  have hsettle := hcalls.settle
  unfold Hop.settle at hsettle
  refine hsettle.elim ?_ ?_ ?_ ?_
  · rintro ⟨ledger, venues, reply⟩ ⟨ledger', venues', reply'⟩ hout hout' ⟨hshift, hrest⟩
    cases hrest
    rw [hout, hout']
    exact lockstep_expectReply (fun panic => hfail panic _ _ (hacts _ _ _ _))
      ⟨hshift, rfl, hacts _ _ _ _⟩
  · intro e hout hX
    rw [hout]
    exact .escape_left rfl hX
  · intro e hout' hX
    rw [hout']
    exact .escape_right rfl hX
  · intro e hout hout'
    rw [hout, hout']
    exact .inr (.inr (hfail _ _ _ (hacts _ _ _ _)))

/-- Twins that measured the same positive output. -/
def TwinOutput (obs : Act → ω) (contract : Address) (base base' : Address → Int)
    (out out' : Int) (s t : State V) : Prop :=
  out = out' ∧ (0 < out ∧ out ≤ i128Max) ∧ Twin obs contract base base' s t

/-- A leg keeps twins twins: the two readings it starts from may differ as the balances
they are readings of do. -/
theorem Twin.measuredLeg {hop : Hop} {amount : Int} {outMin outMin' : Option Int}
    {deadline : UInt64} {srcBefore srcBefore' outBefore outBefore' : Int} {site site' : Guard}
    (h : Twin obs env.contract base base' s t)
    (hcalls : SameCalls X obs env base base' hop amount outMin outMin' deadline s t)
    (hsrc : srcBefore - base hop.tokenIn = srcBefore' - base' hop.tokenIn)
    (hout : outBefore - base hop.tokenOut = outBefore' - base' hop.tokenOut)
    (hfail : ∀ panic s t, seen obs s.trace = seen obs t.trace → F panic panic s t)
    (hsite : ∀ s t, seen obs s.trace = seen obs t.trace → F (.guard site) (.guard site') s t) :
    Lockstep X F (TwinOutput obs env.contract base base')
      (WowmaxStellar.measuredLeg env hop amount outMin deadline srcBefore outBefore site s)
      (WowmaxStellar.measuredLeg env hop amount outMin' deadline srcBefore' outBefore' site'
        t) := by
  unfold WowmaxStellar.measuredLeg
  refine h.authorizedCall_bind hcalls hfail ?_
  intro s1 t1 h1
  have hin := h1.ledgers.gained hop.tokenIn
  have hgain := h1.ledgers.gained hop.tokenOut
  have h2 := h1.read hop.tokenIn hop.tokenIn
  have h3 := h2.read hop.tokenOut hop.tokenOut
  unfold requireConsumed
  simp only [bind_assoc]
  refine lockstep_checkedSub_bind (s := s1.served _) (t := t1.served _) (by omega)
    (hfail _ _ _ h2.acts) fun _ => ?_
  refine lockstep_panicIf_bind Iff.rfl (hfail _ _ _ h2.acts) fun _ _ => ?_
  refine lockstep_checkedSub_bind (s := (s1.served _).served _) (t := (t1.served _).served _)
    (by simp only [State.served_ledger]; omega) (hfail _ _ _ h3.acts) fun hfit => ?_
  refine lockstep_panicIf_bind Iff.rfl (hsite _ _ h3.acts) fun hpos _ => ⟨rfl, ?_, h3⟩
  exact ⟨by omega, hfit.2⟩

/-- An edge of a plan, on both sides. -/
theorem Twin.measuredEdge {hop : Hop} {amount : Int} {deadline : UInt64}
    {srcBefore srcBefore' outBefore outBefore' : Int} {site site' : Guard}
    (h : Twin obs env.contract base base' s t)
    (hcalls : 0 < amount → hop.Routed →
      SameCalls X obs env base base' hop amount none none deadline s t)
    (hsrc : srcBefore - base hop.tokenIn = srcBefore' - base' hop.tokenIn)
    (hout : outBefore - base hop.tokenOut = outBefore' - base' hop.tokenOut)
    (hfail : ∀ panic s t, seen obs s.trace = seen obs t.trace → F panic panic s t)
    (hsite : ∀ s t, seen obs s.trace = seen obs t.trace → F (.guard site) (.guard site') s t) :
    Lockstep X F (TwinOutput obs env.contract base base')
      (WowmaxStellar.measuredEdge env deadline hop amount srcBefore outBefore site s)
      (WowmaxStellar.measuredEdge env deadline hop amount srcBefore' outBefore' site' t) := by
  unfold WowmaxStellar.measuredEdge
  rcases execHop_cases env hop amount deadline with ⟨hpos, hrouted, heq⟩ | ⟨_, guard, _, hrun⟩
  · rw [heq]
    exact h.measuredLeg (hcalls hpos hrouted) hsrc hout hfail hsite
  · rw [bind_of_error (hrun s), bind_of_error (hrun t)]
    exact .inr (.inr (hfail _ _ _ h.acts))

end Programs

end WowmaxStellar
