import WowmaxStellar.Logic.HostRules

/-!
# Stepping through executor code

One rule for each host function and guard, in the shape in which programs use them:
followed by the rest of the program.
-/

namespace WowmaxStellar

open Runs

variable {V β : Type} {s : State V} {Q : β → State V → Prop} {E : Panic → State V → Prop}

theorem inI128_sub {a b : Int} (ha : 0 ≤ a ∧ a ≤ i128Max) (hb : 0 ≤ b ∧ b ≤ i128Max) :
    InI128 (a - b) := by
  unfold InI128 i128Min i128Max at *
  omega

theorem Ledger.balance_bounds (ledger : Ledger) (token holder : Address) :
    0 ≤ ledger.balance token holder ∧ ledger.balance token holder ≤ i128Max :=
  ⟨ledger.nonneg token holder, ledger.le_max token holder⟩

theorem post_panicIf {c : Prop} [Decidable c] {site : Guard} {Q : Unit → State V → Prop}
    (hfail : c → E (.guard site) s) (hpass : ¬ c → Q () s) : Post (panicIf c site) s Q E :=
  .ite (fun hc => .throw (hfail hc)) (fun hc => .pure (hpass hc))

theorem post_panicIf_bind {c : Prop} [Decidable c] {site : Guard} {f : Unit → Exec V β}
    (hfail : c → E (.guard site) s) (hpass : ¬ c → Post (f ()) s Q E) :
    Post (panicIf c site >>= f) s Q E := by
  refine Post.bind (P := fun _ s' => ¬ c ∧ s' = s) (post_panicIf hfail fun hc => ⟨hc, rfl⟩) ?_
  rintro ⟨⟩ s' ⟨hc, rfl⟩
  exact hpass hc

theorem post_checked_bind {op : ArithOp} {x : Int} {f : Int → Exec V β}
    (hfail : ¬ InI128 x → E (.overflow op) s) (hpass : InI128 x → Post (f x) s Q E) :
    Post (checked op x >>= f) s Q E := by
  have hchecked : Post (checked op x) s (fun a s' => InI128 x ∧ a = x ∧ s' = s) E :=
    .ite (fun hx => .pure ⟨hx, rfl, rfl⟩) (fun hx => .throw (hfail hx))
  refine hchecked.bind ?_
  rintro a s' ⟨hx, rfl, rfl⟩
  exact hpass hx

theorem post_balance_bind {token holder : Address} {f : Int → Exec V β}
    (h : Post (f (s.ledger.balance token holder)) (s.served (.balance token holder)) Q E) :
    Post (balance token holder >>= f) s Q E := h

/-- The state after a token transfer of the executor. -/
def State.moved (s : State V) (token src dst : Address) (amount : Int) (ledger : Ledger) :
    State V :=
  { s.served (.transfer token src dst amount ledger) with ledger := ledger }

/-- A transfer that is signed for and not refused is the ledger's. -/
theorem transfer_of_allowed {env : Env V} {token src dst : Address} {amount : Int}
    (hsigned : src = env.contract ∨ src ∈ env.signers)
    (haccepts : env.accepts s.venues s.ledger token src dst amount = true) :
    transfer env token src dst amount s =
      match s.ledger.transfer token src dst amount with
      | .error e => .error (.host e) s
      | .ok ledger => .ok () (s.moved token src dst amount ledger) := by
  have hauth : ¬ (src ≠ env.contract ∧ src ∉ env.signers) := by tauto
  unfold transfer
  rw [if_neg hauth, if_neg (by rw [haccepts]; decide)]
  rfl

theorem transfer_run_ok {env : Env V} {token src dst : Address} {amount : Int} {ledger : Ledger}
    (hsigned : src = env.contract ∨ src ∈ env.signers)
    (haccepts : env.accepts s.venues s.ledger token src dst amount = true)
    (h : s.ledger.transfer token src dst amount = .ok ledger) :
    transfer env token src dst amount s = .ok () (s.moved token src dst amount ledger) := by
  rw [transfer_of_allowed hsigned haccepts, h]

theorem transfer_run_error {env : Env V} {token src dst : Address} {amount : Int} {e : HostError}
    (hsigned : src = env.contract ∨ src ∈ env.signers)
    (haccepts : env.accepts s.venues s.ledger token src dst amount = true)
    (h : s.ledger.transfer token src dst amount = .error e) :
    transfer env token src dst amount s = .error (.host e) s := by
  rw [transfer_of_allowed hsigned haccepts, h]

theorem post_transfer_bind {env : Env V} {token src dst : Address} {amount : Int}
    {f : Unit → Exec V β} (hfail : ∀ e, E (.host e) s)
    (hpass : ∀ ledger, s.ledger.transfer token src dst amount = .ok ledger →
      Post (f ()) (s.moved token src dst amount ledger) Q E) :
    Post (transfer env token src dst amount >>= f) s Q E := by
  by_cases hauth : src ≠ env.contract ∧ src ∉ env.signers
  · have hrun : transfer env token src dst amount s = .error (.host .unauthorized) s := by
      unfold transfer
      rw [if_pos hauth]
    exact .of_error (bind_of_error hrun) (hfail _)
  · by_cases haccept : env.accepts s.venues s.ledger token src dst amount = false
    · have hrun : transfer env token src dst amount s = .error (.host .refused) s := by
        unfold transfer
        rw [if_neg hauth, if_pos haccept]
      exact .of_error (bind_of_error hrun) (hfail _)
    · have hrun := @transfer_of_allowed V s env token src dst amount (by tauto)
        (Bool.eq_true_of_not_eq_false haccept)
      cases hmove : s.ledger.transfer token src dst amount with
      | error e =>
          rw [hmove] at hrun
          exact .of_error (bind_of_error hrun) (hfail _)
      | ok ledger =>
          rw [hmove] at hrun
          have hrest := hpass ledger hmove
          unfold Post at hrest ⊢
          rw [bind_of_ok hrun]
          exact hrest

/-- A transfer of what the sender holds, signed for and not refused, only fails on a balance
overflow. -/
theorem post_transfer_covered_bind {env : Env V} {token src dst : Address} {amount : Int}
    {f : Unit → Exec V β} (hsigned : src = env.contract ∨ src ∈ env.signers)
    (haccepts : env.accepts s.venues s.ledger token src dst amount = true) (h0 : 0 ≤ amount)
    (hcovered : amount ≤ s.ledger.balance token src) (hfail : E (.host .balanceOverflow) s)
    (hpass : ∀ ledger, s.ledger.transfer token src dst amount = .ok ledger →
      Post (f ()) (s.moved token src dst amount ledger) Q E) :
    Post (transfer env token src dst amount >>= f) s Q E := by
  have hrun := transfer_of_allowed hsigned haccepts
  rcases s.ledger.transfer_covered dst h0 hcovered with hover | ⟨ledger, hmove⟩
  · rw [hover] at hrun
    exact .of_error (bind_of_error hrun) hfail
  · rw [hmove] at hrun
    have hrest := hpass ledger hmove
    unfold Post at hrest ⊢
    rw [bind_of_ok hrun]
    exact hrest

/-- The two readings of a consumption check are balances, so their difference is an
`i128` and only the comparison can fail. -/
theorem post_requireConsumed_bind {env : Env V} {token : Address} {before expected : Int}
    {f : Unit → Exec V β} (hbefore : 0 ≤ before ∧ before ≤ i128Max)
    (hfail : E (.guard .inputNotConsumed) (s.served (.balance token env.contract)))
    (hpass : before - s.ledger.balance token env.contract = expected →
      Post (f ()) (s.served (.balance token env.contract)) Q E) :
    Post (requireConsumed env token before expected >>= f) s Q E := by
  unfold requireConsumed checkedSub
  simp only [bind_assoc]
  refine post_balance_bind (post_checked_bind (fun hout => ?_) fun _ => ?_)
  · exact absurd (inI128_sub hbefore (s.ledger.balance_bounds token env.contract)) hout
  · exact post_panicIf_bind (fun _ => hfail) fun hc => hpass (not_not.mp hc)

/-- Measuring a gain since an earlier reading. -/
theorem post_gain_bind {env : Env V} {token : Address} {before : Int} {f : Int → Exec V β}
    (hbefore : 0 ≤ before ∧ before ≤ i128Max)
    (h : Post (f (s.ledger.balance token env.contract - before))
      (s.served (.balance token env.contract)) Q E) :
    Post (balance token env.contract >>= fun after => checkedSub after before >>= f) s Q E := by
  refine post_balance_bind (post_checked_bind (fun hout => ?_) fun _ => h)
  exact absurd (inI128_sub (s.ledger.balance_bounds token env.contract) hbefore) hout

/-! ## One authorised venue call -/

/-- What a venue call started with `auths` authorised comes to. -/
def Network.settle (net : Network V) (venues : V) (ledger : Ledger) (auths : List TransferAuth)
    (call : VenueCall) : Except HostError (Ledger × V × Reply) :=
  let run := net.venue venues ledger auths call
  match (tokenCalls net.contract auths ledger run.calls).2, run.reply with
  | .error e, _ => .error e
  | .ok _, none => .error .trapped
  | .ok after, some reply => .ok (after, run.venues, reply)

/-- A call that succeeded ended at the last ledger it passed through. -/
theorem Network.settle_last {net : Network V} {venues venues' : V} {ledger ledger' : Ledger}
    {auths : List TransferAuth} {call : VenueCall} {reply : Reply}
    (h : net.settle venues ledger auths call = .ok (ledger', venues', reply)) :
    (tokenCalls net.contract auths ledger
      (net.venue venues ledger auths call).calls).1.getLast?.getD ledger = ledger' := by
  unfold Network.settle at h
  dsimp only at h
  cases hmoved : (tokenCalls net.contract auths ledger
      (net.venue venues ledger auths call).calls).2 with
  | error e =>
      rw [hmoved] at h
      cases h
  | ok moved =>
      cases hreply : (net.venue venues ledger auths call).reply with
      | none =>
          rw [hmoved, hreply] at h
          cases h
      | some reply =>
          rw [hmoved, hreply] at h
          cases h
          exact tokenCalls_last hmoved

/-- A venue call by what it comes to. -/
theorem invokeContract_eq (env : Env V) (call : VenueCall) (s : State V) :
    invokeContract env call s =
      let moments := (tokenCalls env.contract s.auths s.ledger
        (env.venue s.venues s.ledger s.auths call).calls).1
      match env.settle s.venues s.ledger s.auths call with
      | .error e => .error (.host e) (s.served (.invoke ⟨s.auths, call, s.ledger, moments⟩))
      | .ok (ledger, venues, reply) =>
          .ok reply { s.served (.invoke ⟨s.auths, call, s.ledger, moments⟩) with
            ledger := ledger, venues := venues } := by
  unfold invokeContract Network.settle
  dsimp only
  cases (tokenCalls env.contract s.auths s.ledger
      (env.venue s.venues s.ledger s.auths call).calls).2 with
  | error e => rfl
  | ok ledger => cases (env.venue s.venues s.ledger s.auths call).reply <;> rfl

/-- The state after an authorised call that came to `ledger` and `venues`. -/
def State.called (s : State V) (record : VenueRecord) (ledger : Ledger) (venues : V) : State V where
  ledger := ledger
  venues := venues
  auths := []
  trace := s.trace ++ [.authorize record.auths, .invoke record]

@[simp] theorem State.called_ledger (s : State V) (record : VenueRecord) (ledger : Ledger)
    (venues : V) : (s.called record ledger venues).ledger = ledger := rfl

@[simp] theorem State.called_venues (s : State V) (record : VenueRecord) (ledger : Ledger)
    (venues : V) : (s.called record ledger venues).venues = venues := rfl

@[simp] theorem State.called_auths (s : State V) (record : VenueRecord) (ledger : Ledger)
    (venues : V) : (s.called record ledger venues).auths = [] := rfl

/-- The record of a call with `amount` of `token` authorised to `target`. -/
def Env.record (env : Env V) (token target : Address) (amount : Int) (call : VenueCall)
    (s : State V) : VenueRecord :=
  let auths := [⟨token, env.contract, target, amount⟩]
  ⟨auths, call, s.ledger,
    (tokenCalls env.contract auths s.ledger (env.venue s.venues s.ledger auths call).calls).1⟩

/-- An authorised call by what it comes to, with its reply still to be converted. -/
theorem authorizedCall_eq (env : Env V) (token target : Address) (amount : Int)
    (call : VenueCall) (replyType : ReplyType) (s : State V) :
    authorizedCall env token target amount call replyType s =
      match env.settle s.venues s.ledger [⟨token, env.contract, target, amount⟩] call with
      | .error e =>
          .error (.host e) (s.called (env.record token target amount call s) s.ledger s.venues)
      | .ok (ledger, venues, reply) =>
          expectReply replyType reply
            (s.called (env.record token target amount call s) ledger venues) := by
  let auths : List TransferAuth := [⟨token, env.contract, target, amount⟩]
  let s1 : State V := { s with auths := auths, trace := s.trace ++ [.authorize auths] }
  have hinvoke := invokeContract_eq env call s1
  have hcalled : ∀ ledger venues, s.called (env.record token target amount call s) ledger venues =
      ⟨ledger, venues, [], s1.trace ++ [.invoke (env.record token target amount call s)]⟩ := by
    intro ledger venues
    simp only [State.called, Env.record, s1, auths, List.append_assoc, List.cons_append,
      List.nil_append]
  show (invokeContract env call >>= expectReply replyType) s1 =
    match env.settle s1.venues s1.ledger s1.auths call with
    | .error e => .error (.host e) (s.called _ s.ledger s.venues)
    | .ok (ledger, venues, reply) => expectReply replyType reply (s.called _ ledger venues)
  cases hsettle : env.settle s1.venues s1.ledger s1.auths call with
  | error e =>
      rw [hsettle] at hinvoke
      simp only [hcalled]
      exact bind_of_error hinvoke
  | ok result =>
      obtain ⟨ledger, venues, reply⟩ := result
      rw [hsettle] at hinvoke
      simp only [hcalled]
      exact bind_of_ok hinvoke

/-- The record of a venue call the executor made: it authorised exactly one transfer,
and at no moment of the call was it short of more than that. -/
structure Handed (env : Env V) (token target : Address) (amount : Int) (call : VenueCall)
    (ledger : Ledger) (record : VenueRecord) : Prop where
  auths : record.auths = [⟨token, env.contract, target, amount⟩]
  call : record.call = call
  before : record.before = ledger
  floor : ∀ moment ∈ record.moments, ∀ t,
    ledger.balance t env.contract - (if t = token then amount else 0) ≤
      moment.balance t env.contract

theorem Env.handed_record (env : Env V) (token target : Address) {amount : Int} (call : VenueCall)
    (s : State V) (hamount : 0 ≤ amount) :
    Handed env token target amount call s.ledger (env.record token target amount call s) where
  auths := rfl
  call := rfl
  before := rfl
  floor moment hmem t := by
    have hpos : ∀ auth ∈ [TransferAuth.mk token env.contract target amount], 0 ≤ auth.amount := by
      intro auth hauth
      rw [List.mem_singleton.mp hauth]
      exact hamount
    have hfloor := tokenCalls_floor hpos moment hmem t
    rw [pending_singleton] at hfloor
    simpa only [eq_comm (a := token)] using hfloor

/-- The panics of an authorised call. -/
def CallPanic (panic : Panic) : Prop :=
  panic = .guard .emptyRouterResponse ∨ ∃ e, panic = .host e

theorem post_expectReply {replyType : ReplyType} {reply : Reply} {Q : Unit → State V → Prop}
    (hfail : ∀ panic, CallPanic panic → E panic s) (hpass : Q () s) :
    Post (expectReply replyType reply) s Q E := by
  cases replyType <;> cases reply <;>
    first
    | exact post_panicIf (fun _ => hfail _ (.inl rfl)) (fun _ => hpass)
    | exact .pure hpass
    | exact .throw (hfail _ (.inr ⟨_, rfl⟩))

theorem post_authorizedCall_bind {env : Env V} {token target : Address} {amount : Int}
    {call : VenueCall} {replyType : ReplyType} {f : Unit → Exec V β} (hamount : 0 ≤ amount)
    (hfail : ∀ record panic s', Handed env token target amount call s.ledger record →
      CallPanic panic → s'.trace = s.trace ++ [.authorize record.auths, .invoke record] →
      E panic s')
    (hpass : ∀ record s', Handed env token target amount call s.ledger record →
      record.after = s'.ledger → s'.auths = [] →
      (∃ venues reply, env.settle s.venues s.ledger record.auths call =
        .ok (s'.ledger, venues, reply)) →
      s'.trace = s.trace ++ [.authorize record.auths, .invoke record] → Post (f ()) s' Q E) :
    Post (authorizedCall env token target amount call replyType >>= f) s Q E := by
  have heq := authorizedCall_eq env token target amount call replyType s
  have hhanded := env.handed_record token target call s hamount
  cases hsettle : env.settle s.venues s.ledger [⟨token, env.contract, target, amount⟩] call with
  | error e =>
      rw [hsettle] at heq
      exact .of_error (bind_of_error heq) (hfail _ _ _ hhanded (.inr ⟨e, rfl⟩) rfl)
  | ok result =>
      obtain ⟨ledger, venues, reply⟩ := result
      rw [hsettle] at heq
      let s' := s.called (env.record token target amount call s) ledger venues
      have hcall : Post (authorizedCall env token target amount call replyType) s
          (fun _ t => t = s') E := by
        unfold Post
        rw [heq]
        exact post_expectReply (fun panic hpanic => hfail _ panic _ hhanded hpanic rfl) rfl
      refine hcall.bind ?_
      rintro ⟨⟩ _ rfl
      exact hpass _ _ hhanded (Network.settle_last hsettle) rfl ⟨venues, reply, hsettle⟩ rfl

end WowmaxStellar
