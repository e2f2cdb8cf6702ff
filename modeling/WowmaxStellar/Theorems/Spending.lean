import WowmaxStellar.Theorems.Deployment

/-!
# What an account can lose

An account trades through adapters that anybody may deploy, initialise and call. As long as
the venues take no more than they are asked to, it loses no more than it has signed away, and
no more than the events of the adapters name, however many transactions there are.

* `Covered` — what an account has lost, against what it signed and what was published;
* `run_covered` — one transaction;
* `losses_covered` — a history, with what happens outside of it set aside.
-/

namespace WowmaxStellar.Adapters.Deployer

open Runs

variable {V : Type} {network : Network V} {token account : Address}

/-- The swaps a transaction asks for. -/
def Submission.swaps (submission : Submission network) : List SwapCall :=
  (submission.transaction.calls network).filterMap fun entry => entry.2.swap?

/-- What `account` has signed away in a transaction. -/
def Submission.signedAway (submission : Submission network) (token account : Address) : Int :=
  if account ∈ submission.context.signers then
    takesOf (submission.swaps.map SwapCall.sale) token account
  else 0

/-- What `account` loses of `token` from one chain to another. -/
def lossOf (token account : Address) (chain later : Chain V) : Int :=
  chain.ledger.balance token account - later.ledger.balance token account

/-- A history, and what `account` has lost of `token` outside of its transactions. -/
inductive Drained (token account : Address) (chain : Chain V) :
    List (Submission network) → Int → Chain V → Prop
  | start : Drained token account chain [] 0 chain
  | commit {log : List (Submission network)} {lost : Int} {chain' chain'' : Chain V}
      (submission : Submission network) (h : Drained token account chain log lost chain')
      (hrun : submission.run chain' = .ok () chain'') :
      Drained token account chain (log ++ [submission]) lost chain''
  | outside {log : List (Submission network)} {lost : Int} {chain' chain'' : Chain V}
      (h : Drained token account chain log lost chain') (hout : Outside chain' chain'') :
      Drained token account chain log (lost + lossOf token account chain' chain'') chain''

/-- Every history is one of these, for whatever was lost outside. -/
theorem History.drained {chain later : Chain V} {log : List (Submission network)}
    (h : History chain log later) (token account : Address) :
    ∃ lost, Drained token account chain log lost later := by
  induction h with
  | start => exact ⟨0, .start⟩
  | commit submission _ hrun ih =>
      obtain ⟨lost, h⟩ := ih
      exact ⟨lost, .commit submission h hrun⟩
  | outside _ hout ih =>
      obtain ⟨lost, h⟩ := ih
      exact ⟨_, .outside h hout⟩

/-- From `chain` to `later` the account has lost no more than `lost` and what it has signed
away, and no more than `lost` and what the events of the adapters name. -/
structure Covered (token account : Address) (chain later : Chain V) (lost signedAway : Int) :
    Prop where
  signed : lossOf token account chain later ≤ lost + signedAway
  published : ∃ events, later.events = chain.events ++ events ∧
    lossOf token account chain later ≤
      lost + takesOf (events.filterMap (·.2.sale?)) token account

section Covered

variable {chain later : Chain V} {lost lost' signedAway signedAway' : Int}

theorem lossOf_add (middle : Chain V) :
    lossOf token account chain middle + lossOf token account middle later =
      lossOf token account chain later :=
  sub_add_sub_cancel _ _ _

/-- Nothing is lost where the balance is not touched. -/
theorem Covered.of_ledger {events : List (Address × Event)} (hledger : later.ledger = chain.ledger)
    (hevents : later.events = chain.events ++ events) (hsigned : 0 ≤ signedAway) :
    Covered token account chain later 0 signedAway := by
  have hnone : lossOf token account chain later = 0 := by
    unfold lossOf
    rw [hledger, sub_self]
  refine ⟨?_, events, hevents, ?_⟩
  · rw [hnone, zero_add]
    exact hsigned
  · rw [hnone, zero_add]
    exact takesOf_nonneg _

theorem Covered.of_outside (hout : Outside chain later) :
    Covered token account chain later (lossOf token account chain later) 0 := by
  refine ⟨(add_zero _).ge, [], ?_, (add_zero _).ge⟩
  rw [hout.events, List.append_nil]

theorem Covered.trans {middle : Chain V}
    (h : Covered token account chain middle lost signedAway)
    (h' : Covered token account middle later lost' signedAway') :
    Covered token account chain later (lost + lost') (signedAway + signedAway') := by
  have hsigned := h.signed
  have hsigned' := h'.signed
  obtain ⟨events, hevents, hpublished⟩ := h.published
  obtain ⟨events', hevents', hpublished'⟩ := h'.published
  refine ⟨?_, events ++ events', ?_, ?_⟩
  · rw [← lossOf_add middle]
    omega
  · rw [hevents', hevents, List.append_assoc]
  · rw [List.filterMap_append, takesOf_append, ← lossOf_add middle]
    omega

end Covered

/-! ## One transaction -/

theorem Submission.signedAway_nonneg (submission : Submission network) (token account : Address) :
    0 ≤ submission.signedAway token account := by
  unfold Submission.signedAway
  split
  · exact takesOf_nonneg _
  · exact le_rfl

/-- A swap that went through was signed by the account it takes from. -/
theorem Submission.takes_le_signedAway {submission : Submission network} {contract : Address}
    {call : SwapCall} (hcalls : submission.transaction.calls network = [(contract, .swap call)])
    (hsigned : call.recipient ∈ submission.context.signers) :
    call.sale.takes token account ≤ submission.signedAway token account := by
  have hswaps : submission.swaps = [call] := by
    unfold Submission.swaps
    rw [hcalls]
    rfl
  unfold Submission.signedAway
  rw [hswaps]
  split
  · rw [List.map_singleton, takesOf_cons, takesOf_nil, add_zero]
  next hnot =>
    refine (Sale.takes_of_ne (fun heq => hnot ?_) token).le
    rw [heq, call.sale_account]
    exact hsigned

/-- One transaction: only a swap takes anything, and its recipient has signed it. -/
theorem run_covered (hkeeps : KeepsToOrders network.venue account)
    {submission : Submission network} {chain chain' : Chain V}
    (hrun : submission.run chain = .ok () chain') :
    Covered token account chain chain' 0 (submission.signedAway token account) := by
  have hnonneg := submission.signedAway_nonneg token account
  cases run_committed hrun with
  | deploy => exact .of_ledger rfl rfl hnonneg
  | createContract => exact .of_ledger rfl (List.append_nil _).symm hnonneg
  | invoke contract function args code storage call returned s htransaction _ hcall hperformed =>
      cases hperformed with
      | initializeWith => exact .of_ledger rfl rfl hnonneg
      | swap call amounts s hswapped hsold =>
          have hloses : lossOf token account chain (chain.commit contract code s) ≤
              call.sale.takes token account := hswapped.loses hsold hkeeps token
          refine ⟨?_, _, rfl, ?_⟩
          · have hcalls : submission.transaction.calls network = [(contract, .swap call)] := by
              rw [htransaction]
              simp [Transaction.calls, hcall]
            rw [zero_add]
            exact hloses.trans (Submission.takes_le_signedAway hcalls hswapped.signed)
          · have hevents : s.events = [code.swapEvent call] := hswapped.events
            have hone : takesOf ((s.events.map (contract, ·)).filterMap (·.2.sale?)) token account =
                call.sale.takes token account := by
              simp [hevents, code.swapEvent_sale? call]
            rw [hone, zero_add]
            exact hloses
      | getProtocolId => exact .of_ledger rfl rfl hnonneg
      | getProtocolAddress => exact .of_ledger rfl rfl hnonneg

/-- A history, by its last step. -/
theorem Drained.covered (hkeeps : KeepsToOrders network.venue account) {chain later : Chain V}
    {log : List (Submission network)} {lost : Int}
    (h : Drained token account chain log lost later) :
    Covered token account chain later lost
      (log.map fun submission => submission.signedAway token account).sum := by
  induction h with
  | start => exact .of_ledger rfl (List.append_nil _).symm le_rfl
  | commit submission h hrun ih =>
      rw [List.map_append, List.sum_append, List.map_singleton, List.sum_singleton]
      have hall := ih.trans (run_covered hkeeps hrun)
      rwa [add_zero] at hall
  | outside h hout ih =>
      have hall := ih.trans (.of_outside hout)
      rwa [add_zero] at hall

/-- **Losses are covered.** In every history, whoever submits whatever: besides what it loses
outside of the transactions, an account loses no more than the swaps it has signed let go of,
and no more than their events name. -/
theorem losses_covered (hkeeps : KeepsToOrders network.venue account) {chain later : Chain V}
    {log : List (Submission network)} (h : History chain log later) :
    (∃ lost, Drained token account chain log lost later) ∧
      ∀ lost, Drained token account chain log lost later →
        Covered token account chain later lost
          (log.map fun submission => submission.signedAway token account).sum :=
  ⟨h.drained token account, fun _ hdrained => hdrained.covered hkeeps⟩

/-! ### A pool that trades one for one -/

/-- A Comet pool pays for what it takes, and takes the amount it is asked to. -/
theorem cometPool_loses {ledger : Ledger} {pool account : Address} {request : Request}
    {answer : Answer Unit} (hne : account ≠ pool)
    (h : cometPool ledger pool request = .ok answer) (token : Address) :
    ledger.balance token account - answer.ledger.balance token account ≤
      takesOf request.sale?.toList token account := by
  unfold cometPool at h
  split at h
  next tokenIn amountIn tokenOut _ _ user =>
    split at h
    next hfits =>
      obtain ⟨paid, hpaid, hafter, -⟩ := oneForOne_ok h
      obtain ⟨hnonneg, _, hpaid⟩ := Ledger.transfer_ok hpaid
      obtain ⟨_, _, hafter⟩ := Ledger.transfer_ok hafter
      have hsold : takesOf [⟨user, some tokenIn, amountIn⟩] token account =
          Ledger.share tokenIn user amountIn token account := by
        rw [takesOf_cons, takesOf_nil, add_zero]
        show Ledger.share tokenIn user (max 0 amountIn) token account = _
        rw [max_eq_right hnonneg]
      have hbought := Ledger.share_nonneg hnonneg tokenOut user token account
      show _ ≤ takesOf [⟨user, some tokenIn, amountIn⟩] token account
      rw [hsold, hafter, hpaid, Ledger.share_of_ne hne, Ledger.share_of_ne hne]
      omega
    next => cases h
  next => cases h

theorem marketNetwork_keepsToOrders : KeepsToOrders marketNetwork.venue ⟨1⟩ := by
  intro venues ledger address request answer token hanswer
  simp only [marketNetwork] at hanswer
  split at hanswer
  next haddress =>
    rw [haddress] at hanswer
    exact cometPool_loses (by decide) hanswer token
  next => cases hanswer

/-- The account loses what it has signed away, and the event of its swap names it. -/
theorem losses_covered_market : ∃ later, History marketChain [marketSwap] later ∧
    (∃ lost, Drained ⟨10⟩ ⟨1⟩ marketChain [marketSwap] lost later) ∧
      ∀ lost, Drained ⟨10⟩ ⟨1⟩ marketChain [marketSwap] lost later →
        Covered ⟨10⟩ ⟨1⟩ marketChain later lost
          ([marketSwap].map fun submission => submission.signedAway ⟨10⟩ ⟨1⟩).sum :=
  have hhistory := History.commit marketSwap .start rfl
  ⟨_, hhistory, losses_covered marketNetwork_keepsToOrders hhistory⟩

end WowmaxStellar.Adapters.Deployer
