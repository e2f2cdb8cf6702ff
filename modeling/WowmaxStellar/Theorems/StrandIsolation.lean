import WowmaxStellar.Logic.Desk
import Mathlib.Data.List.Chain

/-!
# Strands are isolated

The strands of `swap` share the executor's account, also where they pass through the same
intermediate tokens. Each is handed its share of the input and carries one amount along: every
venue call is authorised for, and takes, what the call before it in the same strand delivered.
Over its calls a strand turns its share into its output and leaves every other token alone, so
the call returns the sum of the outputs.

* `Journal.linked` — each venue call starts from the ledger the one before it left;
* `legs_change` — what a strand's legs do to the account;
* `strand_isolation` — the result.
-/

namespace WowmaxStellar

open Runs Flow Split

variable {V : Type}

/-- A call of the venue of an edge moves no token of the executor but the two of the edge,
whatever minimum it is asked for. -/
def Hop.Contained (env : Env V) (deadline : UInt64) (hop : Hop) : Prop :=
  ∀ amount outMin venues ledger outcome,
    hop.settle env amount outMin deadline venues ledger = .ok outcome →
    ∀ t, t ≠ hop.tokenIn → t ≠ hop.tokenOut →
      outcome.1.balance t env.contract = ledger.balance t env.contract

/-- One amount carried along the calls of a strand: each call is authorised for what the one
before it delivered, takes it, and touches no third token. -/
def Carried (contract : Address) : Int → List (Hop × VenueRecord) → Int → Prop
  | amount, [], out => out = amount
  | amount, (hop, record) :: rest, out =>
      record.auths = [⟨hop.tokenIn, contract, hop.pullTarget, amount⟩] ∧
      ∃ delivered, (∀ t, record.after.balance t contract = record.before.balance t contract +
          (if t = hop.tokenOut then delivered else 0) - if t = hop.tokenIn then amount else 0) ∧
        Carried contract delivered rest out

/-- What a strand was handed, the venue calls it made, and what it brought. -/
structure StrandAccount where
  share : Int
  records : List VenueRecord
  out : Int

/-- An account of a strand. -/
structure StrandAccount.Of (contract tokenIn tokenOut : Address) (account : StrandAccount)
    (strand : Strand) : Prop where
  count : account.records.length = strand.hops.len
  out_pos : 0 < account.out
  carried : Carried contract account.share (strand.hops.val.zip account.records) account.out
  change : ∀ first last, account.records.head? = some first →
    account.records.getLast? = some last → ∀ t,
    last.after.balance t contract = first.before.balance t contract +
      (if t = tokenOut then account.out else 0) - if t = tokenIn then account.share else 0

/-- The accounts of a call that returned `out`. -/
structure Isolated (contract : Address) (args : SwapArgs) (calls : List VenueRecord) (out : Int)
    (accounts : List StrandAccount) : Prop where
  strands : List.Forall₂ (StrandAccount.Of contract args.tokenIn args.tokenOut) accounts
    args.plan.val
  blocks : calls = accounts.flatMap StrandAccount.records
  linked : calls.IsChain fun earlier later => later.before = earlier.after
  shares : (accounts.map StrandAccount.share).sum = args.amountIn
  outs : (accounts.map StrandAccount.out).sum = out

section Legs

variable {scope : Scope V} {s0 s : State V} {legs : List Leg}

/-- Between two venue calls the executor reads balances only. -/
theorem Journal.linked (h : Journal scope s0 legs s) :
    (legs.map Leg.record).IsChain (fun earlier later => later.before = earlier.after) ∧
      ∀ record, (legs.map Leg.record).getLast? = some record → record.after = s.ledger := by
  induction h with
  | start => simp
  | read token init ih => exact ih
  | leg init checked amount_pos covered ran ih =>
      rename_i legs s s' leg
      obtain ⟨outMin, handed⟩ := ran.handed
      rw [List.map_append, List.map_singleton]
      refine ⟨?_, ?_⟩
      · rw [List.isChain_append]
        refine ⟨ih.1, List.isChain_singleton _, ?_⟩
        intro earlier hearlier later hlater
        rw [List.head?_singleton, Option.mem_some_iff] at hlater
        rw [← hlater, handed.before, ih.2 earlier hearlier]
      · intro record hrecord
        rw [List.getLast?_append, List.getLast?_singleton, Option.some_or, Option.some.injEq]
          at hrecord
        rw [← hrecord]
        exact ran.after

/-- What a leg does to the account when its venue touches no third token. -/
theorem Leg.Settled.change {leg : Leg} (h : leg.Settled scope)
    (hcontained : leg.hop.Contained scope.env scope.deadline) (t : Address) :
    leg.record.after.balance t scope.env.contract =
      leg.record.before.balance t scope.env.contract +
        (if t = leg.hop.tokenOut then leg.out else 0) -
          if t = leg.hop.tokenIn then leg.amount else 0 := by
  have hdistinct := h.distinct
  by_cases hin : t = leg.hop.tokenIn
  · subst hin
    rw [if_neg hdistinct, if_pos rfl, h.taken]
    omega
  by_cases hout : t = leg.hop.tokenOut
  · subst hout
    rw [if_pos rfl, if_neg hin, h.delivered]
    omega
  obtain ⟨outMin, venues, outcome, hsettle, hledger⟩ := h.settled
  have hsame := hcontained _ _ _ _ _ hsettle t hin hout
  rw [hledger] at hsame
  rw [if_neg hin, if_neg hout, hsame]
  omega

theorem Leg.Settled.sideDelivery_eq_zero {leg : Leg} (h : leg.Settled scope)
    (hcontained : leg.hop.Contained scope.env scope.deadline) (t : Address) :
    sideDelivery scope.env.contract leg.hop leg.record t = 0 := by
  unfold sideDelivery
  split
  · rfl
  · rename_i hne
    have hchange := h.change hcontained t
    rw [if_neg (fun heq => hne (.inr heq)), if_neg (fun heq => hne (.inl heq))] at hchange
    omega

theorem carried_of_strung {amount out : Int} (h : Strung amount legs out)
    (hsettled : ∀ leg ∈ legs, leg.Settled scope)
    (hcontained : ∀ leg ∈ legs, leg.hop.Contained scope.env scope.deadline) :
    Carried scope.env.contract amount ((legs.map Leg.hop).zip (legs.map Leg.record)) out := by
  induction legs generalizing amount with
  | nil => exact h
  | cons leg rest ih =>
      obtain ⟨rfl, hrest⟩ := h
      have hmem := List.mem_cons_self (a := leg) (l := rest)
      refine ⟨(hsettled leg hmem).auths, leg.out,
        (hsettled leg hmem).change (hcontained leg hmem), ?_⟩
      apply ih hrest
      · exact fun l hl => hsettled l (List.mem_cons_of_mem leg hl)
      · exact fun l hl => hcontained l (List.mem_cons_of_mem leg hl)

/-- What linked legs do to the account. -/
theorem legs_change (hsettled : ∀ leg ∈ legs, leg.Settled scope)
    (hcontained : ∀ leg ∈ legs, leg.hop.Contained scope.env scope.deadline)
    (hlinked : (legs.map Leg.record).IsChain fun earlier later => later.before = earlier.after)
    {first last : VenueRecord} (hfirst : (legs.map Leg.record).head? = some first)
    (hlast : (legs.map Leg.record).getLast? = some last) (t : Address) :
    last.after.balance t scope.env.contract = first.before.balance t scope.env.contract +
      gainedOf (legs.map Leg.move) t - spentOf (legs.map Leg.move) t := by
  induction legs generalizing first with
  | nil => cases hfirst
  | cons leg rest ih =>
      obtain rfl : leg.record = first := by simpa using hfirst
      have hchange := (hsettled leg (List.mem_cons_self ..)).change
        (hcontained leg (List.mem_cons_self ..)) t
      have hgained : gainedOf ((leg :: rest).map Leg.move) t =
          (if t = leg.hop.tokenOut then leg.out else 0) + gainedOf (rest.map Leg.move) t := by
        rw [List.map_cons, ← List.singleton_append, gainedOf_append, gainedOf_singleton]
        simp only [eq_comm (a := t)]
        rfl
      have hspent : spentOf ((leg :: rest).map Leg.move) t =
          (if t = leg.hop.tokenIn then leg.amount else 0) + spentOf (rest.map Leg.move) t := by
        rw [List.map_cons, ← List.singleton_append, spentOf_append, spentOf_singleton]
        simp only [eq_comm (a := t)]
        rfl
      cases rest with
      | nil =>
          obtain rfl : leg.record = last := by simpa using hlast
          rw [hgained, hspent, List.map_nil, gainedOf_nil, spentOf_nil]
          omega
      | cons next rest =>
          have hnext : next.record.before = leg.record.after := hlinked.rel_head? rfl
          have htail := ih (fun l hl => hsettled l (List.mem_cons_of_mem leg hl))
            (fun l hl => hcontained l (List.mem_cons_of_mem leg hl)) hlinked.tail rfl
            (by rw [List.map_cons, List.map_cons, List.getLast?_cons_cons] at hlast; exact hlast)
          rw [htail, hnext, hgained, hspent]
          omega

/-- The account of a strand that ran. -/
theorem StrandRun.Isolated.account {tokenIn tokenOut : Address} {share : Int} {run : StrandRun}
    (h : run.Isolated tokenIn tokenOut share) (hpos : 0 < run.output)
    (hedges : run.legs.map Leg.hop = run.strand.hops.val)
    (hsettled : ∀ leg ∈ run.legs, leg.Settled scope)
    (hcontained : ∀ leg ∈ run.legs, leg.hop.Contained scope.env scope.deadline)
    (hlinked : (run.legs.map Leg.record).IsChain fun earlier later =>
      later.before = earlier.after) :
    StrandAccount.Of scope.env.contract tokenIn tokenOut
      ⟨share, run.legs.map Leg.record, run.output⟩ run.strand where
  count := by
    unfold Vec.len
    rw [← hedges, List.length_map, List.length_map]
  out_pos := hpos
  carried := by
    rw [← hedges]
    exact carried_of_strung h.strung hsettled hcontained
  change := by
    intro first last hfirst hlast t
    have hnet := h.net t
    rw [legs_change hsettled hcontained hlinked hfirst hlast]
    show _ = _ + (if t = tokenOut then run.output else 0) - if t = tokenIn then share else 0
    omega

/-- The accounts of the strands that ran. -/
theorem accounts_of_isolated {tokenIn tokenOut : Address} {shares : List Int}
    {runs : List StrandRun}
    (h : List.Forall₂ (StrandRun.Isolated tokenIn tokenOut) shares runs)
    (hruns : ∀ run ∈ runs, 0 < run.output ∧ run.legs.map Leg.hop = run.strand.hops.val)
    (hsettled : ∀ leg ∈ strandLegs runs, leg.Settled scope)
    (hcontained : ∀ leg ∈ strandLegs runs, leg.hop.Contained scope.env scope.deadline)
    (hlinked : ((strandLegs runs).map Leg.record).IsChain fun earlier later =>
      later.before = earlier.after) :
    ∃ accounts : List StrandAccount,
      List.Forall₂ (StrandAccount.Of scope.env.contract tokenIn tokenOut) accounts
        (runs.map StrandRun.strand) ∧
      (strandLegs runs).map Leg.record = accounts.flatMap StrandAccount.records ∧
      accounts.map StrandAccount.share = shares ∧
      accounts.map StrandAccount.out = runs.map StrandRun.output := by
  induction h with
  | nil => exact ⟨[], by simp [strandLegs]⟩
  | @cons share run shares runs hrun hrest ih =>
      have hlegs : strandLegs (run :: runs) = run.legs ++ strandLegs runs := List.flatMap_cons
      rw [hlegs] at hsettled hcontained hlinked
      rw [List.map_append, List.isChain_append] at hlinked
      obtain ⟨accounts, hstrands, hrecords, hshares, houts⟩ :=
        ih (fun r hr => hruns r (List.mem_cons_of_mem run hr))
          (fun leg hleg => hsettled leg (List.mem_append_right _ hleg))
          (fun leg hleg => hcontained leg (List.mem_append_right _ hleg)) hlinked.2.1
      have haccount := hrun.account (hruns run (List.mem_cons_self ..)).1
        (hruns run (List.mem_cons_self ..)).2
        (fun leg hleg => hsettled leg (List.mem_append_left _ hleg))
        (fun leg hleg => hcontained leg (List.mem_append_left _ hleg)) hlinked.1
      refine ⟨⟨share, run.legs.map Leg.record, run.output⟩ :: accounts, .cons haccount hstrands,
        ?_, ?_, ?_⟩
      · rw [hlegs, List.map_append, hrecords, List.flatMap_cons]
      · rw [List.map_cons, hshares]
      · rw [List.map_cons, houts, List.map_cons]

/-- Without deliveries on the side, a plan pays out what its books say. -/
theorem Completed.out_eq_holding {env : Env V} {call : EntryCall} {world : World V}
    {s' : State V} {out : Int} (h : Completed env call world s0 legs s out s')
    (hcontained : ∀ leg ∈ legs, leg.hop.Contained env call.deadline) :
    out = holding call.opening (legs.map Leg.move) call.tokenOut := by
  have hbalance := h.journal.balance_eq call.tokenOut
  have hside : (legs.map fun leg =>
      sideDelivery env.contract leg.hop leg.record call.tokenOut).sum = 0 := by
    apply List.sum_eq_zero
    intro x hx
    obtain ⟨leg, hleg, rfl⟩ := List.mem_map.mp hx
    exact (h.journal.settled leg hleg).sideDelivery_eq_zero (hcontained leg hleg) _
  have hstart := h.pulled.balance call.tokenOut
  have hout := h.out_eq
  unfold holding at hbalance ⊢
  simp only [EntryCall.scope] at hbalance
  omega

end Legs

/-- **Strand isolation.** Every `swap` that returned, with venues that touch no third token,
has accounts of its strands; and none fails for want of an output in the end. -/
theorem strand_isolation (env : Env V) (args : SwapArgs) (world : World V) :
    (∀ out, (args.call.invoke env world).result = .ok out →
        (∀ hop ∈ swapEdges args.plan.val, hop.Contained env args.deadline) →
        ∃ accounts, Isolated env.contract args
          (venueRecords (args.call.invoke env world).trace) out accounts) ∧
      ∀ panic, (args.call.invoke env world).result = .error panic →
        panic ≠ .guard .noOutput := by
  constructor
  · intro out hresult hcontained
    obtain ⟨s', hrun⟩ := EntryCall.invoke_ok hresult
    obtain ⟨s0, runs, s, hinv, hisolated, hcompleted⟩ := swap_post.ok hrun
    have hsettled := hinv.journal.settled
    have hcontained' : ∀ leg ∈ strandLegs runs, leg.hop.Contained env args.deadline := by
      intro leg hleg
      apply hcontained
      rw [← hinv.hops]
      exact List.mem_map_of_mem hleg
    obtain ⟨accounts, hstrands, hrecords, hshares, houts⟩ := accounts_of_isolated hisolated
      (fun run hmem => ⟨hinv.output_pos run hmem, hinv.edges run hmem⟩) hsettled hcontained'
      hinv.journal.linked.1
    have htrace : venueRecords s'.trace = (strandLegs runs).map Leg.record :=
      hcompleted.records
    rw [EntryCall.invoke_of_ok hrun]
    refine ⟨accounts, ?_⟩
    exact
      { strands := by
          rw [← hinv.strands]
          exact hstrands
        blocks := htrace.trans hrecords
        linked := by
          rw [htrace]
          exact hinv.journal.linked.1
        shares := by rw [hshares, sum_shares]
        outs := by
          rw [houts]
          have hout := hcompleted.out_eq_holding hcontained'
          have hbooks := hinv.books args.tokenOut
          have hdistinct : args.tokenOut ≠ args.tokenIn := hcompleted.pulled.distinct.symm
          rw [if_neg hdistinct, if_pos rfl] at hbooks
          exact (hout.trans (hbooks.trans (Int.zero_add _))).symm }
  · -- a run that panicked did not stop at the final check
    intro panic hresult heq
    obtain ⟨s', hrun⟩ := EntryCall.invoke_error hresult
    exact (swap_post.error hrun).1 (.inr (.inr (.inr heq)))

/-- A Soroswap desk touches its two tokens only. -/
theorem deskHop_contained {pool tokenIn tokenOut : Nat} (hpool : pool ≠ 0)
    (hdistinct : tokenIn ≠ tokenOut) (deadline : UInt64) :
    (deskHop pool tokenIn tokenOut).Contained deskEnv deadline := by
  intro amount outMin venues ledger outcome hok t hin hout
  rw [desk_settle_eq (deskHop_run pool tokenIn tokenOut)] at hok
  have hmoves : ∀ traded, (deskHop pool tokenIn tokenOut).deskTrade amount venues ledger =
      .ok traded → traded.1.balance t deskEnv.contract = ledger.balance t deskEnv.contract := by
    intro traded htraded
    rw [deskTrade_moves htraded, (deskHop_atDesk hpool hdistinct).moves_contract, if_neg hout,
      if_neg hin]
    omega
  cases htrade : (deskHop pool tokenIn tokenOut).deskTrade amount venues ledger with
  | error e =>
      rw [htrade] at hok
      cases hok
  | ok traded =>
      rw [htrade] at hok
      dsimp only at hok
      split at hok
      · cases hok
      · cases hok
        exact hmoves _ htrade

/-- A third of 100 units of token 10 and the rest of them, both for token 13 by way of token 11:
the second strand comes back to 11 before it leaves. -/
def deskPair : SwapArgs :=
  ⟨⟨1⟩, ⟨10⟩, ⟨13⟩, .ofUInt32 100, .ofUInt32 90, 0,
    .pair ⟨1, .pair (deskHop 20 10 11) (deskHop 22 11 13)⟩
      ⟨2, ⟨[deskHop 20 10 11, deskHop 21 11 10, deskHop 20 10 11, deskHop 22 11 13], by simp⟩⟩⟩

theorem strand_isolation_desk :
    ∃ accounts, Isolated deskEnv.contract deskPair
      (venueRecords (deskPair.call.invoke deskEnv (deskWorld 5)).trace) 100 accounts := by
  apply (strand_isolation deskEnv deskPair (deskWorld 5)).1 100
  · decide +kernel
  · intro hop hmem
    have hedges : swapEdges deskPair.plan.val = [deskHop 20 10 11, deskHop 22 11 13,
      deskHop 20 10 11, deskHop 21 11 10, deskHop 20 10 11, deskHop 22 11 13] := rfl
    rw [hedges] at hmem
    simp only [List.mem_cons, List.not_mem_nil, or_false] at hmem
    rcases hmem with rfl | rfl | rfl | rfl | rfl | rfl <;>
      exact deskHop_contained (by decide) (by decide) _

end WowmaxStellar
