import WowmaxStellar.Logic.Pricing
import WowmaxStellar.Logic.Desk
import Mathlib.Data.List.Permutation

/-!
# The order of the calls of a ledger

Calls of different users that go through different pools have nothing in common, although they
share the executor and its accounts: whatever order the network takes them in, each of them
comes to the same, and so does the world, with honest venues, standard tokens and no overflow of
a balance.

* `Pools.Serves.invoke_alike` — a call sees its user and its pools only;
* `invoke_comm` — two unrelated calls commute;
* `batch_order_irrelevant` — any number of them.
-/

namespace WowmaxStellar

open Runs

/-- Calls one after the other: what each of them came to, and the world at the end. -/
def runBatch {V : Type} (env : Env V) : List EntryCall → World V →
    List (EntryCall × Except Panic Int) × World V
  | [], world => ([], world)
  | call :: rest, world =>
      let invocation := call.invoke env world
      let tail := runBatch env rest invocation.world
      ((call, invocation.result) :: tail.1, tail.2)

/-- What the calls of a batch returned, if they did. -/
def receipts {V : Type} (env : Env V) (calls : List EntryCall) (world : World V) :
    List (EntryCall × Option Int) :=
  (runBatch env calls world).1.map fun receipt => (receipt.1, receipt.2.toOption)

/-- No call of a batch fails on a balance overflow. -/
def NoOverflow {V : Type} (env : Env V) (calls : List EntryCall) (world : World V) : Prop :=
  ∀ receipt ∈ (runBatch env calls world).1, receipt.2 ≠ .error (.host .balanceOverflow)

section Batch

variable {V : Type} {env : Env V}

theorem receipts_cons (call : EntryCall) (rest : List EntryCall) (world : World V) :
    receipts env (call :: rest) world =
      (call, (call.invoke env world).result.toOption) ::
        receipts env rest (call.invoke env world).world := rfl

theorem runBatch_cons_world (call : EntryCall) (rest : List EntryCall) (world : World V) :
    (runBatch env (call :: rest) world).2 =
      (runBatch env rest (call.invoke env world).world).2 := rfl

/-- No overflow in a batch is none in its first call and none in the others. -/
theorem noOverflow_cons {call : EntryCall} {rest : List EntryCall} {world : World V} :
    NoOverflow env (call :: rest) world ↔
      (call.invoke env world).result ≠ .error (.host .balanceOverflow) ∧
        NoOverflow env rest (call.invoke env world).world := by
  unfold NoOverflow
  exact List.forall_mem_cons

/-- A batch does not overflow in a part of it either. -/
theorem NoOverflow.of_append {front rest : List EntryCall} {world : World V}
    (h : NoOverflow env (front ++ rest) world) : NoOverflow env front world := by
  induction front generalizing world with
  | nil =>
      intro receipt hmem
      cases hmem
  | cons call front ih =>
      obtain ⟨hfirst, htail⟩ := noOverflow_cons.mp h
      exact noOverflow_cons.mpr ⟨hfirst, ih htail⟩

end Batch

/-- The chain as `users` find it: no token refuses a transfer, and whether the venues are ready
does not depend on what the executor and the users hold. -/
structure Market {ι P : Type} (env : Env (ι → P)) (ready : (ι → P) → Ledger → Prop)
    (users : List Address) : Prop where
  standard : env.Standard
  apart : env.contract ∉ users
  quiet : ∀ venues ledger ledger', ready venues ledger →
    (∀ t h, h ≠ env.contract → h ∉ users → ledger'.balance t h = ledger.balance t h) →
    ready venues ledger'

section Unrelated

variable {ι P : Type} {pools : Pools ι P} {env : Env (ι → P)}
  {ready : (ι → P) → Ledger → Prop} {users : List Address} {call call' : EntryCall}
  {world world' : World (ι → P)}

/-- Two calls of different users, through different pools. -/
structure Pools.Unrelated (pools : Pools ι P) (call call' : EntryCall) : Prop where
  users : call.user ≠ call'.user
  apart : ∀ i, pools.Touches call i → ¬ pools.Touches call' i

theorem Pools.Unrelated.symm (h : pools.Unrelated call call') : pools.Unrelated call' call where
  users := h.users.symm
  apart i hi hi' := h.apart i hi' hi

/-- A call finds the same in two worlds: its user's input and its pools. -/
structure SameFor (pools : Pools ι P) (call : EntryCall) (world world' : World (ι → P)) :
    Prop where
  balance : world'.ledger.balance call.tokenIn call.user =
    world.ledger.balance call.tokenIn call.user
  pools : ∀ i, pools.Touches call i → world.venues i = world'.venues i

theorem SameFor.symm (h : SameFor pools call world world') :
    SameFor pools call world' world where
  balance := h.balance.symm
  pools i hi := (h.pools i hi).symm

/-- A call changes two worlds alike: the balances by the same amounts, its own pools to the same
states, and no others. -/
structure ChangesAlike (pools : Pools ι P) (call : EntryCall)
    (world after world' after' : World (ι → P)) : Prop where
  ledger : ∀ t h, after'.ledger.balance t h - world'.ledger.balance t h =
    after.ledger.balance t h - world.ledger.balance t h
  own : ∀ i, pools.Touches call i → after'.venues i = after.venues i
  others : ∀ i, ¬ pools.Touches call i → after.venues i = world.venues i
  others' : ∀ i, ¬ pools.Touches call i → after'.venues i = world'.venues i

/-- The venues are still ready when the input is pulled. -/
theorem Market.pulled (hmarket : Market env ready users) (huser : call.user ∈ users)
    (hready : ready world.venues world.ledger) (ledger : Ledger)
    (htransfer : world.ledger.transfer call.tokenIn call.user env.contract call.amountIn =
      .ok ledger) : ready world.venues ledger := by
  refine hmarket.quiet _ _ _ hready fun t h hcontract hnot => ?_
  have hne : h ≠ call.user := fun heq => hnot (heq ▸ huser)
  rw [(Ledger.transfer_ok htransfer).2.2, Ledger.share_of_ne hcontract, Ledger.share_of_ne hne]
  omega

end Unrelated

section Batches

variable {ι P : Type} [DecidableEq ι]

/-- A plan call of one of the users, with honest venues that do not touch the users' accounts. -/
structure Pools.Serves (pools : Pools ι P) (env : Env (ι → P))
    (ready : (ι → P) → Ledger → Prop) (users : List Address) (call : EntryCall) : Prop where
  plan : call.IsPlan
  user : call.user ∈ users
  honest : ∀ hop ∈ call.edges, pools.Honest env call.deadline ready hop
  away : ∀ hop ∈ call.edges, ∀ p amount quote, pools.quote hop p amount = some quote →
    ∀ t h, h ∈ users → quote.moves t h = 0

variable {pools : Pools ι P} {env : Env (ι → P)} {ready : (ι → P) → Ledger → Prop}
  {users : List Address} {call call' : EntryCall} {world world' : World (ι → P)}

/-- A served call ends as quoted, or not at all. -/
theorem Pools.Serves.cases (h : pools.Serves env ready users call)
    (hmarket : Market env ready users) (hready : ready world.venues world.ledger)
    (hfits : (call.invoke env world).result ≠ .error (.host .balanceOverflow)) :
    (∃ outcome out, pools.quoted env call world = some outcome ∧
        (call.invoke env world).result = .ok out ∧
        Settles ready env call world out (call.invoke env world).world outcome) ∨
      (pools.quoted env call world = none ∧
        (∃ panic, (call.invoke env world).result = .error panic) ∧
        (call.invoke env world).world = world) :=
  EntryCall.invoke_cases h.plan hmarket.standard h.honest
    (hmarket.pulled h.user hready) hfits

/-- A served call leaves the venues ready. -/
theorem Pools.Serves.ready_after (h : pools.Serves env ready users call)
    (hmarket : Market env ready users) (hready : ready world.venues world.ledger)
    (hfits : (call.invoke env world).result ≠ .error (.host .balanceOverflow)) :
    ready (call.invoke env world).world.venues (call.invoke env world).world.ledger := by
  rcases h.cases hmarket hready hfits with ⟨outcome, out, -, -, hsettles⟩ | ⟨-, -, hsame⟩
  · obtain ⟨ledger, hbefore, hpaid⟩ := hsettles.ready
    refine hmarket.quiet _ _ _ hbefore fun t h' hcontract hnot => ?_
    exact hpaid t h' hcontract fun heq => hnot (heq ▸ h.user)
  · rw [hsame]
    exact hready

/-- An unrelated call goes by unseen. -/
theorem Pools.Serves.sameFor (h : pools.Serves env ready users call)
    (h' : pools.Serves env ready users call') (hunrelated : pools.Unrelated call call')
    (hmarket : Market env ready users) (hready : ready world.venues world.ledger)
    (hfits : (call.invoke env world).result ≠ .error (.host .balanceOverflow)) :
    SameFor pools call' world (call.invoke env world).world := by
  rcases h.cases hmarket hready hfits with
    ⟨outcome, out, hquoted, -, hsettles⟩ | ⟨-, -, hsame⟩
  · obtain ⟨-, hprice, -⟩ := Pools.quoted_eq_some.mp hquoted
    have hother : call'.user ≠ env.contract := fun heq => hmarket.apart (heq ▸ h'.user)
    constructor
    · rw [hsettles.ledger, Pools.price_keeps_away
        (fun hop hhop p amount quote hquote t => h.away hop hhop p amount quote hquote t _ h'.user)
        hprice]
      unfold EntryCall.pull EntryCall.payout
      rw [Ledger.share_of_ne hother, Ledger.share_of_ne hother,
        Ledger.share_of_ne hunrelated.users.symm, Ledger.share_of_ne hunrelated.users.symm]
      omega
    · intro i hi
      rw [hsettles.venues]
      exact (Pools.price_frame hprice fun htouch => hunrelated.apart i htouch hi).symm
  · rw [hsame]
    exact ⟨rfl, fun _ _ => rfl⟩

/-- What a call comes to is a matter of its user and its pools. -/
theorem Pools.Serves.invoke_alike (h : pools.Serves env ready users call)
    (hmarket : Market env ready users) (hsame : SameFor pools call world world')
    (hready : ready world.venues world.ledger) (hready' : ready world'.venues world'.ledger)
    (hfits : (call.invoke env world).result ≠ .error (.host .balanceOverflow))
    (hfits' : (call.invoke env world').result ≠ .error (.host .balanceOverflow)) :
    (call.invoke env world').result.toOption = (call.invoke env world).result.toOption ∧
      ChangesAlike pools call world (call.invoke env world).world world'
        (call.invoke env world').world := by
  rcases h.cases hmarket hready hfits with
    ⟨outcome, out, hquoted, hresult, hsettles⟩ | ⟨hquoted, ⟨panic, hresult⟩, hworld⟩
  · obtain ⟨outcome', hquoted', hmoves, hvenues⟩ :=
      Pools.quoted_local hquoted hsame.balance hsame.pools
    rcases h.cases hmarket hready' hfits' with
      ⟨outcome'', out', hquoted'', hresult', hsettles'⟩ | ⟨hnone, -⟩
    swap
    · rw [hnone] at hquoted'
      cases hquoted'
    obtain rfl : outcome' = outcome'' := Option.some.inj (hquoted'.symm.trans hquoted'')
    have hout : out' = out := by
      rw [hsettles'.out_eq, hsettles.out_eq]
      unfold Outcome.gain
      rw [hmoves]
    obtain ⟨-, hprice, -⟩ := Pools.quoted_eq_some.mp hquoted
    obtain ⟨-, hprice', -⟩ := Pools.quoted_eq_some.mp hquoted'
    refine ⟨by rw [hresult, hresult', hout], ?_, ?_, ?_, ?_⟩
    · intro t x
      rw [hsettles'.ledger, hsettles.ledger, hout, hmoves]
      omega
    · intro i hi
      rw [hsettles'.venues, hsettles.venues, hvenues i hi]
    · intro i hi
      rw [hsettles.venues, Pools.price_frame hprice hi]
    · intro i hi
      rw [hsettles'.venues, Pools.price_frame hprice' hi]
  · rcases h.cases hmarket hready' hfits' with
      ⟨outcome', out', hquoted', -⟩ | ⟨-, ⟨panic', hresult'⟩, hworld'⟩
    · obtain ⟨outcome, hsome, -⟩ :=
        Pools.quoted_local hquoted' hsame.symm.balance hsame.symm.pools
      rw [hquoted] at hsome
      cases hsome
    · rw [hresult, hresult', hworld, hworld']
      refine ⟨rfl, ?_, ?_, fun _ _ => rfl, fun _ _ => rfl⟩
      · intro t x
        omega
      · intro i hi
        exact (hsame.pools i hi).symm

/-- **Unrelated calls commute.** -/
theorem invoke_comm (h : pools.Serves env ready users call)
    (h' : pools.Serves env ready users call') (hunrelated : pools.Unrelated call call')
    (hmarket : Market env ready users) (hready : ready world.venues world.ledger)
    (hoverflow : NoOverflow env [call, call'] world)
    (hoverflow' : NoOverflow env [call', call] world) :
    (call'.invoke env (call.invoke env world).world).result.toOption =
        (call'.invoke env world).result.toOption ∧
      (call.invoke env (call'.invoke env world).world).result.toOption =
        (call.invoke env world).result.toOption ∧
      (call'.invoke env (call.invoke env world).world).world =
        (call.invoke env (call'.invoke env world).world).world := by
  have hfits := hoverflow _ (List.mem_cons_self ..)
  have hsecond := hoverflow _ (List.mem_cons_of_mem _ (List.mem_cons_self ..))
  have hfits' := hoverflow' _ (List.mem_cons_self ..)
  have hsecond' := hoverflow' _ (List.mem_cons_of_mem _ (List.mem_cons_self ..))
  obtain ⟨hresult, halike⟩ := h'.invoke_alike hmarket
    (h.sameFor h' hunrelated hmarket hready hfits) hready
    (h.ready_after hmarket hready hfits) hfits' hsecond
  obtain ⟨hresult', halike'⟩ := h.invoke_alike hmarket
    (h'.sameFor h hunrelated.symm hmarket hready hfits') hready
    (h'.ready_after hmarket hready hfits') hfits hsecond'
  refine ⟨hresult, hresult', ?_⟩
  have hledger : (call'.invoke env (call.invoke env world).world).world.ledger =
      (call.invoke env (call'.invoke env world).world).world.ledger := by
    ext t x
    have hfirst := halike.ledger t x
    have hthen := halike'.ledger t x
    omega
  have hvenues : (call'.invoke env (call.invoke env world).world).world.venues =
      (call.invoke env (call'.invoke env world).world).world.venues := by
    funext i
    by_cases hi : pools.Touches call i
    · rw [halike'.own i hi, halike.others' i (hunrelated.apart i hi)]
    · rw [halike'.others' i hi]
      by_cases hi' : pools.Touches call' i
      · exact halike.own i hi'
      · rw [halike.others' i hi', halike.others i hi', halike'.others i hi]
  exact World.ext hledger hvenues

/-- **Order of the calls.** With honest venues and standard tokens, plan calls of different users
through different pools come to the same in every order in which the network takes them: each
returns the same or fails, and they leave the same world, unless a balance overflows. -/
theorem batch_order_irrelevant (pools : Pools ι P) (ready : (ι → P) → Ledger → Prop)
    (env : Env (ι → P)) (users : List Address) {calls calls' : List EntryCall}
    {world : World (ι → P)} (hperm : calls.Perm calls') (hmarket : Market env ready users)
    (hserves : ∀ call ∈ calls, pools.Serves env ready users call)
    (hunrelated : calls.Pairwise pools.Unrelated) (hready : ready world.venues world.ledger)
    (hfits : ∀ order, order.Perm calls → NoOverflow env order world) :
    (receipts env calls world).Perm (receipts env calls' world) ∧
      (runBatch env calls world).2 = (runBatch env calls' world).2 := by
  induction hperm generalizing world with
  | nil => exact ⟨.nil, rfl⟩
  | @cons call _ _ _ ih =>
      have hcall := hserves call (List.mem_cons_self ..)
      have hfirst := (noOverflow_cons.mp (hfits _ (.refl _))).1
      have hrest := ih (fun c hc => hserves c (List.mem_cons_of_mem call hc))
        (List.pairwise_cons.mp hunrelated).2 (hcall.ready_after hmarket hready hfirst)
        fun order horder => (noOverflow_cons.mp (hfits _ (horder.cons call))).2
      rw [receipts_cons, receipts_cons]
      exact ⟨hrest.1.cons _, hrest.2⟩
  | swap call call' rest =>
      -- the two first calls commute, and what follows finds the same world
      have hcall := hserves call (List.mem_cons_of_mem _ (List.mem_cons_self ..))
      have hcall' := hserves call' (List.mem_cons_self ..)
      have hpair := (List.pairwise_cons.mp hunrelated).1 call (List.mem_cons_self ..)
      have hfits' : NoOverflow env ([call', call] ++ rest) world := hfits _ (.refl _)
      have hfits'' : NoOverflow env ([call, call'] ++ rest) world := hfits _ (.swap ..)
      obtain ⟨hresult, hresult', hworld⟩ := invoke_comm hcall' hcall hpair hmarket hready
        hfits'.of_append hfits''.of_append
      rw [receipts_cons, receipts_cons, receipts_cons, receipts_cons, hresult, hresult', hworld]
      refine ⟨.swap .., ?_⟩
      rw [runBatch_cons_world, runBatch_cons_world, runBatch_cons_world, runBatch_cons_world,
        hworld]
  | trans hfirst _ ih ih' =>
      obtain ⟨hreceipts, hworld⟩ := ih hserves hunrelated hready hfits
      obtain ⟨hreceipts', hworld'⟩ := ih' (fun c hc => hserves c (hfirst.symm.subset hc))
        (hunrelated.perm hfirst fun h => h.symm) hready fun order horder =>
          hfits order (horder.trans hfirst.symm)
      exact ⟨hreceipts.trans hreceipts', hworld.trans hworld'⟩

end Batches

/-- Two users have signed. -/
def deskPairEnv : Env (Address → Nat) where
  toNetwork := deskEnv.toNetwork
  timestamp := 0
  signers := [⟨1⟩, ⟨2⟩]
  contract_unsigned := by decide

theorem deskFunds : 0 ≤ (500 : Int) ∧ 500 ≤ i128Max := by decide

/-- One of them holds token 10, the other one token 12. -/
def deskPairWorld : World (Address → Nat) where
  ledger := (deskWorld 0).ledger.set ⟨12⟩ ⟨2⟩ 500 deskFunds
  venues _ := 0

/-- 100 units of token 10 for token 13, at desk 20. -/
def deskFirstCall : EntryCall :=
  .swap ⟨1⟩ ⟨10⟩ ⟨13⟩ (.ofUInt32 100) (.ofUInt32 90) 0 (.single ⟨1, .single (deskHop 20 10 13)⟩)

/-- 50 units of token 12 for token 13, at desk 21. -/
def deskSecondCall : EntryCall :=
  .swapMerge ⟨2⟩ ⟨12⟩ ⟨13⟩ (.ofUInt32 50) (.ofUInt32 0) 0
    (.single ⟨⟨12⟩, .single ((deskHop 21 12 13).toFill 1)⟩)

/-- A desk moves nothing but its own balance and the executor's. -/
theorem desk_away {hop : Hop} {p : Nat} {amount : Int} {quote : Quote Nat}
    (hquote : deskPools.quote hop p amount = some quote) {h : Address}
    (hcontract : h ≠ deskEnv.contract) (htarget : h ≠ hop.pullTarget) (t : Address) :
    quote.moves t h = 0 := by
  obtain ⟨-, rfl⟩ := deskPools_quote_eq_some hquote
  show hop.deskMoves _ _ _ = 0
  unfold Hop.deskMoves
  rw [Ledger.share_of_ne hcontract, Ledger.share_of_ne htarget, Ledger.share_of_ne hcontract]
  rfl

/-- A plan call of a user over a single desk is served. -/
theorem desk_serves {call : EntryCall} (pool tokenIn tokenOut : Nat) (hplan : call.IsPlan)
    (huser : call.user ∈ [Address.mk 1, Address.mk 2])
    (hedges : call.edges = [deskHop pool tokenIn tokenOut]) (hpool : 2 < pool)
    (hdistinct : tokenIn ≠ tokenOut) :
    deskPools.Serves deskPairEnv (fun _ _ => True) [⟨1⟩, ⟨2⟩] call where
  plan := hplan
  user := huser
  honest hop hmem := by
    rw [hedges] at hmem
    obtain rfl := List.mem_singleton.mp hmem
    have hdesk : deskPools.Honest deskEnv call.deadline (fun _ _ => True)
        (deskHop pool tokenIn tokenOut) := desk_honest (deskHop_atDesk (by omega) hdistinct)
    exact ⟨hdesk.out_pos, hdesk.own, hdesk.settle⟩
  away hop hmem p amount quote hquote t h huser := by
    rw [hedges] at hmem
    obtain rfl := List.mem_singleton.mp hmem
    refine desk_away hquote ?_ ?_ t
    · rintro rfl
      exact absurd huser (by decide)
    · rintro rfl
      have hdesk : Address.mk pool ∈ [Address.mk 1, Address.mk 2] := huser
      simp only [List.mem_cons, List.not_mem_nil, or_false, Address.mk.injEq] at hdesk
      omega

/-- The two users may be served in either order. -/
theorem batch_order_irrelevant_desk :
    (receipts deskPairEnv [deskFirstCall, deskSecondCall] deskPairWorld).Perm
        (receipts deskPairEnv [deskSecondCall, deskFirstCall] deskPairWorld) ∧
      (runBatch deskPairEnv [deskFirstCall, deskSecondCall] deskPairWorld).2 =
        (runBatch deskPairEnv [deskSecondCall, deskFirstCall] deskPairWorld).2 := by
  refine batch_order_irrelevant deskPools (fun _ _ => True) deskPairEnv [⟨1⟩, ⟨2⟩] (.swap ..)
    ⟨fun _ _ _ _ _ _ => rfl, by decide, fun _ _ _ _ _ => trivial⟩ ?_ ?_ trivial ?_
  · intro call hmem
    simp only [List.mem_cons, List.not_mem_nil, or_false] at hmem
    rcases hmem with rfl | rfl
    · exact desk_serves 20 10 13 trivial (by decide) rfl (by decide) (by decide)
    · exact desk_serves 21 12 13 trivial (by decide) rfl (by decide) (by decide)
  · refine List.pairwise_pair.mpr ⟨by decide, ?_⟩
    rintro i ⟨hop, hmem, rfl⟩ ⟨hop', hmem', heq⟩
    obtain rfl : hop = deskHop 20 10 13 := List.mem_singleton.mp hmem
    obtain rfl : hop' = deskHop 21 12 13 := List.mem_singleton.mp hmem'
    exact absurd heq (by decide)
  · intro order horder
    rcases List.perm_pair.mp horder with rfl | rfl
    · unfold NoOverflow
      decide +kernel
    · unfold NoOverflow
      decide +kernel

end WowmaxStellar
