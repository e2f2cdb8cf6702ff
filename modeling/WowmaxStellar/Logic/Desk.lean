import WowmaxStellar.Logic.Honest

/-!
# A market of exchange desks

Venues that behave: every pool is a desk that takes the input it is authorised to, mints
the same amount of the output and counts its trades; asked for a minimum above that, it
refuses. What the theorems assume of venues holds of desks.

* `desk_settle` — what a call of a desk comes to;
* `desk_blind` — desks do not look at balances;
* `desk_honest` — desks are honest, with the number of trades as the state of a pool.
-/

namespace WowmaxStellar

open Runs

/-- The pull a venue is authorised to. -/
def TransferAuth.pull (auth : TransferAuth) : TokenCall :=
  .transfer auth.token auth.src auth.dst auth.amount

/-- One more trade at a desk. -/
def countTrade (trades : Address → Nat) (pool : Address) : Address → Nat :=
  Function.update trades pool (trades pool + 1)

/-- Take what is authorised, deliver `amount` of `tokenOut`, answer with `reply`. -/
def deskServe (trades : Address → Nat) (auths : List TransferAuth) (tokenOut : Option Address)
    (recipient : Address) (amount outMin : Int) (reply : Reply) : VenueRun (Address → Nat) where
  calls := auths.map TransferAuth.pull ++ tokenOut.toList.map (.mint · recipient amount)
  venues := (auths.map TransferAuth.dst).foldl countTrade trades
  reply := if amount < outMin then none else some reply

/-- The desks answer for Soroswap and for Aquarius; there are no Phoenix pools. -/
def deskVenue (trades : Address → Nat) (_ : Ledger) (auths : List TransferAuth) :
    VenueCall → VenueRun (Address → Nat)
  | .swapExactTokensForTokens _ amountIn amountOutMin path recipient _ =>
      deskServe trades auths path.val.getLast? recipient amountIn amountOutMin
        (.amounts [amountIn, amountIn])
  | .swapChained _ user swapsChain _ inAmount outMin =>
      deskServe trades auths (swapsChain.getLast?.map (·.2.2)) user inAmount outMin
        (.u128 inAmount)
  | .swap .. => ⟨[], trades, none⟩

/-- The executor at address 0, with the user at address 1 signing. -/
def deskEnv : Env (Address → Nat) where
  contract := ⟨0⟩
  accepts _ _ _ _ _ _ := true
  venue := deskVenue
  timestamp := 0
  signers := [⟨1⟩]
  contract_unsigned := by decide

/-- An edge a desk serves. -/
structure Hop.AtDesk (hop : Hop) : Prop where
  routed : hop.Routed
  venue : hop.venue = 0 ∨ hop.venue = 1
  distinct : hop.tokenIn ≠ hop.tokenOut
  target : hop.pullTarget ≠ deskEnv.contract

/-- What the desk of an edge answers. -/
def Hop.deskReply (hop : Hop) (amount : Int) : Reply :=
  if hop.venue = 0 then .amounts [amount, amount] else .u128 (asU128 amount)

section Desk

variable {hop : Hop} {amount : Int} {outMin : Option Int} {deadline : UInt64}
  {trades : Address → Nat} {ledger : Ledger}

/-- The run of a desk on the call of an edge. -/
theorem Hop.AtDesk.run (h : hop.AtDesk) (hamount : 0 ≤ amount ∧ amount ≤ i128Max)
    (hmin : 0 ≤ outMin.getD 0 ∧ outMin.getD 0 ≤ i128Max) (auths : List TransferAuth) :
    deskVenue trades ledger auths (hop.call deskEnv amount outMin deadline) =
      deskServe trades auths (some hop.tokenOut) deskEnv.contract amount (outMin.getD 0)
        (hop.deskReply amount) := by
  unfold Hop.call Hop.deskReply
  rcases h.venue with hvenue | hvenue
  · rcases h.routed with ⟨_, hpath⟩ | ⟨hother, _⟩ | hother
    · rw [if_pos hvenue, if_pos hvenue]
      unfold deskVenue
      simp only [hpath]
      rfl
    · rw [hvenue] at hother
      cases hother
    · rw [hvenue] at hother
      cases hother
  · rw [if_neg (by rw [hvenue]; decide), if_pos hvenue, if_neg (by rw [hvenue]; decide)]
    unfold deskVenue
    simp only [asU128_of_nonneg hamount.1 hamount.2, asU128_of_nonneg hmin.1 hmin.2]
    rfl

/-- The token calls of a desk: the pull goes through on its authorisation. -/
theorem tokenCalls_desk (contract token target tokenOut : Address) (amount : Int)
    (ledger : Ledger) :
    (tokenCalls contract [⟨token, contract, target, amount⟩] ledger
      [.transfer token contract target amount, .mint tokenOut contract amount]).2 =
      match ledger.transfer token contract target amount with
      | .error e => .error e
      | .ok spent => spent.credit tokenOut contract amount := by
  have hpull : tokenCall contract [⟨token, contract, target, amount⟩] ledger
      (.transfer token contract target amount) =
        (ledger.transfer token contract target amount).map
          (([⟨token, contract, target, amount⟩] : List TransferAuth).erase
            ⟨token, contract, target, amount⟩, ·) := by
    show (if contract = contract then if _ ∈ [_] then _ else _ else _) = _
    rw [if_pos rfl, if_pos (List.mem_singleton_self _)]
  unfold tokenCalls
  rw [hpull]
  cases ledger.transfer token contract target amount with
  | error e => rfl
  | ok spent =>
      show (tokenCalls contract _ spent [.mint tokenOut contract amount]).2 =
        spent.credit tokenOut contract amount
      have hmint : ∀ auths, tokenCall contract auths spent (.mint tokenOut contract amount) =
          (spent.credit tokenOut contract amount).map (auths, ·) := fun _ => rfl
      unfold tokenCalls
      rw [hmint]
      cases spent.credit tokenOut contract amount <;> rfl

/-- A trade at the desk of an edge: the pull, then the delivery. -/
def Hop.deskTrade (hop : Hop) (amount : Int) (trades : Address → Nat) (ledger : Ledger) :
    Except HostError (Ledger × (Address → Nat) × Reply) :=
  match ledger.transfer hop.tokenIn deskEnv.contract hop.pullTarget amount with
  | .error e => .error e
  | .ok spent =>
      match spent.credit hop.tokenOut deskEnv.contract amount with
      | .error e => .error e
      | .ok after => .ok (after, countTrade trades hop.pullTarget, hop.deskReply amount)

/-- A call of a desk is a trade, unless the minimum is out of reach. -/
theorem desk_settle_eq (hrun : ∀ auths,
      deskVenue trades ledger auths (hop.call deskEnv amount outMin deadline) =
        deskServe trades auths (some hop.tokenOut) deskEnv.contract amount (outMin.getD 0)
          (hop.deskReply amount)) :
    hop.settle deskEnv amount outMin deadline trades ledger =
      match hop.deskTrade amount trades ledger with
      | .error e => .error e
      | .ok outcome => if amount < outMin.getD 0 then .error .trapped else .ok outcome := by
  unfold Hop.settle Network.settle Hop.deskTrade
  simp only [show deskEnv.venue = deskVenue from rfl, hrun]
  unfold deskServe
  have hcalls := tokenCalls_desk deskEnv.contract hop.tokenIn hop.pullTarget hop.tokenOut amount
    ledger
  simp only [List.map_cons, List.map_nil, TransferAuth.pull, Option.toList_some, List.cons_append,
    List.nil_append, hcalls, List.foldl_cons, List.foldl_nil]
  cases ledger.transfer hop.tokenIn deskEnv.contract hop.pullTarget amount with
  | error e => rfl
  | ok spent =>
      dsimp only
      cases spent.credit hop.tokenOut deskEnv.contract amount with
      | error e => rfl
      | ok after =>
          by_cases hlow : amount < outMin.getD 0
          · simp only [if_pos hlow]
          · simp only [if_neg hlow]

theorem desk_settle (h : hop.AtDesk) (hamount : 0 ≤ amount ∧ amount ≤ i128Max)
    (hmin : 0 ≤ outMin.getD 0 ∧ outMin.getD 0 ≤ i128Max) :
    hop.settle deskEnv amount outMin deadline trades ledger =
      match hop.deskTrade amount trades ledger with
      | .error e => .error e
      | .ok outcome => if amount < outMin.getD 0 then .error .trapped else .ok outcome :=
  desk_settle_eq (h.run hamount hmin)

theorem desk_settle_none (h : hop.AtDesk) (hamount : 0 ≤ amount ∧ amount ≤ i128Max) :
    hop.settle deskEnv amount none deadline trades ledger = hop.deskTrade amount trades ledger := by
  have hmin : 0 ≤ (none : Option Int).getD 0 ∧ (none : Option Int).getD 0 ≤ i128Max := by decide
  have hreached : ¬ amount < (none : Option Int).getD 0 := by
    show ¬ amount < 0
    omega
  rw [desk_settle h hamount hmin]
  simp only [if_neg hreached]
  cases hop.deskTrade amount trades ledger <;> rfl

/-- The balances a trade at a desk changes. -/
def Hop.deskMoves (hop : Hop) (amount : Int) (t h : Address) : Int :=
  Ledger.share hop.tokenOut deskEnv.contract amount t h +
    Ledger.share hop.tokenIn hop.pullTarget amount t h -
    Ledger.share hop.tokenIn deskEnv.contract amount t h

theorem Hop.AtDesk.moves_contract (h : hop.AtDesk) (amount : Int) (t : Address) :
    hop.deskMoves amount t deskEnv.contract =
      (if t = hop.tokenOut then amount else 0) - if t = hop.tokenIn then amount else 0 := by
  unfold Hop.deskMoves
  rw [Ledger.share_holder, Ledger.share_holder, Ledger.share_of_ne h.target.symm, Int.add_zero]

/-- A trade that went through changed just these balances. -/
theorem deskTrade_moves {outcome : Ledger × (Address → Nat) × Reply}
    (hok : hop.deskTrade amount trades ledger = .ok outcome) (t x : Address) :
    outcome.1.balance t x = ledger.balance t x + hop.deskMoves amount t x := by
  unfold Hop.deskTrade at hok
  cases hpull : ledger.transfer hop.tokenIn deskEnv.contract hop.pullTarget amount with
  | error e =>
      rw [hpull] at hok
      cases hok
  | ok spent =>
      rw [hpull] at hok
      dsimp only at hok
      cases hmint : spent.credit hop.tokenOut deskEnv.contract amount with
      | error e =>
          rw [hmint] at hok
          cases hok
      | ok after =>
          rw [hmint] at hok
          cases hok
          rw [(Ledger.credit_ok_iff.mp hmint).2.2, (Ledger.transfer_ok hpull).2.2]
          unfold Hop.deskMoves
          omega

/-- A trade that the executor can pay for goes through or overflows a balance. -/
theorem deskTrade_covered (hamount : 0 < amount)
    (hcovered : amount ≤ ledger.balance hop.tokenIn deskEnv.contract) :
    hop.deskTrade amount trades ledger = .error .balanceOverflow ∨
      ∃ after, hop.deskTrade amount trades ledger =
        .ok (after, countTrade trades hop.pullTarget, hop.deskReply amount) := by
  unfold Hop.deskTrade
  rcases ledger.transfer_covered hop.pullTarget hamount.le hcovered with hover | ⟨spent, hspent⟩
  · rw [hover]
    exact .inl rfl
  rw [hspent]
  dsimp only
  rcases spent.credit_cases hop.tokenOut deskEnv.contract hamount.le with hover | ⟨after, hafter⟩
  · rw [hover]
    exact .inl rfl
  · rw [hafter]
    exact .inr ⟨after, rfl⟩

/-- The offer of a desk: the amount itself. -/
def deskPools : Pools Address Nat where
  pool := Hop.pullTarget
  quote hop trades amount :=
    if 0 < amount then some ⟨amount, trades + 1, hop.deskMoves amount⟩ else none

theorem deskPools_quote_eq_some {p : Nat} {quote : Quote Nat}
    (h : deskPools.quote hop p amount = some quote) :
    0 < amount ∧ quote = ⟨amount, p + 1, hop.deskMoves amount⟩ := by
  unfold deskPools at h
  dsimp only at h
  split at h
  · rename_i hpos
    exact ⟨hpos, (Option.some.inj h).symm⟩
  · cases h

/-- Desks are honest. -/
theorem desk_honest (h : hop.AtDesk) :
    deskPools.Honest deskEnv deadline (fun _ _ => True) hop where
  out_pos p amount quote hquote := by
    obtain ⟨hpos, rfl⟩ := deskPools_quote_eq_some hquote
    exact hpos
  own p amount quote hquote t := by
    obtain ⟨_, rfl⟩ := deskPools_quote_eq_some hquote
    exact h.moves_contract amount t
  settle trades ledger amount _ hamount hcovered := by
    have hquote : deskPools.quote hop (trades (deskPools.pool hop)) amount =
        some ⟨amount, trades hop.pullTarget + 1, hop.deskMoves amount⟩ := if_pos hamount
    have hmax := ledger.le_max hop.tokenIn deskEnv.contract
    rw [hquote, desk_settle_none h ⟨hamount.le, by omega⟩]
    rcases deskTrade_covered hamount hcovered with hover | ⟨after, hafter⟩
    · exact .inl hover
    · refine .inr ⟨after, hop.deskReply amount, hafter, ?_, deskTrade_moves hafter, trivial⟩
      unfold Hop.replyType Hop.deskReply
      rcases h.venue with hvenue | hvenue
      · rw [if_pos hvenue, if_pos hvenue]
        exact List.cons_ne_nil _ _
      · rw [if_neg (by rw [hvenue]; decide), if_pos hvenue, if_neg (by rw [hvenue]; decide)]
        trivial

/-- What a desk answers does not depend on the ledger. -/
theorem desk_blind : deskEnv.Blind where
  venue _ _ _ _ call _ := by cases call <;> rfl
  accepts _ _ _ _ _ _ _ _ := rfl

end Desk

/-! ## A market to trade on -/

/-- A Soroswap edge at a desk. -/
def deskHop (pool tokenIn tokenOut : Nat) : Hop :=
  .soroswap ⟨30⟩ ⟨pool⟩ ⟨tokenIn⟩ ⟨tokenOut⟩ (.pair ⟨tokenIn⟩ ⟨tokenOut⟩)

/-- Whatever amount it is asked to trade. -/
theorem deskHop_run (pool tokenIn tokenOut : Nat) {amount : Int} {outMin : Option Int}
    {deadline : UInt64} {trades : Address → Nat} {ledger : Ledger} (auths : List TransferAuth) :
    deskVenue trades ledger auths
        ((deskHop pool tokenIn tokenOut).call deskEnv amount outMin deadline) =
      deskServe trades auths (some (deskHop pool tokenIn tokenOut).tokenOut) deskEnv.contract
        amount (outMin.getD 0) ((deskHop pool tokenIn tokenOut).deskReply amount) := rfl

theorem deskHop_atDesk {pool tokenIn tokenOut : Nat} (hpool : pool ≠ 0)
    (hdistinct : tokenIn ≠ tokenOut) : (deskHop pool tokenIn tokenOut).AtDesk where
  routed := .inl ⟨rfl, rfl⟩
  venue := .inl rfl
  distinct h := hdistinct (Address.mk.inj h)
  target h := hpool (Address.mk.inj h)

/-- The user holds 1000 of token 10, the executor has some dust of token 11. -/
def deskWorld (dust : UInt32) : World (Address → Nat) where
  ledger := (Ledger.empty.set ⟨10⟩ ⟨1⟩ 1000 (by decide)).set ⟨11⟩ ⟨0⟩ dust.toNat
    ⟨Int.natCast_nonneg _, by have := dust.toNat_lt; unfold i128Max; omega⟩
  venues _ := 0

/-- Token 10 split over 11 and 12 … -/
def deskSplit : Stage :=
  ⟨⟨10⟩, ⟨[(deskHop 20 10 11).toFill 1, (deskHop 21 10 12).toFill 2], by decide⟩⟩

/-- … and both sold for 13. -/
def deskLeft : Stage := ⟨⟨11⟩, .single ((deskHop 22 11 13).toFill 1)⟩

def deskRight : Stage := ⟨⟨12⟩, .single ((deskHop 23 12 13).toFill 1)⟩

/-- The diamond of the three. -/
def deskStages : Vec Stage := ⟨[deskSplit, deskLeft, deskRight], by decide⟩

/-- 100 units of token 10 for token 13, by the given stages. -/
def deskMerge (stages : Vec Stage) : EntryCall :=
  .swapMerge ⟨1⟩ ⟨10⟩ ⟨13⟩ (.ofUInt32 100) (.ofUInt32 90) 0 stages

end WowmaxStellar
