import WowmaxStellar.Logic.Steps
import WowmaxStellar.Router.Entry

/-!
# Legs: one measured venue call

Every site of the executor that calls a venue has the same shape: authorise and call,
check that the input was consumed, measure the output. `measuredLeg` is that shape,
`Leg.Ran` is everything a completed leg establishes, and `LegEvents` is everything a
leg, completed or not, may leave in the trace.

* `measuredLeg_post` — the spec of a leg;
* `execHop_cases` — an edge of a plan is a leg, or it panics before its call;
* `swapSoroswap_eq`, … — the single-purpose entry points are made of legs.
-/

namespace WowmaxStellar

open Runs

variable {V : Type}

/-! ## The call of an edge -/

/-- The routing data of an edge agrees with its two tokens, and its venue is known. -/
def Hop.Routed (hop : Hop) : Prop :=
  (hop.venue = 0 ∧ hop.soroswapPath.val = [hop.tokenIn, hop.tokenOut]) ∨
    (hop.venue = 1 ∧ (hop.aquaPoolTokens.val = [hop.tokenIn, hop.tokenOut] ∨
      hop.aquaPoolTokens.val = [hop.tokenOut, hop.tokenIn])) ∨
    hop.venue = 2

/-- The venue call of an edge. The plan executors pass no minimum. -/
def Hop.call (env : Env V) (hop : Hop) (amount : Int) (outMin : Option Int)
    (deadline : UInt64) : VenueCall :=
  if hop.venue = 0 then
    .swapExactTokensForTokens hop.soroswapRouter amount (outMin.getD 0) hop.soroswapPath
      env.contract (venueDeadline deadline)
  else if hop.venue = 1 then
    .swapChained hop.aquaRouter env.contract
      [(hop.aquaPoolTokens, hop.aquaPoolIndex, hop.tokenOut)] hop.tokenIn (asU128 amount)
      (asU128 (outMin.getD 0))
  else
    .swap hop.pool env.contract hop.tokenIn amount outMin none
      (if deadline = 0 then none else some deadline) none

/-- The outcome of the call of an edge, as a leg makes it. -/
def Hop.settle (env : Env V) (hop : Hop) (amount : Int) (outMin : Option Int)
    (deadline : UInt64) (venues : V) (ledger : Ledger) : Except HostError (Ledger × V × Reply) :=
  env.settle venues ledger [⟨hop.tokenIn, env.contract, hop.pullTarget, amount⟩]
    (hop.call env amount outMin deadline)

/-- The reply type of an edge's venue. -/
def Hop.replyType (hop : Hop) : ReplyType :=
  if hop.venue = 0 then .amounts else if hop.venue = 1 then .u128 else .i128

/-- The call of an edge, with the authorisation in front of it. -/
def Hop.authorizedCall (env : Env V) (hop : Hop) (amount : Int) (outMin : Option Int)
    (deadline : UInt64) : Exec V Unit :=
  WowmaxStellar.authorizedCall env hop.tokenIn hop.pullTarget amount
    (hop.call env amount outMin deadline) hop.replyType

/-! ## The spec of a leg -/

/-- Call the venue, check the consumption against `srcBefore`, measure the output
against `outBefore`. `site` is the panic of a leg without output. -/
def measuredLeg (env : Env V) (hop : Hop) (amount : Int) (outMin : Option Int)
    (deadline : UInt64) (srcBefore outBefore : Int) (site : Guard) : Exec V Int := do
  hop.authorizedCall env amount outMin deadline
  requireConsumed env hop.tokenIn srcBefore amount
  let outAfter ← balance hop.tokenOut env.contract
  let out ← checkedSub outAfter outBefore
  panicIf (out ≤ 0) site
  pure out

/-- A completed leg: the edge, what the venue was handed, what it delivered, and the
record of its call. -/
structure Leg where
  hop : Hop
  amount : Int
  out : Int
  record : VenueRecord

/-- The record of a call of `hop`, started from `ledger`. -/
def Hop.Handed (env : Env V) (deadline : UInt64) (hop : Hop) (amount : Int) (ledger : Ledger)
    (record : VenueRecord) : Prop :=
  ∃ outMin, WowmaxStellar.Handed env hop.tokenIn hop.pullTarget amount
    (hop.call env amount outMin deadline) ledger record

/-- What a completed leg from `s` to `s'` establishes. -/
structure Leg.Ran (env : Env V) (deadline : UInt64) (leg : Leg) (s s' : State V) : Prop where
  out_nonneg : 0 ≤ leg.out
  handed : leg.hop.Handed env deadline leg.amount s.ledger leg.record
  after : leg.record.after = s'.ledger
  auths : s'.auths = []
  trace : s'.trace = s.trace ++ [.authorize leg.record.auths, .invoke leg.record,
    .balance leg.hop.tokenIn env.contract, .balance leg.hop.tokenOut env.contract]
  taken : s'.ledger.balance leg.hop.tokenIn env.contract =
    s.ledger.balance leg.hop.tokenIn env.contract - leg.amount
  delivered : s'.ledger.balance leg.hop.tokenOut env.contract =
    s.ledger.balance leg.hop.tokenOut env.contract + leg.out
  raised : ∀ t, t ≠ leg.hop.tokenIn →
    s.ledger.balance t env.contract ≤ s'.ledger.balance t env.contract
  settled : ∃ outMin outcome, leg.hop.settle env leg.amount outMin deadline s.venues s.ledger =
    .ok outcome ∧ outcome.1 = s'.ledger

/-- What a leg may leave in the trace, up to the point where it stopped. -/
inductive LegEvents (env : Env V) (deadline : UInt64) (hop : Hop) (amount : Int)
    (ledger : Ledger) : List Event → Prop
  | called {record : VenueRecord} (handed : hop.Handed env deadline amount ledger record) :
      LegEvents env deadline hop amount ledger [.authorize record.auths, .invoke record]
  | checked {record : VenueRecord} (handed : hop.Handed env deadline amount ledger record) :
      LegEvents env deadline hop amount ledger
        [.authorize record.auths, .invoke record, .balance hop.tokenIn env.contract]
  | measured {record : VenueRecord} (handed : hop.Handed env deadline amount ledger record) :
      LegEvents env deadline hop amount ledger
        [.authorize record.auths, .invoke record, .balance hop.tokenIn env.contract,
          .balance hop.tokenOut env.contract]

/-- The panics of a leg; `site` is the one of a leg without output. -/
def LegPanic (site : Guard) (panic : Panic) : Prop :=
  CallPanic panic ∨ panic = .guard .inputNotConsumed ∨ panic = .guard site

/-- The last ledger of a call is one of its moments, or the one it started from. -/
theorem VenueRecord.after_mem (record : VenueRecord) :
    record.after ∈ record.moments ∨ record.after = record.before := by
  unfold VenueRecord.after
  cases hlast : record.moments.getLast? with
  | none => exact .inr rfl
  | some ledger => exact .inl (List.mem_of_getLast? hlast)

/-- At the end of its call, too, a venue has at most taken what it was handed. -/
theorem Handed.floor_after {env : Env V} {token target : Address} {amount : Int}
    {call : VenueCall} {ledger : Ledger} {record : VenueRecord}
    (h : Handed env token target amount call ledger record) (hamount : 0 ≤ amount)
    (t : Address) :
    ledger.balance t env.contract - (if t = token then amount else 0) ≤
      record.after.balance t env.contract := by
  rcases record.after_mem with hmem | hbefore
  · exact h.floor _ hmem t
  · rw [hbefore, h.before]
    split <;> omega

/-- A leg that returns `gain` ran, and `gain` is what the balance rose by since
`outBefore` was read. -/
theorem measuredLeg_post {env : Env V} {hop : Hop} {amount : Int} {outMin : Option Int}
    {deadline : UInt64} {site : Guard} {s : State V} {srcBefore outBefore : Int}
    (hamount : 0 ≤ amount) (hdistinct : hop.tokenIn ≠ hop.tokenOut)
    (hsrc : srcBefore = s.ledger.balance hop.tokenIn env.contract)
    (hout : 0 ≤ outBefore ∧ outBefore ≤ i128Max) :
    Post (measuredLeg env hop amount outMin deadline srcBefore outBefore site) s
      (fun gain s' => 0 < gain ∧ gain = s'.ledger.balance hop.tokenOut env.contract - outBefore ∧
        ∃ out record, Leg.Ran env deadline ⟨hop, amount, out, record⟩ s s')
      (fun panic s' => LegPanic site panic ∧ ∃ events, s'.trace = s.trace ++ events ∧
        LegEvents env deadline hop amount s.ledger events) := by
  subst hsrc
  unfold measuredLeg Hop.authorizedCall
  refine post_authorizedCall_bind hamount ?_ ?_
  · intro record panic s' hhanded hpanic htrace
    exact ⟨.inl hpanic, _, htrace, .called ⟨outMin, hhanded⟩⟩
  · rintro record s1 hhanded hafter hauths ⟨venues, reply, hsettle⟩ htrace
    refine post_requireConsumed_bind (s.ledger.balance_bounds hop.tokenIn env.contract) ?_ ?_
    · refine ⟨.inr (.inl rfl), _, ?_, .checked ⟨outMin, hhanded⟩⟩
      simp only [State.served_trace, htrace, List.append_assoc, List.cons_append,
        List.nil_append]
    · intro hconsumed
      -- the venue could take the authorised amount of the input and nothing else
      have hraised : ∀ t, t ≠ hop.tokenIn →
          s.ledger.balance t env.contract ≤ s1.ledger.balance t env.contract := by
        intro t hne
        have hfloor := hhanded.floor_after hamount t
        rw [if_neg hne, hafter] at hfloor
        omega
      have hgain := hraised hop.tokenOut hdistinct.symm
      have htrace2 : ((s1.served (.balance hop.tokenIn env.contract)).served
          (.balance hop.tokenOut env.contract)).trace =
          s.trace ++ [.authorize record.auths, .invoke record,
            .balance hop.tokenIn env.contract, .balance hop.tokenOut env.contract] := by
        simp only [State.served_trace, htrace, List.append_assoc, List.cons_append,
          List.nil_append]
      refine post_gain_bind hout ?_
      refine post_panicIf_bind ?_ ?_
      · intro _
        exact ⟨.inr (.inr rfl), _, htrace2, .measured ⟨outMin, hhanded⟩⟩
      · intro hpos
        refine .pure ⟨by omega, rfl, s1.ledger.balance hop.tokenOut env.contract -
          s.ledger.balance hop.tokenOut env.contract, record, ?_⟩
        exact
          { out_nonneg := by show 0 ≤ _ - _; omega
            handed := ⟨outMin, hhanded⟩
            after := hafter
            auths := rfl
            trace := htrace2
            taken := by simp only [State.served_ledger]; omega
            delivered := by simp only [State.served_ledger]; omega
            raised := hraised
            settled := by
              rw [hhanded.auths] at hsettle
              exact ⟨outMin, _, hsettle, rfl⟩ }

/-! ## Edges of a plan are legs -/

/-- The guards an edge executor may stop at before it calls the venue. -/
def EdgeGuard (site : Guard) : Prop :=
  site ∈ [Guard.hopAmountNotPositive, .soroswapPathLength, .soroswapPathEndpoints,
    .aquaPoolLength, .aquaPoolTokens, .badVenue]

instance (site : Guard) : Decidable (EdgeGuard site) :=
  inferInstanceAs (Decidable (_ ∈ _))

theorem panicIf_of_not {c : Prop} [Decidable c] {site : Guard} (hc : ¬ c) :
    (panicIf c site : Exec V Unit) = pure () := if_neg hc

theorem panicIf_of {c : Prop} [Decidable c] {site : Guard} (hc : c) :
    (panicIf c site : Exec V Unit) = throw (.guard site) := if_pos hc

/-- `x` stops at a guard of an edge executor, whatever the state. -/
def StopsAtGuard (x : Exec V Unit) : Prop :=
  ∃ site, EdgeGuard site ∧ ∀ s, x s = .error (.guard site) s

theorem stopsAtGuard_throw {site : Guard} (hsite : EdgeGuard site) :
    StopsAtGuard (throw (.guard site) : Exec V Unit) :=
  ⟨site, hsite, fun _ => rfl⟩

theorem stopsAtGuard_throw_bind {α : Type} {site : Guard} (hsite : EdgeGuard site)
    (f : α → Exec V Unit) : StopsAtGuard (throw (.guard site) >>= f) :=
  ⟨site, hsite, fun _ => rfl⟩

private theorem pair_of_getElem? {path : Vec Address} {a b : Address}
    (hlen : path.len = 2) (h0 : path.val[0]? = some a) (h1 : path.val[1]? = some b) :
    path.val = [a, b] := by
  unfold Vec.len at hlen
  match hval : path.val, hlen with
  | [x, y], _ =>
      rw [hval] at h0 h1
      simp only [List.getElem?_cons_zero, Option.some.injEq, List.getElem?_cons_succ] at h0 h1
      rw [h0, h1]

section EdgeExecutors

variable (env : Env V)

/-- The Soroswap edge is called exactly on a positive amount and a path that is the
pair itself. -/
theorem execSoroswapEdge_cases (router pool tokenIn tokenOut : Address) (amount : Int)
    (path : Vec Address) (deadline : UInt64) :
    (0 < amount ∧ path.val = [tokenIn, tokenOut] ∧
      execSoroswapEdge env router pool tokenIn tokenOut amount path deadline =
        callSoroswap env router pool tokenIn amount 0 path deadline) ∨
    (¬ (0 < amount ∧ path.val = [tokenIn, tokenOut]) ∧
      StopsAtGuard (execSoroswapEdge env router pool tokenIn tokenOut amount path deadline)) := by
  unfold execSoroswapEdge requireSoroswapPath
  by_cases hamount : amount ≤ 0
  · rw [panicIf_of hamount]
    exact .inr ⟨fun h => by omega, stopsAtGuard_throw_bind (by decide) _⟩
  rw [panicIf_of_not hamount, pure_bind]
  by_cases hlen : path.len ≠ 2
  · rw [panicIf_of hlen]
    refine .inr ⟨?_, stopsAtGuard_throw_bind (by decide) _⟩
    rintro ⟨_, hpath⟩
    exact hlen (by unfold Vec.len; rw [hpath]; rfl)
  rw [panicIf_of_not hlen, pure_bind]
  by_cases hends : path.val[0]? ≠ some tokenIn ∨ path.val[1]? ≠ some tokenOut
  · rw [panicIf_of hends]
    refine .inr ⟨?_, stopsAtGuard_throw_bind (by decide) _⟩
    rintro ⟨_, hpath⟩
    rw [hpath] at hends
    simp at hends
  · rw [panicIf_of_not hends, pure_bind]
    simp only [not_or, not_not] at hends
    exact .inl ⟨by omega, pair_of_getElem? (not_not.mp hlen) hends.1 hends.2, rfl⟩

/-- The Aquarius edge is called exactly on a positive amount and pool tokens that are
the pair in either order. -/
theorem execAquaEdge_cases (aquaRouter : Address) (poolTokens : Vec Address)
    (poolIndex : BytesN32) (tokenIn tokenOut : Address) (amount : Int) :
    (0 < amount ∧ (poolTokens.val = [tokenIn, tokenOut] ∨ poolTokens.val = [tokenOut, tokenIn]) ∧
      execAquaEdge env aquaRouter poolTokens poolIndex tokenIn tokenOut amount =
        callAqua env aquaRouter poolTokens poolIndex tokenIn tokenOut amount 0) ∨
    (¬ (0 < amount ∧
        (poolTokens.val = [tokenIn, tokenOut] ∨ poolTokens.val = [tokenOut, tokenIn])) ∧
      StopsAtGuard (execAquaEdge env aquaRouter poolTokens poolIndex tokenIn tokenOut
        amount)) := by
  unfold execAquaEdge requireAquaTokens
  by_cases hamount : amount ≤ 0
  · rw [panicIf_of hamount]
    exact .inr ⟨fun h => by omega, stopsAtGuard_throw_bind (by decide) _⟩
  rw [panicIf_of_not hamount, pure_bind]
  by_cases hlen : poolTokens.len ≠ 2
  · rw [panicIf_of hlen]
    refine .inr ⟨?_, stopsAtGuard_throw_bind (by decide) _⟩
    rintro ⟨_, htokens⟩
    refine hlen ?_
    unfold Vec.len
    rcases htokens with htokens | htokens <;> rw [htokens] <;> rfl
  rw [panicIf_of_not hlen, pure_bind]
  by_cases hpair : ¬ ((poolTokens.val[0]? = some tokenIn ∧ poolTokens.val[1]? = some tokenOut) ∨
      (poolTokens.val[0]? = some tokenOut ∧ poolTokens.val[1]? = some tokenIn))
  · rw [panicIf_of hpair]
    refine .inr ⟨?_, stopsAtGuard_throw_bind (by decide) _⟩
    rintro ⟨_, htokens⟩
    refine hpair ?_
    rcases htokens with htokens | htokens <;> rw [htokens] <;> simp
  · rw [panicIf_of_not hpair, pure_bind]
    refine .inl ⟨by omega, ?_, rfl⟩
    rcases not_not.mp hpair with ⟨ha, hb⟩ | ⟨ha, hb⟩
    · exact .inl (pair_of_getElem? (not_not.mp hlen) ha hb)
    · exact .inr (pair_of_getElem? (not_not.mp hlen) ha hb)

/-- An edge with a positive amount and agreeing routing data is an authorised call;
any other edge panics before it does anything. -/
theorem execHop_cases (hop : Hop) (amount : Int) (deadline : UInt64) :
    (0 < amount ∧ hop.Routed ∧
      execHop env hop amount deadline = hop.authorizedCall env amount none deadline) ∨
    (¬ (0 < amount ∧ hop.Routed) ∧ StopsAtGuard (execHop env hop amount deadline)) := by
  unfold execHop Hop.Routed Hop.authorizedCall Hop.pullTarget Hop.call Hop.replyType
  by_cases h0 : hop.venue = 0
  · have hne1 : (0 : UInt32) ≠ 1 := by decide
    have hne2 : (0 : UInt32) ≠ 2 := by decide
    simp only [h0, if_true, true_and, hne1, hne2, if_false, false_and, or_false]
    exact execSoroswapEdge_cases env _ _ _ _ amount _ deadline
  by_cases h1 : hop.venue = 1
  · have hne0 : (1 : UInt32) ≠ 0 := by decide
    have hne2 : (1 : UInt32) ≠ 2 := by decide
    simp only [h1, hne0, hne2, if_true, true_and, if_false, false_and, or_false, false_or]
    exact execAquaEdge_cases env _ _ _ _ _ amount
  by_cases h2 : hop.venue = 2
  · have hne0 : (2 : UInt32) ≠ 0 := by decide
    have hne1 : (2 : UInt32) ≠ 1 := by decide
    simp only [h2, hne0, hne1, if_true, if_false, false_and, false_or, and_true, true_and]
    unfold execPhoenixEdge
    by_cases hamount : amount ≤ 0
    · rw [panicIf_of hamount]
      exact .inr ⟨by omega, stopsAtGuard_throw_bind (by decide) _⟩
    · rw [panicIf_of_not hamount, pure_bind]
      exact .inl ⟨by omega, rfl⟩
  · simp only [h0, h1, h2, if_false, false_and, or_false, and_false]
    exact .inr ⟨not_false, stopsAtGuard_throw (by decide)⟩

/-- What `runHop` and `runFill` do once they have taken their two readings. -/
def measuredEdge (deadline : UInt64) (hop : Hop) (amount srcBefore outBefore : Int)
    (site : Guard) : Exec V Int := do
  execHop env hop amount deadline
  requireConsumed env hop.tokenIn srcBefore amount
  let outAfter ← balance hop.tokenOut env.contract
  let out ← checkedSub outAfter outBefore
  panicIf (out ≤ 0) site
  pure out

theorem runHop_eq (deadline : UInt64) (hop : Hop) (amount : Int) :
    runHop env deadline hop amount = (do
      let outBefore ← balance hop.tokenOut env.contract
      let srcBefore ← balance hop.tokenIn env.contract
      measuredEdge env deadline hop amount srcBefore outBefore .hopNoOutput) := rfl

theorem runFill_eq (deadline : UInt64) (stageToken : Address) (fill : Fill) (amount : Int) :
    runFill env deadline stageToken fill amount = (do
      let srcBefore ← balance stageToken env.contract
      let outBefore ← balance fill.tokenOut env.contract
      measuredEdge env deadline (fill.toHop stageToken) amount srcBefore outBefore
        .fillNoOutput) := rfl

/-- A hop that is fed nothing panics. -/
theorem runHop_of_nonpos (deadline : UInt64) (hop : Hop) {amount : Int} (hamount : amount ≤ 0)
    (s : State V) : ∃ site s', runHop env deadline hop amount s = .error (.guard site) s' := by
  rcases execHop_cases env hop amount deadline with ⟨hpos, _⟩ | ⟨_, site, _, hrun⟩
  · omega
  · rw [runHop_eq]
    exact ⟨site, _, bind_of_error (x := execHop env hop amount deadline)
      (s := (s.served (.balance hop.tokenOut env.contract)).served
        (.balance hop.tokenIn env.contract)) (hrun _)⟩

theorem measuredEdge_cases (deadline : UInt64) (hop : Hop) (amount srcBefore outBefore : Int)
    (site : Guard) :
    (0 < amount ∧ hop.Routed ∧ measuredEdge env deadline hop amount srcBefore outBefore site =
      measuredLeg env hop amount none deadline srcBefore outBefore site) ∨
    (¬ (0 < amount ∧ hop.Routed) ∧ ∃ guard, EdgeGuard guard ∧ ∀ s,
      measuredEdge env deadline hop amount srcBefore outBefore site s =
        .error (.guard guard) s) := by
  rcases execHop_cases env hop amount deadline with ⟨hpos, hrouted, heq⟩ | ⟨hnot, hstop⟩
  · refine .inl ⟨hpos, hrouted, ?_⟩
    unfold measuredEdge
    rw [heq]
    rfl
  · obtain ⟨guard, hguard, hrun⟩ := hstop
    exact .inr ⟨hnot, guard, hguard, fun s => bind_of_error (hrun s)⟩

/-- An edge that agrees with its tokens runs its leg. -/
theorem measuredEdge_of_routed {deadline : UInt64} {hop : Hop} {amount srcBefore outBefore : Int}
    {site : Guard} (hpos : 0 < amount) (hrouted : hop.Routed) :
    measuredEdge env deadline hop amount srcBefore outBefore site =
      measuredLeg env hop amount none deadline srcBefore outBefore site := by
  rcases measuredEdge_cases env deadline hop amount srcBefore outBefore site with
    ⟨_, _, heq⟩ | ⟨hnot, _⟩
  · exact heq
  · exact absurd ⟨hpos, hrouted⟩ hnot

/-- An edge that does not agree with its tokens panics. -/
theorem measuredEdge_of_not_routed {deadline : UInt64} {hop : Hop}
    {amount srcBefore outBefore : Int} {site : Guard} (hrouted : ¬ hop.Routed) (s : State V) :
    ∃ panic s', measuredEdge env deadline hop amount srcBefore outBefore site s =
      .error panic s' := by
  rcases measuredEdge_cases env deadline hop amount srcBefore outBefore site with
    ⟨_, hyes, _⟩ | ⟨_, guard, _, hrun⟩
  · exact absurd hyes hrouted
  · exact ⟨_, _, hrun s⟩

end EdgeExecutors

/-! ## The single-purpose entry points are made of legs -/

/-- A Soroswap edge; the Aquarius fields are placeholders. -/
def Hop.soroswap (router pool tokenIn tokenOut : Address) (path : Vec Address) : Hop where
  venue := 0
  pool := pool
  tokenIn := tokenIn
  tokenOut := tokenOut
  aquaRouter := router
  aquaPoolTokens := ⟨[], by decide⟩
  aquaPoolIndex := Vector.replicate 32 0
  soroswapRouter := router
  soroswapPath := path

/-- An Aquarius edge; the Soroswap fields are placeholders. -/
def Hop.aqua (aquaRouter : Address) (poolTokens : Vec Address) (poolIndex : BytesN32)
    (tokenIn tokenOut : Address) : Hop where
  venue := 1
  pool := aquaRouter
  tokenIn := tokenIn
  tokenOut := tokenOut
  aquaRouter := aquaRouter
  aquaPoolTokens := poolTokens
  aquaPoolIndex := poolIndex
  soroswapRouter := aquaRouter
  soroswapPath := ⟨[], by decide⟩

/-- A Phoenix edge; the fields of the other venues are placeholders. -/
def Hop.phoenix (pool tokenIn tokenOut : Address) : Hop where
  venue := 2
  pool := pool
  tokenIn := tokenIn
  tokenOut := tokenOut
  aquaRouter := pool
  aquaPoolTokens := ⟨[], by decide⟩
  aquaPoolIndex := Vector.replicate 32 0
  soroswapRouter := pool
  soroswapPath := ⟨[], by decide⟩

section Direct

variable (env : Env V)

theorem callSoroswap_eq (router pool tokenIn tokenOut : Address) (amount : Int)
    (path : Vec Address) (deadline : UInt64) :
    callSoroswap env router pool tokenIn amount 0 path deadline =
      (Hop.soroswap router pool tokenIn tokenOut path).authorizedCall env amount none
        deadline := rfl

theorem callAqua_eq (aquaRouter : Address) (poolTokens : Vec Address) (poolIndex : BytesN32)
    (tokenIn tokenOut : Address) (amount : Int) (deadline : UInt64) :
    callAqua env aquaRouter poolTokens poolIndex tokenIn tokenOut amount 0 =
      (Hop.aqua aquaRouter poolTokens poolIndex tokenIn tokenOut).authorizedCall env amount none
        deadline := rfl

/-- Check the minimum and forward the output. -/
def payOut (user tokenOut : Address) (amountOutMin out : Int) : Exec V Int := do
  panicIf (out < amountOutMin) .amountOutMinNotMet
  transfer env tokenOut env.contract user out
  pure out

/-- The shape of the three one-leg entry points. -/
def directSwap (user : Address) (hop : Hop) (amountIn amountOutMin : I128)
    (deadline : UInt64) : Exec V Int := do
  entryChecks env user hop.tokenIn hop.tokenOut amountIn amountOutMin deadline
  let outBefore ← balance hop.tokenOut env.contract
  transfer env hop.tokenIn user env.contract amountIn
  let srcBefore ← balance hop.tokenIn env.contract
  let out ← measuredLeg env hop amountIn (some amountOutMin) deadline srcBefore outBefore
    .noOutput
  payOut env user hop.tokenOut amountOutMin out

theorem swapSoroswap_eq (user soroswapRouter pool tokenIn tokenOut : Address)
    (amountIn amountOutMin : I128) (path : Vec Address) (deadline : UInt64) :
    swapSoroswap env user soroswapRouter pool tokenIn tokenOut amountIn amountOutMin path
        deadline =
      directSwap env user (.soroswap soroswapRouter pool tokenIn tokenOut path) amountIn
        amountOutMin deadline := by
  unfold swapSoroswap directSwap forwardOutput measuredLeg payOut
  simp only [bind_assoc, pure_bind]
  rfl

theorem swapAqua_eq (user aquaRouter pool : Address) (poolTokens : Vec Address)
    (poolIndex : BytesN32) (tokenIn tokenOut : Address) (amountIn amountOutMin : I128)
    (deadline : UInt64) :
    swapAqua env user aquaRouter pool poolTokens poolIndex tokenIn tokenOut amountIn
        amountOutMin deadline =
      directSwap env user (.aqua aquaRouter poolTokens poolIndex tokenIn tokenOut) amountIn
        amountOutMin deadline := by
  unfold swapAqua directSwap forwardOutput measuredLeg payOut
  simp only [bind_assoc, pure_bind]
  rfl

theorem swapPhoenix_eq (user pool tokenIn tokenOut : Address) (amountIn amountOutMin : I128)
    (deadline : UInt64) :
    swapPhoenix env user pool tokenIn tokenOut amountIn amountOutMin deadline =
      directSwap env user (.phoenix pool tokenIn tokenOut) amountIn amountOutMin deadline := by
  unfold swapPhoenix directSwap forwardOutput measuredLeg payOut
  simp only [bind_assoc, pure_bind]
  rfl

theorem forwardOutput_eq (user tokenOut : Address) (outBefore amountOutMin : Int) :
    forwardOutput env user tokenOut outBefore amountOutMin = (do
      let outAfter ← balance tokenOut env.contract
      let out ← checkedSub outAfter outBefore
      panicIf (out ≤ 0) .noOutput
      payOut env user tokenOut amountOutMin out) := rfl

/-- What follows a subtraction only sees the difference. -/
theorem checkedSub_bind_congr {after before : Int} {f g : Int → Exec V Int}
    (h : f (after - before) = g (after - before)) :
    (checkedSub after before >>= f) = checkedSub after before >>= g := by
  unfold checkedSub checked
  split
  · rw [pure_bind, pure_bind]
    exact h
  · rfl

/-- Leg 2 is checked against the reading that measured leg 1. -/
theorem swapAquaThenSoroswap_eq (user aquaRouter : Address) (aquaPoolTokens : Vec Address)
    (aquaPoolIndex : BytesN32) (tokenIn midToken soroswapRouter soroswapPool : Address)
    (soroswapPath : Vec Address) (tokenOut : Address) (amountIn amountOutMin : I128)
    (deadline : UInt64) :
    swapAquaThenSoroswap env user aquaRouter aquaPoolTokens aquaPoolIndex tokenIn midToken
        soroswapRouter soroswapPool soroswapPath tokenOut amountIn amountOutMin deadline = (do
      entryChecks env user tokenIn tokenOut amountIn amountOutMin deadline
      panicIf (midToken = tokenIn ∨ midToken = tokenOut) .midTokenNotDistinct
      let outBefore ← balance tokenOut env.contract
      let midBefore ← balance midToken env.contract
      transfer env tokenIn user env.contract amountIn
      let srcBefore ← balance tokenIn env.contract
      let midAmt ← measuredLeg env (.aqua aquaRouter aquaPoolTokens aquaPoolIndex tokenIn
        midToken) amountIn none deadline srcBefore midBefore .legOneNoOutput
      let out ← measuredLeg env (.soroswap soroswapRouter soroswapPool midToken tokenOut
        soroswapPath) midAmt none deadline (midBefore + midAmt) outBefore .noOutput
      payOut env user tokenOut amountOutMin out) := by
  unfold swapAquaThenSoroswap
  rw [callAqua_eq env _ _ _ _ _ _ deadline]
  simp only [callSoroswap_eq env _ _ _ tokenOut]
  unfold forwardOutput measuredLeg payOut
  simp only [bind_assoc, pure_bind]
  refine bind_congr fun _ => bind_congr fun _ => bind_congr fun outBefore =>
    bind_congr fun midBefore => bind_congr fun _ => bind_congr fun srcBefore =>
    bind_congr fun _ => bind_congr fun _ => bind_congr fun midAfter => ?_
  refine checkedSub_bind_congr ?_
  rw [show midBefore + (midAfter - midBefore) = midAfter by omega]
  rfl

end Direct

end WowmaxStellar
