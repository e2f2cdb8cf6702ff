import WowmaxStellar.Lib.Run
import WowmaxStellar.Router.Panic

/-!
# The host as the executor sees it

The executor runs against a host that owns the token ledger, calls venues and
enforces authorisation. Everything outside the executor is summed up in a state
`V` and a function `venue` that answers each venue call with the token calls the
venue makes, its next state and its reply. Nothing restricts that function: the
host alone decides which of its token calls go through.

* A token transfer out of the executor made by anyone else succeeds only if it is
  the pre-authorised one, and uses the authorisation up.
* `authorize_as_current_contract` covers the next contract call only.
* The executor is never re-entered, so it cannot sign as a user.
* A failing call fails the whole invocation.

Every host call is noted in a trace, together with the ledgers it passed through.
-/

namespace WowmaxStellar

open Runs

/-- A `SubContractInvocation` of `transfer`: the only entry the executor hands to
`authorize_as_current_contract`. -/
structure TransferAuth where
  token : Address
  src : Address
  dst : Address
  amount : Int
deriving DecidableEq

/-- The venue invocations: Soroswap's router, Aquarius' router, a Phoenix pool. -/
inductive VenueCall
  | swapExactTokensForTokens (router : Address) (amountIn amountOutMin : Int)
      (path : Vec Address) (recipient : Address) (deadline : UInt64)
  | swapChained (router user : Address) (swapsChain : List (Vec Address × BytesN32 × Address))
      (tokenIn : Address) (inAmount outMin : Nat)
  | swap (pool sender offerAsset : Address) (offerAmount : Int)
      (askAssetMinAmount maxSpreadBps : Option Int) (deadline : Option UInt64)
      (maxAllowedFeeBps : Option Int)
deriving DecidableEq

/-- The value a venue call returns, before it is converted to the expected type. -/
inductive Reply
  | amounts (values : List Int)
  | u128 (value : Nat)
  | i128 (value : Int)
deriving DecidableEq

/-- A token call made while a venue is running. -/
inductive TokenCall
  | transfer (token src dst : Address) (amount : Int)
  | mint (token dst : Address) (amount : Int)
  | burn (token src : Address) (amount : Int)
deriving DecidableEq

/-- What a venue does when called: token calls in order, its next state and the
reply, `none` when it traps. -/
structure VenueRun (V : Type) where
  calls : List TokenCall
  venues : V
  reply : Option Reply

/-- The chain the executor is deployed on. `accepts` is the tokens' own right to
refuse a transfer (a frozen or missing balance entry). -/
structure Network (V : Type) where
  contract : Address
  accepts : V → Ledger → Address → Address → Address → Int → Bool
  venue : V → Ledger → List TransferAuth → VenueCall → VenueRun V

/-- The environment of one invocation: the ledger time and who signed. -/
structure Env (V : Type) extends Network V where
  timestamp : UInt64
  signers : List Address
  contract_unsigned : contract ∉ signers

/-- What the trace keeps of a venue call: the authorisations in force, the call, the
ledger it started from and every ledger it passed through. -/
structure VenueRecord where
  auths : List TransferAuth
  call : VenueCall
  before : Ledger
  moments : List Ledger

/-- The ledger the venue call left behind. -/
def VenueRecord.after (record : VenueRecord) : Ledger :=
  record.moments.getLast?.getD record.before

/-- One host call of the executor. -/
inductive Event
  | balance (token holder : Address)
  | transfer (token src dst : Address) (amount : Int) (after : Ledger)
  | authorize (entries : List TransferAuth)
  | invoke (record : VenueRecord)

/-- The ledgers an event passed through. -/
def Event.moments : Event → List Ledger
  | .balance .. => []
  | .transfer _ _ _ _ after => [after]
  | .authorize _ => []
  | .invoke record => record.moments

def Event.record? : Event → Option VenueRecord
  | .invoke record => some record
  | _ => none

/-- The venue calls of a trace, in order. -/
def venueRecords (trace : List Event) : List VenueRecord :=
  trace.filterMap Event.record?

@[simp] theorem venueRecords_nil : venueRecords [] = [] := rfl

@[simp] theorem venueRecords_append (left right : List Event) :
    venueRecords (left ++ right) = venueRecords left ++ venueRecords right :=
  List.filterMap_append

/-- The state of an invocation. -/
structure State (V : Type) where
  ledger : Ledger
  venues : V
  auths : List TransferAuth
  trace : List Event

/-- Executor code: it may change the state and may panic. -/
abbrev Exec (V α : Type) := EStateM Panic (State V) α

section

variable {V : Type}

/-- The host has served `event`: the trace grows and the pending authorisations,
meant for that one call, are gone. -/
def State.served (s : State V) (event : Event) : State V :=
  { s with auths := [], trace := s.trace ++ [event] }

@[simp] theorem State.served_ledger (s : State V) (event : Event) :
    (s.served event).ledger = s.ledger := rfl

@[simp] theorem State.served_venues (s : State V) (event : Event) :
    (s.served event).venues = s.venues := rfl

@[simp] theorem State.served_auths (s : State V) (event : Event) :
    (s.served event).auths = [] := rfl

@[simp] theorem State.served_trace (s : State V) (event : Event) :
    (s.served event).trace = s.trace ++ [event] := rfl

/-! ## Panics and checked arithmetic -/

def panicIf (c : Prop) [Decidable c] (site : Guard) : Exec V Unit :=
  if c then throw (.guard site) else pure ()

/-- The result of an `i128` operation, or the overflow panic. -/
def checked (op : ArithOp) (x : Int) : Exec V Int :=
  if InI128 x then pure x else throw (.overflow op)

def checkedAdd (a b : Int) : Exec V Int := checked .add (a + b)

def checkedSub (a b : Int) : Exec V Int := checked .sub (a - b)

def checkedMul (a b : Int) : Exec V Int := checked .mul (a * b)

/-! ## Host functions -/

/-- `token::Client::new(env, token).balance(holder)` -/
def balance (token holder : Address) : Exec V Int := fun s =>
  .ok (s.ledger.balance token holder) (s.served (.balance token holder))

/-- `user.require_auth()` -/
def requireAuth (env : Env V) (user : Address) : Exec V Unit :=
  if user ∈ env.signers then pure () else throw (.host .unauthorized)

/-- `token::Client::new(env, token).transfer(src, dst, amount)`, called by the
executor: `src` is the executor itself or a signer. -/
def transfer (env : Env V) (token src dst : Address) (amount : Int) : Exec V Unit := fun s =>
  if src ≠ env.contract ∧ src ∉ env.signers then .error (.host .unauthorized) s
  else if env.accepts s.venues s.ledger token src dst amount = false then
    .error (.host .refused) s
  else
    match s.ledger.transfer token src dst amount with
    | .error e => .error (.host e) s
    | .ok ledger =>
        .ok () { s.served (.transfer token src dst amount ledger) with ledger := ledger }

/-- `env.authorize_as_current_contract(entries)` -/
def authorizeAsCurrentContract (entries : List TransferAuth) : Exec V Unit := fun s =>
  .ok () { s with auths := entries, trace := s.trace ++ [.authorize entries] }

/-- One token call of a venue. A transfer out of the executor must be pre-authorised
and uses its authorisation up; the executor's balances cannot be burnt. -/
def tokenCall (contract : Address) (auths : List TransferAuth) (ledger : Ledger) :
    TokenCall → Except HostError (List TransferAuth × Ledger)
  | .transfer token src dst amount =>
      -- only the executor's own transfers need its authorisation; any other party's are its affair
      if src = contract then
        if ⟨token, src, dst, amount⟩ ∈ auths then
          (ledger.transfer token src dst amount).map (auths.erase ⟨token, src, dst, amount⟩, ·)
        else .error .unauthorized
      else (ledger.transfer token src dst amount).map (auths, ·)
  | .mint token dst amount => (ledger.credit token dst amount).map (auths, ·)
  | .burn token src amount =>
      if src = contract then .error .unauthorized
      else (ledger.debit token src amount).map (auths, ·)

/-- The token calls of a venue, one after the other: the ledgers passed through and
the last one, or the error that stopped the venue. -/
def tokenCalls (contract : Address) :
    List TransferAuth → Ledger → List TokenCall → List Ledger × Except HostError Ledger
  | _, ledger, [] => ([], .ok ledger)
  | auths, ledger, call :: rest =>
      match tokenCall contract auths ledger call with
      | .error e => ([], .error e)
      | .ok (auths', ledger') =>
          let tail := tokenCalls contract auths' ledger' rest
          (ledger' :: tail.1, tail.2)

/-- `env.invoke_contract(..)` on a venue. -/
def invokeContract (env : Env V) (call : VenueCall) : Exec V Reply := fun s =>
  let run := env.venue s.venues s.ledger s.auths call
  let moved := tokenCalls env.contract s.auths s.ledger run.calls
  let s' := s.served (.invoke ⟨s.auths, call, s.ledger, moved.1⟩)
  match moved.2, run.reply with
  -- the venue does not catch the error of a token call
  | .error e, _ => .error (.host e) s'
  | .ok _, none => .error (.host .trapped) s'
  | .ok ledger, some reply => .ok reply { s' with ledger := ledger, venues := run.venues }

end

end WowmaxStellar
