import WowmaxStellar.Lib.Run
import WowmaxStellar.Soroban.Ledger

/-!
# The host as the adapters see it

An adapter is a contract of its own: it keeps three entries of instance storage, forwards
a swap to one venue and publishes an event. The venue acts for the user, who has signed, so
nothing bounds what a venue call does to the ledger: it is any function of the venues'
state, the ledger and the request. Contracts are not re-entered, so a venue call leaves the
adapter's storage and events alone.

Every venue call is noted with its answer and the ledgers before and after it.
-/

namespace WowmaxStellar.Adapters

open Runs

/-! ## Errors -/

/-- The errors of the adapter interface. -/
inductive AdapterError
  | notInitialized
  | alreadyInitialized
  | negativeNotAllowed
  | protocolAddressNotFound
  | deadlineExpired
  | missingPoolHashes
  | wrongMinimumPathLength
  | wrongPoolHashesLength
deriving DecidableEq, Repr

def AdapterError.code : AdapterError → Nat
  | .notInitialized => 401
  | .alreadyInitialized => 402
  | .negativeNotAllowed => 403
  | .protocolAddressNotFound => 404
  | .deadlineExpired => 405
  | .missingPoolHashes => 406
  | .wrongMinimumPathLength => 407
  | .wrongPoolHashesLength => 408

/-- The places where adapter code panics. -/
inductive PanicSite
  | amountOutBelowMin
  | amountInAboveMax
  | noTokenIn
  | noTokenOut
  | noOfferAsset
  | noAskAsset
  | unwrapNone
  | subOverflow
deriving DecidableEq, Repr

def PanicSite.message : PanicSite → String
  | .amountOutBelowMin => "Amount of token out received is less than the minimum amount expected"
  | .amountInAboveMax => "Amount of token in required is greater than the maximum amount expected"
  | .noTokenIn => "Failed to get token in address"
  | .noTokenOut => "Failed to get token out address"
  | .noOfferAsset => "Failed to get offer asset"
  | .noAskAsset => "Failed to get ask a    sset"
  | .unwrapNone => "called `Option::unwrap()` on a `None` value"
  | .subOverflow => "attempt to subtract with overflow"

/-- Why a call of an adapter failed. -/
inductive Fault
  | adapter (error : AdapterError)
  | panic (site : PanicSite)
  | host (error : HostError)
deriving DecidableEq, Repr

/-- `option.expect(message)`, or `option.unwrap()` -/
def expect {α : Type} (site : PanicSite) : Option α → Except Fault α
  | none => .error (.panic site)
  | some a => .ok a

/-- `v.len() - 1` or `v.len().checked_sub(1).unwrap()`, on `u32`s. -/
def lenMinusOne {α : Type} (site : PanicSite) (v : Vec α) : Except Fault Nat :=
  if v.len = 0 then .error (.panic site) else .ok (v.len - 1)

/-! ## Requests to the venues -/

/-- One hop of a Phoenix multihop swap. -/
structure Swap where
  offerAsset : Address
  askAsset : Address
  askAssetMinAmount : Option Int
deriving DecidableEq

inductive PoolType
  | xyk
deriving DecidableEq

/-- One hop of an Aquarius chain: the pool's tokens, its hash and the token to receive. -/
abbrev ChainLink := Vec Address × BytesN32 × Address

/-- The venue functions the adapters call, with their arguments. -/
inductive Request
  | swapExactTokensForTokens (amountIn amountOutMin : Int) (path : Vec Address)
      (recipient : Address) (deadline : UInt64)
  | swapTokensForExactTokens (amountOut amountInMax : Int) (path : Vec Address)
      (recipient : Address) (deadline : UInt64)
  | swapChained (user : Address) (swapsChain : List ChainLink) (tokenIn : Address)
      (inAmount outMin : Nat)
  | swapChainedStrictReceive (user : Address) (swapsChain : List ChainLink) (tokenIn : Address)
      (outAmount maxIn : Nat)
  | swap (recipient : Address) (operations : List Swap) (maxSpreadBps : Option Int) (amount : Int)
      (poolType : PoolType) (deadline : Option UInt64) (maxAllowedFeeBps : Option Int)
  | simulateReverseSwap (operations : List Swap) (amount : Int) (poolType : PoolType)
  | swapExactAmountIn (tokenIn : Address) (tokenAmountIn : Int) (tokenOut : Address)
      (minAmountOut maxPrice : Int) (user : Address)
  | swapExactAmountOut (tokenIn : Address) (maxAmountIn : Int) (tokenOut : Address)
      (tokenAmountOut maxPrice : Int) (user : Address)
deriving DecidableEq

/-- `u128` values, as they come back from a venue. -/
abbrev U128 := { x : Nat // x < 2 ^ 128 }

/-- What a venue returns, before it is converted to the type its client expects. -/
inductive Reply
  | amounts (values : Vec I128)
  | u128 (value : U128)
  | unit
  | offer (offerAmount : I128)
  | amountAndPrice (amount price : I128)
deriving DecidableEq

def Reply.amounts? : Reply → Option (List Int)
  | .amounts values => some (values.val.map (·.val))
  | _ => none

def Reply.u128? : Reply → Option Nat
  | .u128 value => some value.val
  | _ => none

def Reply.unit? : Reply → Option Unit
  | .unit => some ()
  | _ => none

def Reply.offer? : Reply → Option Int
  | .offer offerAmount => some offerAmount.val
  | _ => none

def Reply.amountAndPrice? : Reply → Option (Int × Int)
  | .amountAndPrice amount price => some (amount.val, price.val)
  | _ => none

/-! ## State -/

/-- The instance storage of an adapter. -/
structure Storage where
  initialized : Bool
  protocolId : Option String
  protocolAddress : Option Address
deriving DecidableEq

/-- The events of an adapter, under the topic it publishes them with. -/
inductive Event
  | initialized (topic : String) (state : Bool) (protocolId : String) (protocolAddress : Address)
  | swap (topic : String) (amountIn : Int) (path : Vec Address) (recipient : Address)
deriving DecidableEq

/-- A venue call that was answered. -/
structure Exchange where
  venue : Address
  request : Request
  reply : Reply
  before : Ledger
  after : Ledger

/-- How a venue answers: the ledger and the venues it leaves behind, and its reply. -/
structure Answer (V : Type) where
  ledger : Ledger
  venues : V
  reply : Reply

structure Env (V : Type) where
  timestamp : UInt64
  signers : List Address
  venue : V → Ledger → Address → Request → Except HostError (Answer V)

structure State (V : Type) where
  storage : Storage
  ledger : Ledger
  venues : V
  exchanges : List Exchange
  events : List Event

/-- Adapter code. -/
abbrev Exec (V α : Type) := EStateM Fault (State V) α

section

variable {V : Type}

/-- The state after an answered venue call. -/
def State.exchanged (s : State V) (venue : Address) (request : Request) (answer : Answer V) :
    State V :=
  { s with
    ledger := answer.ledger
    venues := answer.venues
    exchanges := s.exchanges ++ [⟨venue, request, answer.reply, s.ledger, answer.ledger⟩] }

/-! ## Host functions -/

/-- A pure step that may fail: `?`, `expect`, `unwrap`. -/
def liftResult {α : Type} : Except Fault α → Exec V α
  | .ok a => pure a
  | .error fault => throw fault

def fail {α : Type} (error : AdapterError) : Exec V α := throw (.adapter error)

def panicIf (c : Prop) [Decidable c] (site : PanicSite) : Exec V Unit :=
  if c then throw (.panic site) else pure ()

/-- `address.require_auth()` -/
def requireAuth (env : Env V) (address : Address) : Exec V Unit :=
  if address ∈ env.signers then pure () else throw (.host .unauthorized)

/-- `TokenClient::new(&e, &token).balance(&holder)` -/
def balance (token holder : Address) : Exec V Int := fun s =>
  .ok (s.ledger.balance token holder) s

/-- `a.checked_sub(b).unwrap()` on `i128`s. -/
def checkedSub (a b : Int) : Exec V Int :=
  if InI128 (a - b) then pure (a - b) else throw (.panic .unwrapNone)

/-- A call through a generated client: the venue's failure is the adapter's, and so is a
reply that is not of the client's return type. -/
def callVenue {α : Type} (env : Env V) (venue : Address) (request : Request)
    (decode : Reply → Option α) : Exec V α := fun s =>
  match env.venue s.venues s.ledger venue request with
  | .error e => .error (.host e) s
  | .ok answer =>
      match decode answer.reply with
      | none => .error (.host .badReply) s
      | some a => .ok a (s.exchanged venue request answer)

/-- `e.events().publish(..)` -/
def publish (event : Event) : Exec V Unit := fun s =>
  .ok () { s with events := s.events ++ [event] }

/-! ## Instance storage -/

def isInitialized : Exec V Bool := fun s => .ok s.storage.initialized s

def setInitialized : Exec V Unit := fun s =>
  .ok () { s with storage := { s.storage with initialized := true } }

def setProtocolId (protocolId : String) : Exec V Unit := fun s =>
  .ok () { s with storage := { s.storage with protocolId := some protocolId } }

def setProtocolAddress (protocolAddress : Address) : Exec V Unit := fun s =>
  .ok () { s with storage := { s.storage with protocolAddress := some protocolAddress } }

def getProtocolId : Exec V String := fun s =>
  match s.storage.protocolId with
  | none => .error (.adapter .notInitialized) s
  | some protocolId => .ok protocolId s

def getProtocolAddress : Exec V Address := fun s =>
  match s.storage.protocolAddress with
  | none => .error (.adapter .notInitialized) s
  | some protocolAddress => .ok protocolAddress s

/-! ## The checks the adapters share -/

def checkInitialized : Exec V Unit := do
  if ← isInitialized then pure () else fail .notInitialized

def checkNonnegativeAmount (amount : Int) : Exec V Unit :=
  if amount < 0 then fail .negativeNotAllowed else pure ()

/-- Comet's `check_deadline` and Phoenix' `ensure_deadline`: the deadline itself is late. -/
def checkDeadline (env : Env V) (deadline : UInt64) : Exec V Unit :=
  if deadline ≤ env.timestamp then fail .deadlineExpired else pure ()

end

end WowmaxStellar.Adapters
