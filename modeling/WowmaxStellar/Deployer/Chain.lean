import WowmaxStellar.Adapters.Contract

/-!
# The chain under the deployer

The contracts at their addresses, each adapter with its instance storage, over the ledger and
the venues they all share. A host call names a function and passes untyped values; the host
decodes them into a call of the adapter's interface, or traps.

A contract of other code is only known to be there: what it does is a change from outside.
-/

namespace WowmaxStellar.Adapters.Deployer

open Runs

/-! ## Host values -/

/-- A `Symbol`: the name of a function. -/
abbrev Symbol := String

/-- A `Val`, as far as the functions of an adapter take such. -/
inductive Val
  | void
  | i128 (value : I128)
  | u64 (value : UInt64)
  | string (value : String)
  | address (value : Address)
  | addresses (values : Vec Address)
  | hashes (values : Vec BytesN32)

/-- An `Option<Vec<BytesN<32>>>`: nothing is passed as void. -/
def Val.hashes? : Val → Option (Option (Vec BytesN32))
  | .void => some none
  | .hashes values => some (some values)
  | _ => none

/-- The call of the adapter interface that a name and its arguments stand for. -/
def decodeCall (function : Symbol) : List Val → Option Call
  | [] =>
      if function = "get_protocol_id" then some .getProtocolId
      else if function = "get_protocol_address" then some .getProtocolAddress
      else none
  | [.string protocolId, .address protocolAddress] =>
      if function = "initialize" then some (.initializeWith protocolId protocolAddress) else none
  | [.i128 amount, .i128 bound, .addresses path, .address recipient, .u64 deadline, bytes] => do
      let poolHashes ← bytes.hashes?
      if function = "swap_exact_tokens_for_tokens" then
        some (.swap (.swapExactTokensForTokens amount bound path recipient deadline poolHashes))
      else if function = "swap_tokens_for_exact_tokens" then
        some (.swap (.swapTokensForExactTokens amount bound path recipient deadline poolHashes))
      else none
  | _ => none

/-! ## State -/

/-- What `contract` has in a log of all contracts, in its order. -/
def entriesOf {β : Type} (contract : Address) (log : List (Address × β)) : List β :=
  (log.filter (·.1 = contract)).map (·.2)

section Entries

variable {β : Type} {contract : Address}

@[simp] theorem entriesOf_append (log log' : List (Address × β)) :
    entriesOf contract (log ++ log') = entriesOf contract log ++ entriesOf contract log' := by
  simp [entriesOf]

/-- A contract's own entries, once they are written. -/
@[simp] theorem entriesOf_map_self (entries : List β) :
    entriesOf contract (entries.map (contract, ·)) = entries := by
  simp [entriesOf, List.filter_map, Function.comp_def]

theorem entriesOf_map_of_ne {contract' : Address} (hne : contract' ≠ contract) (entries : List β) :
    entriesOf contract (entries.map (contract', ·)) = [] := by
  simp [entriesOf, List.filter_map, Function.comp_def, hne]

end Entries

/-- What stands at an address. -/
inductive Instance
  | adapter (code : Adapter) (storage : Storage)
  | other
deriving DecidableEq

/-- The instance storage of a contract that was just created. -/
def freshStorage : Storage := ⟨false, none, none⟩

structure Chain (V : Type) where
  instances : Address → Option Instance
  ledger : Ledger
  venues : V
  exchanges : List (Address × Exchange)
  events : List (Address × Event)

/-- What does not change: the deployer's own address, the uploaded adapters by the hash of
their Wasm, the address the host computes for a contract, and the venues' code. -/
structure Network (V : Type) where
  self : Address
  wasm : BytesN32 → Option Adapter
  contractId : Address → BytesN32 → Address
  venue : V → Ledger → Address → Request → Except HostError (Answer V)

/-- The conditions a transaction runs under. The deployer is a contract and signs nothing. -/
structure Context {V : Type} (network : Network V) where
  timestamp : UInt64
  signers : List Address
  self_not_signer : network.self ∉ signers

/-- Why a transaction failed. -/
inductive Fault
  | unauthorized
  | noSuchWasm
  | addressTaken
  | noSuchContract
  | noSuchFunction
  | adapter (fault : Adapters.Fault)
deriving DecidableEq

/-- Code that runs on the chain. -/
abbrev Exec (V α : Type) := EStateM Fault (Chain V) α

section

variable {V : Type}

/-- An adapter's own view of the chain. -/
def Chain.view (chain : Chain V) (storage : Storage) : State V :=
  ⟨storage, chain.ledger, chain.venues, [], []⟩

/-- The chain after the adapter at `contract` has run to `s`. -/
def Chain.commit (chain : Chain V) (contract : Address) (code : Adapter) (s : State V) :
    Chain V where
  instances := Function.update chain.instances contract (some (.adapter code s.storage))
  ledger := s.ledger
  venues := s.venues
  exchanges := chain.exchanges ++ s.exchanges.map (contract, ·)
  events := chain.events ++ s.events.map (contract, ·)

/-- The chain with a new contract. -/
def Chain.create (chain : Chain V) (contract : Address) (code : Adapter) : Chain V :=
  { chain with
    instances := Function.update chain.instances contract (some (.adapter code freshStorage)) }

/-- The events a contract has published. -/
def Chain.eventsOf (chain : Chain V) (contract : Address) : List Event :=
  entriesOf contract chain.events

/-- The venue calls a contract has made. -/
def Chain.exchangesOf (chain : Chain V) (contract : Address) : List Exchange :=
  entriesOf contract chain.exchanges

variable {network : Network V}

/-- The conditions as an adapter sees them. -/
def Context.env (context : Context network) : Env V :=
  ⟨context.timestamp, context.signers, network.venue⟩

/-! ## Host functions -/

/-- `address.require_auth()` -/
def requireAuth (context : Context network) (address : Address) : Exec V Unit :=
  if address ∈ context.signers then pure () else throw .unauthorized

/-- Nothing is asked of the contract that runs. -/
def requireAuthUnless (context : Context network) (running : Option Address) (address : Address) :
    Exec V Unit :=
  if running = some address then pure () else requireAuth context address

/-- `env.deployer().with_address(deployer, salt).deploy_v2(wasm_hash, ())`. The host asks for
the authorization of `deployer`, unless it is the contract that runs. -/
def deployV2 (context : Context network) (running : Option Address) (deployer : Address)
    (wasmHash salt : BytesN32) : Exec V Address := do
  requireAuthUnless context running deployer
  let contract := network.contractId deployer salt
  match network.wasm wasmHash with
  | none => throw .noSuchWasm
  | some code => fun chain =>
      match chain.instances contract with
      | some _ => .error .addressTaken chain
      | none => .ok contract (chain.create contract code)

/-- A call of the adapter at `contract`. -/
def invokeAdapter (context : Context network) (contract : Address) (code : Adapter)
    (storage : Storage) (function : Symbol) (args : List Val) : Exec V Returned := fun chain =>
  match decodeCall function args with
  | none => .error .noSuchFunction chain
  | some call =>
      match code.perform context.env call (chain.view storage) with
      | .error fault _ => .error (.adapter fault) chain
      | .ok returned s => .ok returned (chain.commit contract code s)

/-- `env.invoke_contract(&contract, &function, args)`. What the adapter returns stays typed. -/
def invokeContract (context : Context network) (contract : Address) (function : Symbol)
    (args : List Val) : Exec V Returned := fun chain =>
  match chain.instances contract with
  | some (.adapter code storage) => invokeAdapter context contract code storage function args chain
  | _ => .error .noSuchContract chain

end

end WowmaxStellar.Adapters.Deployer
