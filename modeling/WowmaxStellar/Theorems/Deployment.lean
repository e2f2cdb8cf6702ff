import WowmaxStellar.Deployer.Deploy
import WowmaxStellar.Theorems.RouteContract
import Mathlib.Data.Nat.Digits.Defs
import Mathlib.Data.Nat.Pairing

/-!
# Contracts from their deployment on

What holds of an adapter in every history of the chain it was deployed to: whoever submits
transactions in between, and whatever happens outside.

* `not_frontrun` — who can have put a contract at an address, and with which storage;
* `written_once` — an initialised adapter keeps its protocol and trades nowhere else;
* `events_record_calls` — the events of a contract are its calls, all of them and in order.
-/

namespace WowmaxStellar.Adapters.Deployer

open Runs

variable {V : Type} {network : Network V}

/-! ## Who deployed -/

/-- The submission deploys `code` and initialises it to `storage`, which `deployer` has
signed. -/
def Submission.Deploys (submission : Submission network) (deployer : Address) (salt : BytesN32)
    (code : Adapter) (storage : Storage) : Prop :=
  ∃ wasmHash protocolId protocolAddress,
    submission.transaction = .deploy deployer wasmHash salt "initialize"
      [.string protocolId, .address protocolAddress] ∧
    deployer ∈ submission.context.signers ∧ network.wasm wasmHash = some code ∧
    storage = .written protocolId protocolAddress

/-- The submission creates the contract and leaves it as it is, which `deployer` has signed. -/
def Submission.CreatesBare (submission : Submission network) (deployer : Address)
    (salt : BytesN32) (code : Adapter) : Prop :=
  ∃ wasmHash, submission.transaction = .createContract deployer wasmHash salt ∧
    deployer ∈ submission.context.signers ∧ network.wasm wasmHash = some code

/-- The storage of a contract that was created bare, after some calls of it: the first one,
whoever has made it, has initialised it. -/
inductive Settled : List Call → Storage → Prop
  | untouched : Settled [] freshStorage
  | initialized (protocolId : String) (protocolAddress : Address) (rest : List Call) :
      Settled (.initializeWith protocolId protocolAddress :: rest)
        (.written protocolId protocolAddress)

/-- How an adapter came to stand where `deployer` and `salt` put it: one submission of the
log, which `deployer` has signed, has brought it there, and no call had gone to it before. -/
inductive Origin (log : List (Submission network)) (deployer : Address) (salt : BytesN32)
    (code : Adapter) (storage : Storage) : Prop
  | deployed (earlier : List (Submission network)) (submission : Submission network)
      (later : List (Submission network)) (hlog : log = earlier ++ submission :: later)
      (hfirst : callsOf (network.contractId deployer salt) earlier = [])
      (hdeploys : submission.Deploys deployer salt code storage)
  | bare (earlier : List (Submission network)) (submission : Submission network)
      (later : List (Submission network)) (hlog : log = earlier ++ submission :: later)
      (hfirst : callsOf (network.contractId deployer salt) earlier = [])
      (hcreates : submission.CreatesBare deployer salt code)
      (hsettled : Settled (callsOf (network.contractId deployer salt) later) storage)

/-- What is known of the address all along. -/
def Arrived (log : List (Submission network)) (deployer : Address) (salt : BytesN32) :
    Option Instance → Prop
  | some (.adapter code storage) => Origin log deployer salt code storage
  | _ => callsOf (network.contractId deployer salt) log = []

section Origin

variable {log : List (Submission network)} {submission : Submission network} {deployer : Address}
  {salt : BytesN32} {code : Adapter} {storage : Storage}

theorem callsOf_snoc (contract : Address) (log : List (Submission network))
    (submission : Submission network) :
    callsOf contract (log ++ [submission]) = callsOf contract log ++
      entriesOf contract (submission.transaction.calls network) := by
  simp [callsOf]

/-- The next call that goes through keeps a settled contract settled. -/
theorem Settled.step {env : Env V} {chain : Chain V} {calls : List Call} {call : Call}
    {returned : Returned} {s : State V} (h : Settled calls storage)
    (hperformed : Performed code env (chain.view storage) call returned s) :
    Settled (calls ++ [call]) s.storage := by
  cases h with
  | untouched =>
      obtain ⟨protocolId, protocolAddress, rfl, -, rfl⟩ := hperformed.of_fresh rfl
      exact .initialized protocolId protocolAddress []
  | initialized protocolId protocolAddress rest =>
      rw [hperformed.storage_kept rfl]
      exact .initialized protocolId protocolAddress _

/-- What goes elsewhere leaves the origin as it is. -/
theorem Origin.elsewhere (h : Origin log deployer salt code storage)
    (hcalls : entriesOf (network.contractId deployer salt)
      (submission.transaction.calls network) = []) :
    Origin (log ++ [submission]) deployer salt code storage := by
  cases h with
  | deployed earlier first later hlog hfirst hdeploys =>
      refine .deployed earlier first (later ++ [submission]) ?_ hfirst hdeploys
      rw [hlog, List.append_assoc, List.cons_append]
  | bare earlier first later hlog hfirst hcreates hsettled =>
      refine .bare earlier first (later ++ [submission]) ?_ hfirst hcreates ?_
      · rw [hlog, List.append_assoc, List.cons_append]
      · rw [callsOf_snoc, hcalls, List.append_nil]
        exact hsettled

/-- A call keeps what a deployment has written, and settles what was created bare. -/
theorem Origin.called {env : Env V} {chain : Chain V} {call : Call} {returned : Returned}
    {s : State V} (h : Origin log deployer salt code storage)
    (hcalls : entriesOf (network.contractId deployer salt)
      (submission.transaction.calls network) = [call])
    (hperformed : Performed code env (chain.view storage) call returned s) :
    Origin (log ++ [submission]) deployer salt code s.storage := by
  cases h with
  | deployed earlier first later hlog hfirst hdeploys =>
      refine .deployed earlier first (later ++ [submission]) ?_ hfirst ?_
      · rw [hlog, List.append_assoc, List.cons_append]
      · obtain ⟨wasmHash, protocolId, protocolAddress, htransaction, hsigned, hcode, rfl⟩ :=
          hdeploys
        rw [hperformed.storage_kept rfl]
        exact ⟨wasmHash, protocolId, protocolAddress, htransaction, hsigned, hcode, rfl⟩
  | bare earlier first later hlog hfirst hcreates hsettled =>
      refine .bare earlier first (later ++ [submission]) ?_ hfirst hcreates ?_
      · rw [hlog, List.append_assoc, List.cons_append]
      · rw [callsOf_snoc, hcalls]
        exact hsettled.step hperformed

/-- One transaction. -/
theorem Arrived.commit (hid : Function.Injective2 network.contractId)
    (hself : deployer ≠ network.self) {before after : Chain V}
    (h : Arrived log deployer salt (before.instances (network.contractId deployer salt)))
    (hrun : submission.run before = .ok () after) :
    Arrived (log ++ [submission]) deployer salt
      (after.instances (network.contractId deployer salt)) := by
  cases run_concerns hrun (network.contractId deployer salt) with
  | elsewhere hsame hexchanges hevents hcalls =>
      rw [hsame]
      unfold Arrived at h ⊢
      split at h
      · exact h.elsewhere hcalls
      · rw [callsOf_snoc, hcalls, List.append_nil]
        exact h
  | deployed deployer' wasmHash salt' code protocolId protocolAddress hcontract htransaction hauth
      hcode hfree hafter =>
      obtain ⟨rfl, rfl⟩ := hid hcontract
      rw [hfree] at h
      rw [hafter]
      exact .deployed log submission [] rfl h
        ⟨wasmHash, protocolId, protocolAddress, htransaction, hauth.resolve_left hself, hcode, rfl⟩
  | created deployer' wasmHash salt' code hcontract htransaction hauth hcode hfree hafter =>
      obtain ⟨rfl, rfl⟩ := hid hcontract
      rw [hfree] at h
      rw [hafter]
      exact .bare log submission [] rfl h ⟨wasmHash, htransaction, hauth, hcode⟩ .untouched
  | called code storage call returned s hbefore hperformed hafter hexchanges hevents hcalls =>
      rw [hbefore] at h
      rw [hafter]
      exact Origin.called h hcalls hperformed

theorem arrived (hid : Function.Injective2 network.contractId) (hself : deployer ≠ network.self)
    {chain later : Chain V} (hfree : chain.instances (network.contractId deployer salt) = none)
    (hlater : History chain log later) :
    Arrived log deployer salt (later.instances (network.contractId deployer salt)) := by
  induction hlater with
  | start =>
      rw [hfree]
      exact rfl
  | outside h hout ih =>
      rcases hout.instances (network.contractId deployer salt) with hsame | ⟨hnone, hother⟩
      · rw [hsame]
        exact ih
      · rw [hnone] at ih
        rw [hother]
        exact ih
  | commit submission h hrun ih => exact ih.commit hid hself hrun

end Origin

/-- **No front-running.** An adapter that stands where an account and a salt put it was brought
there by a transaction that the account has signed, and nobody had called it before. Where that
was a deployment, it holds just what the deployment initialised it to. Where the account has
only created it, it holds what the first call since then, whoever made it, has written. -/
theorem not_frontrun (hid : Function.Injective2 network.contractId) {chain later : Chain V}
    {log : List (Submission network)} {deployer : Address} {salt : BytesN32}
    (hself : deployer ≠ network.self)
    (hfree : chain.instances (network.contractId deployer salt) = none)
    (hlater : History chain log later) {code : Adapter} {storage : Storage}
    (hinstance : later.instances (network.contractId deployer salt) =
      some (.adapter code storage)) : Origin log deployer salt code storage := by
  have harrived := arrived hid hself hfree hlater
  rw [hinstance] at harrived
  exact harrived

/-! ### A market

Anybody deploys Comet adapters for the pool at address 20, which trades one for one. -/

def marketNetwork : Network Unit where
  self := ⟨0⟩
  wasm _ := some .comet
  -- contracts are at the pair of their deployer and the digits of their salt
  contractId deployer salt :=
    ⟨Nat.pair deployer.id (Nat.ofDigits 256 (salt.toList.map UInt8.toNat))⟩
  venue _ ledger pool request :=
    if pool = ⟨20⟩ then cometPool ledger pool request else .error .refused

theorem marketNetwork_contractId : Function.Injective2 marketNetwork.contractId := by
  intro deployer deployer' salt salt' h
  obtain ⟨hdeployer, hdigits⟩ := Nat.pair_eq_pair.mp (congrArg Address.id h)
  have hbytes : ∀ salt : BytesN32, ∀ digit ∈ salt.toList.map UInt8.toNat, digit < 256 := by
    intro salt digit hmem
    obtain ⟨byte, _, rfl⟩ := List.mem_map.mp hmem
    exact byte.toNat_lt
  have hlist :=
    Nat.ofDigits_inj_of_len_eq (by decide) (by simp) (hbytes salt) (hbytes salt') hdigits
  refine ⟨by cases deployer; cases deployer'; exact congrArg _ hdeployer, ?_⟩
  exact Vector.toList_inj.mp (List.map_injective_iff.mpr (fun _ _ => UInt8.toNat_inj.mp) hlist)

/-- Where the account at address 1 deploys to. -/
def marketContract : Address := marketNetwork.contractId ⟨1⟩ (.replicate 32 0)

/-- No contracts yet; the account holds token 10 and the pool token 11. -/
def emptyMarket : Chain Unit := ⟨fun _ => none, cometState.ledger, (), [], []⟩

/-- The account deploys, for the pool. -/
def marketDeployment : Submission marketNetwork where
  context := ⟨0, [⟨1⟩], by decide⟩
  transaction := .deploy ⟨1⟩ (.replicate 32 0) (.replicate 32 0) "initialize"
    [.string "comet", .address ⟨20⟩]

/-- The account creates the contract and does not initialise it. -/
def marketCreation : Submission marketNetwork where
  context := ⟨0, [⟨1⟩], by decide⟩
  transaction := .createContract ⟨1⟩ (.replicate 32 0) (.replicate 32 0)

/-- The account at address 2 initialises it, for an address of its own. -/
def marketTakeover : Submission marketNetwork where
  context := ⟨1, [⟨2⟩], by decide⟩
  transaction := .invoke marketContract "initialize" [.string "comet", .address ⟨21⟩]

/-- The market before anything is submitted. -/
theorem emptyMarket_start :
    History emptyMarket ([] : List (Submission marketNetwork)) emptyMarket := .start

/-- A deployment stands as it was signed; a contract created bare goes to whoever is first. -/
theorem not_frontrun_market :
    (∃ later, History emptyMarket [marketDeployment] later ∧
      Origin [marketDeployment] ⟨1⟩ (.replicate 32 0) .comet (.written "comet" ⟨20⟩)) ∧
    ∃ later, History emptyMarket [marketCreation, marketTakeover] later ∧
      Origin [marketCreation, marketTakeover] ⟨1⟩ (.replicate 32 0) .comet
        (.written "comet" ⟨21⟩) := by
  have hdeployed := History.commit marketDeployment emptyMarket_start rfl
  have htaken := History.commit marketTakeover (.commit marketCreation emptyMarket_start rfl) rfl
  refine ⟨⟨_, hdeployed, ?_⟩, _, htaken, ?_⟩
  · exact not_frontrun marketNetwork_contractId (by decide) rfl hdeployed rfl
  · exact not_frontrun marketNetwork_contractId (by decide) rfl htaken rfl

/-! ## Written once -/

/-- What the adapter at `contract` still is, in `later`, once it is initialised. -/
structure Bound (network : Network V) (contract : Address) (code : Adapter) (protocolId : String)
    (protocolAddress : Address) (chain later : Chain V) : Prop where
  kept : later.instances contract = some (.adapter code (.written protocolId protocolAddress))
  traded : ∃ made, later.exchangesOf contract = chain.exchangesOf contract ++ made ∧
    ∀ exchange ∈ made, exchange.venue = protocolAddress
  initialize_fails : ∀ (context : Context network) args, ∃ fault,
    invokeContract context contract "initialize" args later = .error fault later
  getProtocolId_returns : ∀ context : Context network,
    invokeContract context contract "get_protocol_id" [] later = .ok (.string protocolId) later
  getProtocolAddress_returns : ∀ context : Context network,
    invokeContract context contract "get_protocol_address" [] later =
      .ok (.address protocolAddress) later

section Bound

variable {contract : Address} {code : Adapter} {protocolId : String} {protocolAddress : Address}
  {chain later : Chain V}

/-- Putting back what was there changes nothing. -/
theorem commit_view {storage : Storage}
    (h : chain.instances contract = some (.adapter code storage)) :
    chain.commit contract code (chain.view storage) = chain := by
  unfold Chain.commit Chain.view
  simp [← h]

theorem invokeContract_eq (context : Context network) {storage : Storage}
    (h : chain.instances contract = some (.adapter code storage)) (function : Symbol)
    (args : List Val) : invokeContract context contract function args chain =
      invokeAdapter context contract code storage function args chain := by
  unfold invokeContract
  rw [h]

/-- Under the name of `initialize` no other function is called. -/
theorem decodeCall_initialize (args : List Val) :
    decodeCall "initialize" args = none ∨ ∃ protocolId protocolAddress,
      decodeCall "initialize" args = some (.initializeWith protocolId protocolAddress) := by
  unfold decodeCall
  split
  · exact .inl rfl
  · exact .inr ⟨_, _, rfl⟩
  next bytes =>
    cases bytes.hashes? with
    | none => exact .inl rfl
    | some poolHashes => exact .inl rfl
  · exact .inl rfl

theorem initialize_fails (context : Context network) (args : List Val)
    (h : later.instances contract = some (.adapter code (.written protocolId protocolAddress))) :
    ∃ fault, invokeContract context contract "initialize" args later = .error fault later := by
  rw [invokeContract_eq context h]
  unfold invokeAdapter
  rcases decodeCall_initialize args with hcall | ⟨id, address, hcall⟩
  · rw [hcall]
    exact ⟨_, rfl⟩
  · rw [hcall]
    exact ⟨_, rfl⟩

theorem getProtocolId_returns (context : Context network)
    (h : later.instances contract = some (.adapter code (.written protocolId protocolAddress))) :
    invokeContract context contract "get_protocol_id" [] later =
      .ok (.string protocolId) later := by
  rw [invokeContract_eq context h]
  show EStateM.Result.ok _ (later.commit contract code (later.view _)) = _
  rw [commit_view h]

theorem getProtocolAddress_returns (context : Context network)
    (h : later.instances contract = some (.adapter code (.written protocolId protocolAddress))) :
    invokeContract context contract "get_protocol_address" [] later =
      .ok (.address protocolAddress) later := by
  rw [invokeContract_eq context h]
  show EStateM.Result.ok _ (later.commit contract code (later.view _)) = _
  rw [commit_view h]

/-- The step of the induction: nothing moves the storage, and what the contract trades goes
to the address in it. -/
theorem kept_traded {log : List (Submission network)}
    (hinstance : chain.instances contract =
      some (.adapter code (.written protocolId protocolAddress)))
    (hlater : History chain log later) :
    later.instances contract = some (.adapter code (.written protocolId protocolAddress)) ∧
      ∃ made, later.exchangesOf contract = chain.exchangesOf contract ++ made ∧
        ∀ exchange ∈ made, exchange.venue = protocolAddress := by
  induction hlater with
  | start => exact ⟨hinstance, [], by simp, by simp⟩
  | outside h hout ih =>
      obtain ⟨hkept, htraded⟩ := ih
      rcases hout.instances contract with hsame | ⟨hnone, _⟩
      · refine ⟨hsame.trans hkept, ?_⟩
        unfold Chain.exchangesOf
        rw [hout.exchanges]
        exact htraded
      · simp [hkept] at hnone
  | commit submission h hrun ih =>
      obtain ⟨hkept, made, hmade, hvenue⟩ := ih
      cases run_concerns hrun contract with
      | elsewhere hsame hexchanges =>
          exact ⟨hsame.trans hkept, made, hexchanges.trans hmade, hvenue⟩
      | deployed _ _ _ _ _ _ _ _ _ _ hfree => simp [hkept] at hfree
      | created _ _ _ _ _ _ _ _ hfree => simp [hkept] at hfree
      | called code' storage call returned s hbefore hperformed hafter hexchanges =>
          obtain ⟨rfl, rfl⟩ : code = code' ∧ Storage.written protocolId protocolAddress = storage :=
            by simpa [hkept] using hbefore
          obtain ⟨more, hmore, hmoreVenue⟩ := hperformed.exchanges
          refine ⟨?_, made ++ more, ?_, ?_⟩
          · rw [hafter, hperformed.storage_kept rfl]
            rfl
          · rw [hexchanges, hmade, List.append_assoc]
            exact congrArg _ (congrArg _ hmore)
          · intro exchange hmem
            rcases List.mem_append.mp hmem with hmem | hmem
            · exact hvenue exchange hmem
            · exact (Option.some.inj (hmoreVenue exchange hmem)).symm

end Bound

/-- **Written once.** Whatever happens after an adapter is initialised, it keeps the protocol
it was initialised to: it trades nowhere else, it answers with nothing else, and it is never
initialised again. -/
theorem written_once {contract : Address} {code : Adapter} {protocolId : String}
    {protocolAddress : Address} {chain later : Chain V} {log : List (Submission network)}
    (hinstance : chain.instances contract =
      some (.adapter code (.written protocolId protocolAddress)))
    (hlater : History chain log later) :
    Bound network contract code protocolId protocolAddress chain later := by
  obtain ⟨hkept, htraded⟩ := kept_traded hinstance hlater
  exact {
    kept := hkept
    traded := htraded
    initialize_fails := fun context args => initialize_fails context args hkept
    getProtocolId_returns := fun context => getProtocolId_returns context hkept
    getProtocolAddress_returns := fun context => getProtocolAddress_returns context hkept }

/-- The market once the account has deployed. -/
def marketChain : Chain Unit :=
  emptyMarket.deployed marketContract .comet "comet" ⟨20⟩

/-- The account sells 100 units. -/
def marketSwap : Submission marketNetwork where
  context := ⟨0, [⟨1⟩], by decide⟩
  transaction := .invoke marketContract "swap_exact_tokens_for_tokens"
    [.i128 (.ofUInt32 100), .i128 (.ofUInt32 90), .addresses (.pair ⟨10⟩ ⟨11⟩), .address ⟨1⟩,
      .u64 1, .void]

/-- Somebody else asks for the protocol. -/
def marketQuestion : Submission marketNetwork where
  context := ⟨1, [⟨2⟩], by decide⟩
  transaction := .invoke marketContract "get_protocol_id" []

theorem written_once_market : ∃ later, History marketChain [marketSwap, marketQuestion] later ∧
    Bound marketNetwork marketContract .comet "comet" ⟨20⟩ marketChain later :=
  have hhistory := History.commit marketQuestion (.commit marketSwap .start rfl) rfl
  ⟨_, hhistory, written_once rfl hhistory⟩

/-! ## The record of a contract -/

/-- A contract's storage, the calls it has taken and the events it has published. The first
call has initialised it, no other has, and every swap was published. -/
inductive Recorded (code : Adapter) : Storage → List Call → List Event → Prop
  | fresh : Recorded code freshStorage [] []
  | initialized (protocolId : String) (protocolAddress : Address) (rest : List Call)
      (hrest : ∀ call ∈ rest, call.isInitialize = false) :
      Recorded code (.written protocolId protocolAddress)
        (.initializeWith protocolId protocolAddress :: rest)
        (.initialized code.topic true protocolId protocolAddress ::
          (rest.filterMap Call.swap?).map code.swapEvent)

/-- Where no adapter stands, nothing was called and nothing published. -/
def InstanceRecorded : Option Instance → List Call → List Event → Prop
  | some (.adapter code storage), calls, events => Recorded code storage calls events
  | _, calls, events => calls = [] ∧ events = []

/-- A call that went through extends the record. -/
theorem Recorded.step {code : Adapter} {env : Env V} {chain : Chain V} {storage : Storage}
    {calls : List Call} {events : List Event} {call : Call} {returned : Returned} {s : State V}
    (h : Recorded code storage calls events)
    (hperformed : Performed code env (chain.view storage) call returned s) :
    Recorded code s.storage (calls ++ [call]) (events ++ s.events) := by
  cases h with
  | fresh =>
      obtain ⟨protocolId, protocolAddress, rfl, rfl, rfl⟩ := hperformed.of_fresh rfl
      exact .initialized protocolId protocolAddress [] (by simp)
  | initialized protocolId protocolAddress rest hrest =>
      obtain ⟨hcall, hevents⟩ := hperformed.of_initialized rfl
      have hkept := hperformed.storage_kept rfl
      have hrest' : ∀ call' ∈ rest ++ [call], call'.isInitialize = false := by
        simpa [or_imp, forall_and] using ⟨hrest, hcall⟩
      have hmore : Recorded code _ _ _ := .initialized protocolId protocolAddress _ hrest'
      rw [hkept, hevents]
      cases hswap : call.swap? <;> simpa [hswap, Chain.view] using hmore

/-- **Events record calls.** From a free address on, the calls a contract has taken are none,
or one that initialises it and then others; its storage is what that call wrote, and its events
are that call and the swaps after it, in their order. -/
theorem events_record_calls {contract : Address} {chain later : Chain V}
    {log : List (Submission network)} (hfree : chain.instances contract = none)
    (hsilent : chain.eventsOf contract = []) (hlater : History chain log later) :
    InstanceRecorded (later.instances contract) (callsOf contract log)
      (later.eventsOf contract) := by
  induction hlater with
  | start =>
      rw [hfree]
      exact ⟨rfl, hsilent⟩
  | @outside log before after h hout ih =>
      have hevents : after.eventsOf contract = before.eventsOf contract := by
        unfold Chain.eventsOf
        rw [hout.events]
      rw [hevents]
      rcases hout.instances contract with hsame | ⟨hnone, hother⟩
      · rw [hsame]
        exact ih
      · rw [hnone] at ih
        rw [hother]
        exact ih
  | @commit log before after submission h hrun ih =>
      rw [callsOf_snoc]
      cases run_concerns hrun contract with
      | elsewhere hsame _ hevents hcalls =>
          rw [hsame, hevents, hcalls, List.append_nil]
          exact ih
      | deployed _ _ _ code protocolId protocolAddress _ _ _ _ hnone hafter hevents hcalls =>
          rw [hnone] at ih
          rw [hafter, hevents, hcalls, ih.1, ih.2]
          exact .initialized protocolId protocolAddress [] (by simp)
      | created _ _ _ code _ _ _ _ hnone hafter hevents hcalls =>
          rw [hnone] at ih
          rw [hafter, hevents, hcalls, ih.1, ih.2]
          exact .fresh
      | called code storage call returned s hbefore hperformed hafter _ hevents hcalls =>
          rw [hbefore] at ih
          rw [hafter, hevents, hcalls]
          exact Recorded.step ih hperformed

theorem events_record_calls_market : ∃ later,
    History emptyMarket [marketDeployment, marketSwap, marketQuestion, marketSwap] later ∧
      InstanceRecorded (later.instances marketContract)
        (callsOf marketContract [marketDeployment, marketSwap, marketQuestion, marketSwap])
        (later.eventsOf marketContract) := by
  have hswap := History.commit marketSwap (.commit marketDeployment emptyMarket_start rfl) rfl
  have hhistory := History.commit marketSwap (.commit marketQuestion hswap rfl) rfl
  exact ⟨_, hhistory, events_record_calls rfl rfl hhistory⟩

end WowmaxStellar.Adapters.Deployer
