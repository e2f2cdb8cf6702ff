import WowmaxStellar.Deployer.Chain

/-!
# The deployer

`deploy` creates a contract and calls its init function, in one transaction. A transaction
that fails leaves the chain as it was. A history interleaves transactions with changes from
outside: of the ledger, of the venues, and new contracts of other code.
-/

namespace WowmaxStellar.Adapters.Deployer

open Runs

variable {V : Type} {network : Network V}

def deploy (context : Context network) (deployer : Address) (wasmHash salt : BytesN32)
    (initFn : Symbol) (initArgs : List Val) : Exec V (Address × Returned) := do
  requireAuthUnless context (some network.self) deployer
  let deployedAddress ← deployV2 context (some network.self) deployer wasmHash salt
  let res ← invokeContract context deployedAddress initFn initArgs
  pure (deployedAddress, res)

/-! ## Transactions -/

inductive Transaction
  | deploy (deployer : Address) (wasmHash salt : BytesN32) (initFn : Symbol) (initArgs : List Val)
  | createContract (deployer : Address) (wasmHash salt : BytesN32)
  | invoke (contract : Address) (function : Symbol) (args : List Val)

def Transaction.run (context : Context network) : Transaction → Exec V Unit
  | .deploy deployer wasmHash salt initFn initArgs => do
      let _ ← Deployer.deploy context deployer wasmHash salt initFn initArgs
      pure ()
  | .createContract deployer wasmHash salt => do
      let _ ← deployV2 context none deployer wasmHash salt
      pure ()
  | .invoke contract function args => do
      let _ ← invokeContract context contract function args
      pure ()

/-- A transaction with the conditions it was submitted under. -/
structure Submission (network : Network V) where
  context : Context network
  transaction : Transaction

def Submission.run (submission : Submission network) : Exec V Unit :=
  submission.transaction.run submission.context

/-- What happens on the chain outside the adapters. -/
structure Outside (chain chain' : Chain V) : Prop where
  instances : ∀ contract, chain'.instances contract = chain.instances contract ∨
    chain.instances contract = none ∧ chain'.instances contract = some .other
  exchanges : chain'.exchanges = chain.exchanges
  events : chain'.events = chain.events

/-- From `chain` on, with the transactions that went through on the way. One that failed has
left no trace. -/
inductive History (chain : Chain V) : List (Submission network) → Chain V → Prop
  | start : History chain [] chain
  | commit {log : List (Submission network)} {chain' chain'' : Chain V}
      (submission : Submission network) (h : History chain log chain')
      (hrun : submission.run chain' = .ok () chain'') :
      History chain (log ++ [submission]) chain''
  | outside {log : List (Submission network)} {chain' chain'' : Chain V}
      (h : History chain log chain') (hout : Outside chain' chain'') : History chain log chain''

/-! ## The calls of a log -/

/-- The calls of adapters that a transaction makes. -/
def Transaction.calls (network : Network V) : Transaction → List (Address × Call)
  | .deploy deployer _ salt initFn initArgs =>
      (decodeCall initFn initArgs).toList.map (network.contractId deployer salt, ·)
  | .createContract .. => []
  | .invoke contract function args => (decodeCall function args).toList.map (contract, ·)

/-- The calls of `contract`, in the order of the log. -/
def callsOf (contract : Address) (log : List (Submission network)) : List Call :=
  entriesOf contract (log.flatMap fun submission => submission.transaction.calls network)

/-! ## What a transaction does -/

theorem requireAuth_ok {context : Context network} {address : Address} {chain chain' : Chain V}
    (h : requireAuth context address chain = .ok () chain') :
    address ∈ context.signers ∧ chain' = chain := by
  unfold requireAuth at h
  by_cases hsigned : address ∈ context.signers
  · rw [if_pos hsigned] at h
    cases h
    exact ⟨hsigned, rfl⟩
  · rw [if_neg hsigned] at h
    cases h

theorem requireAuthUnless_ok {context : Context network} {running : Option Address}
    {address : Address} {chain chain' : Chain V}
    (h : requireAuthUnless context running address chain = .ok () chain') :
    (running = some address ∨ address ∈ context.signers) ∧ chain' = chain := by
  unfold requireAuthUnless at h
  by_cases hrunning : running = some address
  · rw [if_pos hrunning] at h
    cases h
    exact ⟨.inl hrunning, rfl⟩
  · rw [if_neg hrunning] at h
    obtain ⟨hsigned, heq⟩ := requireAuth_ok h
    exact ⟨.inr hsigned, heq⟩

theorem deployV2_ok {context : Context network} {running : Option Address}
    {deployer contract : Address} {wasmHash salt : BytesN32} {chain chain' : Chain V}
    (h : deployV2 context running deployer wasmHash salt chain = .ok contract chain') :
    (running = some deployer ∨ deployer ∈ context.signers) ∧
      contract = network.contractId deployer salt ∧ chain.instances contract = none ∧
      ∃ code, network.wasm wasmHash = some code ∧ chain' = chain.create contract code := by
  unfold deployV2 at h
  obtain ⟨_, chain₀, hrun, hcreate⟩ := bind_ok_iff.mp h
  obtain ⟨hauth, heq⟩ := requireAuthUnless_ok hrun
  rw [heq] at hcreate
  cases hcode : network.wasm wasmHash with
  | none =>
      rw [hcode] at hcreate
      cases hcreate
  | some code =>
      simp only [hcode] at hcreate
      cases hinstance : chain.instances (network.contractId deployer salt) with
      | some taken =>
          rw [hinstance] at hcreate
          cases hcreate
      | none =>
          rw [hinstance] at hcreate
          cases hcreate
          exact ⟨hauth, rfl, hinstance, code, rfl, rfl⟩

theorem invokeContract_ok {context : Context network} {contract : Address} {function : Symbol}
    {args : List Val} {returned : Returned} {chain chain' : Chain V}
    (h : invokeContract context contract function args chain = .ok returned chain') :
    ∃ code storage call s, chain.instances contract = some (.adapter code storage) ∧
      decodeCall function args = some call ∧
      Performed code context.env (chain.view storage) call returned s ∧
      chain' = chain.commit contract code s := by
  unfold invokeContract at h
  split at h
  next code storage hinstance =>
    unfold invokeAdapter at h
    split at h
    next => cases h
    next call hcall =>
      split at h
      next => cases h
      next answered s hrun =>
        cases h
        exact ⟨code, storage, call, s, hinstance, hcall,
          (perform_performed code context.env (chain.view storage) call).ok hrun, rfl⟩
  next => cases h

theorem decodeCall_initializeWith {function : Symbol} {args : List Val} {protocolId : String}
    {protocolAddress : Address}
    (h : decodeCall function args = some (.initializeWith protocolId protocolAddress)) :
    function = "initialize" ∧ args = [.string protocolId, .address protocolAddress] := by
  unfold decodeCall at h
  split at h
  next => split_ifs at h <;> cases h
  next =>
    split_ifs at h with hname
    cases h
    exact ⟨hname, rfl⟩
  next bytes =>
    cases hbytes : bytes.hashes? with
    | none =>
        rw [hbytes] at h
        cases h
    | some poolHashes =>
        rw [hbytes, Option.bind_eq_bind, Option.bind_some] at h
        split_ifs at h <;> cases h
  next => cases h

/-- The chain with a new contract that is initialised. -/
def Chain.deployed (chain : Chain V) (contract : Address) (code : Adapter) (protocolId : String)
    (protocolAddress : Address) : Chain V :=
  { chain with
    instances := Function.update chain.instances contract
      (some (.adapter code (.written protocolId protocolAddress)))
    events := chain.events ++
      [(contract, .initialized code.topic true protocolId protocolAddress)] }

/-- What a deployment that returned has done. -/
theorem deploy_ok {context : Context network} {deployer : Address} {wasmHash salt : BytesN32}
    {initFn : Symbol} {initArgs : List Val} {address : Address} {res : Returned}
    {chain chain' : Chain V}
    (h : deploy context deployer wasmHash salt initFn initArgs chain = .ok (address, res) chain') :
    (deployer = network.self ∨ deployer ∈ context.signers) ∧
      address = network.contractId deployer salt ∧ chain.instances address = none ∧
      res = .void ∧ initFn = "initialize" ∧
      ∃ code protocolId protocolAddress, network.wasm wasmHash = some code ∧
        initArgs = [.string protocolId, .address protocolAddress] ∧
        chain' = chain.deployed address code protocolId protocolAddress := by
  obtain ⟨_, chain₀, hrun, hrest⟩ := bind_ok_iff.mp h
  obtain ⟨hauth, heq⟩ := requireAuthUnless_ok hrun
  rw [heq] at hrest
  obtain ⟨contract, created, hcreate, hrest⟩ := bind_ok_iff.mp hrest
  obtain ⟨_, hcontract, hfree, code, hcode, rfl⟩ := deployV2_ok hcreate
  obtain ⟨returned, called, hinvoke, hrest⟩ := bind_ok_iff.mp hrest
  cases hrest
  obtain ⟨code', storage, call, s, hinstance, hcall, hperformed, rfl⟩ := invokeContract_ok hinvoke
  -- the init function runs on the contract just created
  obtain ⟨rfl, rfl⟩ : code = code' ∧ freshStorage = storage := by
    simpa [Chain.create] using hinstance
  obtain ⟨protocolId, protocolAddress, rfl, rfl, rfl⟩ := hperformed.of_fresh rfl
  obtain ⟨hname, hargs⟩ := decodeCall_initializeWith hcall
  refine ⟨hauth.imp_left fun h => (Option.some.inj h).symm, hcontract, hfree, rfl, hname, code,
    protocolId, protocolAddress, hcode, hargs, ?_⟩
  simp [Chain.commit, Chain.create, Chain.view, Chain.deployed]

/-- What a transaction that went through has done. -/
inductive Committed (submission : Submission network) (chain : Chain V) : Chain V → Prop
  | deploy (deployer : Address) (wasmHash salt : BytesN32) (code : Adapter) (protocolId : String)
      (protocolAddress : Address)
      (htransaction : submission.transaction = .deploy deployer wasmHash salt "initialize"
        [.string protocolId, .address protocolAddress])
      (hauth : deployer = network.self ∨ deployer ∈ submission.context.signers)
      (hcode : network.wasm wasmHash = some code)
      (hfree : chain.instances (network.contractId deployer salt) = none) :
      Committed submission chain
        (chain.deployed (network.contractId deployer salt) code protocolId protocolAddress)
  | createContract (deployer : Address) (wasmHash salt : BytesN32) (code : Adapter)
      (htransaction : submission.transaction = .createContract deployer wasmHash salt)
      (hauth : deployer ∈ submission.context.signers)
      (hcode : network.wasm wasmHash = some code)
      (hfree : chain.instances (network.contractId deployer salt) = none) :
      Committed submission chain (chain.create (network.contractId deployer salt) code)
  | invoke (contract : Address) (function : Symbol) (args : List Val) (code : Adapter)
      (storage : Storage) (call : Call) (returned : Returned) (s : State V)
      (htransaction : submission.transaction = .invoke contract function args)
      (hinstance : chain.instances contract = some (.adapter code storage))
      (hcall : decodeCall function args = some call)
      (hperformed : Performed code submission.context.env (chain.view storage) call returned s) :
      Committed submission chain (chain.commit contract code s)

theorem run_committed {submission : Submission network} {chain chain' : Chain V}
    (h : submission.run chain = .ok () chain') : Committed submission chain chain' := by
  obtain ⟨context, transaction⟩ := submission
  cases transaction with
  | deploy deployer wasmHash salt initFn initArgs =>
      obtain ⟨deployed, _, hrun, hrest⟩ := bind_ok_iff.mp h
      cases hrest
      obtain ⟨address, res⟩ := deployed
      obtain ⟨hauth, rfl, hfree, rfl, rfl, code, protocolId, protocolAddress, hcode, rfl, rfl⟩ :=
        deploy_ok hrun
      exact .deploy deployer wasmHash salt code protocolId protocolAddress rfl hauth hcode hfree
  | createContract deployer wasmHash salt =>
      obtain ⟨contract, _, hrun, hrest⟩ := bind_ok_iff.mp h
      cases hrest
      obtain ⟨hauth, rfl, hfree, code, hcode, rfl⟩ := deployV2_ok hrun
      refine .createContract deployer wasmHash salt code rfl ?_ hcode hfree
      exact hauth.resolve_left (Option.some_ne_none deployer).symm
  | invoke contract function args =>
      obtain ⟨returned, _, hrun, hrest⟩ := bind_ok_iff.mp h
      cases hrest
      obtain ⟨code, storage, call, s, hinstance, hcall, hperformed, rfl⟩ := invokeContract_ok hrun
      exact .invoke contract function args code storage call returned s rfl hinstance hcall
        hperformed

/-- What a transaction that went through is to one contract. -/
inductive Concerns (submission : Submission network) (contract : Address) (chain chain' : Chain V) :
    Prop
  | elsewhere (hinstance : chain'.instances contract = chain.instances contract)
      (hexchanges : chain'.exchangesOf contract = chain.exchangesOf contract)
      (hevents : chain'.eventsOf contract = chain.eventsOf contract)
      (hcalls : entriesOf contract (submission.transaction.calls network) = [])
  | deployed (deployer : Address) (wasmHash salt : BytesN32) (code : Adapter)
      (protocolId : String) (protocolAddress : Address)
      (hcontract : network.contractId deployer salt = contract)
      (htransaction : submission.transaction = .deploy deployer wasmHash salt "initialize"
        [.string protocolId, .address protocolAddress])
      (hauth : deployer = network.self ∨ deployer ∈ submission.context.signers)
      (hcode : network.wasm wasmHash = some code)
      (hfree : chain.instances contract = none)
      (hinstance : chain'.instances contract =
        some (.adapter code (.written protocolId protocolAddress)))
      (hevents : chain'.eventsOf contract = chain.eventsOf contract ++
        [.initialized code.topic true protocolId protocolAddress])
      (hcalls : entriesOf contract (submission.transaction.calls network) =
        [.initializeWith protocolId protocolAddress])
  | created (deployer : Address) (wasmHash salt : BytesN32) (code : Adapter)
      (hcontract : network.contractId deployer salt = contract)
      (htransaction : submission.transaction = .createContract deployer wasmHash salt)
      (hauth : deployer ∈ submission.context.signers)
      (hcode : network.wasm wasmHash = some code)
      (hfree : chain.instances contract = none)
      (hinstance : chain'.instances contract = some (.adapter code freshStorage))
      (hevents : chain'.eventsOf contract = chain.eventsOf contract)
      (hcalls : entriesOf contract (submission.transaction.calls network) = [])
  | called (code : Adapter) (storage : Storage) (call : Call) (returned : Returned) (s : State V)
      (hbefore : chain.instances contract = some (.adapter code storage))
      (hperformed : Performed code submission.context.env (chain.view storage) call returned s)
      (hinstance : chain'.instances contract = some (.adapter code s.storage))
      (hexchanges : chain'.exchangesOf contract = chain.exchangesOf contract ++ s.exchanges)
      (hevents : chain'.eventsOf contract = chain.eventsOf contract ++ s.events)
      (hcalls : entriesOf contract (submission.transaction.calls network) = [call])

theorem run_concerns {submission : Submission network} {chain chain' : Chain V}
    (h : submission.run chain = .ok () chain') (contract : Address) :
    Concerns submission contract chain chain' := by
  cases run_committed h with
  | deploy deployer wasmHash salt code protocolId protocolAddress htransaction hauth hcode hfree =>
      by_cases hcontract : network.contractId deployer salt = contract
      · subst hcontract
        refine .deployed deployer wasmHash salt code protocolId protocolAddress rfl htransaction
          hauth hcode hfree (Function.update_self ..) ?_ ?_
        · exact (entriesOf_append ..).trans (congrArg _ (entriesOf_map_self [_]))
        · rw [htransaction]
          exact entriesOf_map_self [_]
      · refine .elsewhere (Function.update_of_ne (Ne.symm hcontract) ..) rfl ?_ ?_
        · refine (entriesOf_append ..).trans ?_
          exact (congrArg _ (entriesOf_map_of_ne hcontract [_])).trans (List.append_nil _)
        · rw [htransaction]
          exact entriesOf_map_of_ne hcontract [_]
  | createContract deployer wasmHash salt code htransaction hauth hcode hfree =>
      have hcalls : entriesOf contract (submission.transaction.calls network) = [] := by
        rw [htransaction]
        rfl
      by_cases hcontract : network.contractId deployer salt = contract
      · subst hcontract
        exact .created deployer wasmHash salt code rfl htransaction hauth hcode hfree
          (Function.update_self ..) rfl hcalls
      · exact .elsewhere (Function.update_of_ne (Ne.symm hcontract) ..) rfl rfl hcalls
  | invoke called function args code storage call returned s htransaction hinstance hcall
      hperformed =>
      have hcalls : submission.transaction.calls network = [call].map (called, ·) := by
        rw [htransaction]
        simp [Transaction.calls, hcall]
      by_cases hcontract : called = contract
      · subst hcontract
        refine .called code storage call returned s hinstance hperformed
          (Function.update_self ..) ?_ ?_ ?_
        · exact (entriesOf_append ..).trans (congrArg _ (entriesOf_map_self _))
        · exact (entriesOf_append ..).trans (congrArg _ (entriesOf_map_self _))
        · rw [hcalls, entriesOf_map_self]
      · refine .elsewhere (Function.update_of_ne (Ne.symm hcontract) ..) ?_ ?_ ?_
        · refine (entriesOf_append ..).trans ?_
          rw [entriesOf_map_of_ne hcontract, List.append_nil]
          rfl
        · refine (entriesOf_append ..).trans ?_
          rw [entriesOf_map_of_ne hcontract, List.append_nil]
          rfl
        · rw [hcalls, entriesOf_map_of_ne hcontract]

end WowmaxStellar.Adapters.Deployer
