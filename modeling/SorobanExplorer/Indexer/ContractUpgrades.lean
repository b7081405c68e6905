import SorobanExplorer.Persist.ContractsSpec

/-!
# Upgrades over a ledger

The contracts a ledger deploys and upgrades, transaction by transaction, and
what is staged for a contract whose last change is an upgrade.
-/

namespace SorobanExplorer

open KeyedFold Persist Text

/-- One transaction, as far as contracts go. -/
structure ContractTx where
  hash : String
  sourceAccount : String
  txMeta : TransactionMeta
  events : List ExtractedEvent

section

variable [Crates]

/-- The deployments of one transaction. -/
def ContractTx.deployments (networkId : Hash) (deployerByContract : Table String String)
    (ledgerSequence : UInt32) (createdAt : ℤ) (tx : ContractTx) :
    List ExtractedContractDeployment :=
  extractContractDeployments
    (extractLedgerEntryChanges tx.txMeta tx.hash ledgerSequence createdAt)
    tx.sourceAccount networkId deployerByContract

/-- What every deployment of a transaction states: the ledger it was made in,
and a hash only in hex and only if it borrows no executable. -/
theorem deployments_spec {networkId : Hash} {deployerByContract : Table String String}
    {ledgerSequence : UInt32} {createdAt : ℤ} {tx : ContractTx}
    {dep : ExtractedContractDeployment}
    (h : dep ∈ tx.deployments networkId deployerByContract ledgerSequence createdAt) :
    dep.deployedAtLedger = ledgerSequence ∧ ∀ wasmHash, dep.wasmHash = some wasmHash →
      (∃ hash : Hash, wasmHash = hexEncode hash.bytes) ∧ dep.executableRef = none := by
  obtain ⟨extracted, hextracted, hdep⟩ := List.mem_filterMap.mp h
  obtain ⟨⟨⟨operationIndex, change⟩, index⟩, -, rfl⟩ := List.mem_map.mp hextracted
  simp only [contractDeployment, Option.bind_eq_bind, Option.bind_eq_some_iff,
    Option.guard_eq_some', Option.some.injEq] at hdep
  obtain ⟨_, ⟨htype, -⟩, data, hdata, _, _, _, _, rfl⟩ := hdep
  obtain ⟨entry, rfl⟩ := extractSingleChange_contractData htype hdata
  exact ⟨rfl, fun wasmHash hhash => extractWasmHash_contractDataData hhash⟩

/-- One ledger, as far as contracts go.  The deployer of a contract comes from
the envelopes. -/
structure ContractLedger where
  ledgerSequence : UInt32
  createdAt : ℤ
  networkId : Hash
  deployerByContract : Table String String
  txs : List ContractTx

namespace ContractLedger

variable (ledger : ContractLedger)

def deployments : List ExtractedContractDeployment :=
  ledger.txs.flatMap
    (·.deployments ledger.networkId ledger.deployerByContract ledger.ledgerSequence ledger.createdAt)

def events : List (String × List ExtractedEvent) :=
  ledger.txs.map fun tx => (tx.hash, tx.events)

/-- The contract rows staged for the ledger, given the rows stored before it. -/
def stageContracts (order : DrainOrder SorobanContractRow)
    (wasmClassification priorWasmVerdicts : Bytes → Option ContractType)
    (stored : List SorobanContractRow) : Except SchemaError (List SorobanContractRow) :=
  contractRows order wasmClassification priorWasmVerdicts ledger.deployments ledger.events
    (fetchPriorContractRows stored ledger.events) ledger.ledgerSequence.toNat

/-- A change of what a contract runs. -/
inductive ExecutableChange
  | deployed (dep : ExtractedContractDeployment)
  | updated (update : ExecutableUpdate)
  deriving DecidableEq

/-- The updates of one contract among events. -/
def updatesOf (contract : String) (events : List ExtractedEvent) : List ExecutableUpdate :=
  (events.filterMap executableUpdateOf).filterMap fun update =>
    if update.1 = contract then some update.2 else none

/-- Every change of what a contract runs, in the order they were applied.  A
transaction can only update a contract it has deployed already. -/
def executableChanges (contract : String) : List ExecutableChange :=
  ledger.txs.flatMap fun tx =>
    ((tx.deployments ledger.networkId ledger.deployerByContract ledger.ledgerSequence
        ledger.createdAt).filter (·.contractId = contract)).map .deployed ++
      (updatesOf contract tx.events).map .updated

/-- The first deployment of a contract in the ledger. -/
def deploymentOf (contract : String) : Option ExtractedContractDeployment :=
  ledger.deployments.find? (·.contractId = contract)

/-- The last row staged for a contract is a row stored for it before, or the one
of its deployment in the ledger, with nothing changed but the executable and the
version that goes with it. -/
def UpgradeStaged (order : DrainOrder SorobanContractRow)
    (wasmClassification priorWasmVerdicts : Bytes → Option ContractType)
    (stored : List SorobanContractRow) (contract : String) (hash : Bytes) : Prop :=
  ∃ rows row base,
    ledger.stageContracts order wasmClassification priorWasmVerdicts stored = .ok rows ∧
    (rows.filter (·.contractId = contract)).getLast? = some row ∧
    (base ∈ stored ∧ base.contractId = contract ∨ ∃ dep, ledger.deploymentOf contract = some dep ∧
      deploymentRow wasmClassification priorWasmVerdicts dep = .ok base) ∧
    row = base.upgrade ledger.ledgerSequence.toNat (.wasm hash)

variable {ledger}

/-- The last change of a contract, if it is an update, is its last update. -/
theorem lastOf_executableUpdates {contract : String} {update : ExecutableUpdate}
    (h : (ledger.executableChanges contract).getLast? = some (.updated update)) :
    lastOf contract (executableUpdates ledger.events) = some update := by
  let asUpdate : ExecutableChange → Option ExecutableUpdate
    | .deployed _ => none
    | .updated update => some update
  have hupdates : (executableUpdates ledger.events).filterMap (fun update =>
      if update.1 = contract then some update.2 else none) =
      (ledger.executableChanges contract).filterMap asUpdate := by
    unfold executableUpdates executableChanges events
    induction ledger.txs with
    | nil => rfl
    | cons tx rest ih =>
        simp only [List.map_cons, List.flatMap_cons, List.filterMap_append] at ih ⊢
        rw [ih]
        congr 1
        simp [List.filterMap_map, asUpdate, updatesOf]
  unfold lastOf
  rw [hupdates]
  obtain ⟨before, hchanges⟩ := List.getLast?_eq_some_iff.mp h
  rw [hchanges, List.filterMap_append]
  simp [asUpdate]

variable {order : DrainOrder SorobanContractRow}
variable {wasmClassification priorWasmVerdicts : Bytes → Option ContractType}
variable {stored : List SorobanContractRow} {contract : String} {hash : Bytes}

theorem contractId_of_lookup_fetch {events : List (String × List ExtractedEvent)} :
    ∀ contract row, (fetchPriorContractRows stored events).lookup contract = some row →
      row ∈ stored ∧ row.contractId = contract := by
  intro contract row hrow
  rw [lookup_fetchPriorContractRows] at hrow
  split at hrow
  · simpa using List.mem_of_getLast? hrow
  · cases hrow

theorem deployment_spec {dep : ExtractedContractDeployment} (h : dep ∈ ledger.deployments) :
    dep.deployedAtLedger = ledger.ledgerSequence ∧ ∀ wasmHash, dep.wasmHash = some wasmHash →
      (∃ hash : Hash, wasmHash = hexEncode hash.bytes) ∧ dep.executableRef = none := by
  obtain ⟨tx, -, hdep⟩ := List.mem_flatMap.mp h
  exact deployments_spec hdep

variable (ledger) in
/-- Staging succeeds, and a contract's rows are the one of its first deployment
and then the one of its last update, if a row was stored before. -/
theorem stageContracts_spec (order : DrainOrder SorobanContractRow)
    (wasmClassification priorWasmVerdicts : Bytes → Option ContractType)
    (stored : List SorobanContractRow) (contract : String) :
    ∃ rows deployed,
      ledger.stageContracts order wasmClassification priorWasmVerdicts stored = .ok rows ∧
      List.Forall₂
        (fun dep row => deploymentRow wasmClassification priorWasmVerdicts dep = .ok row)
        (ledger.deploymentOf contract).toList deployed ∧
      rows.filter (·.contractId = contract) = deployed ++
        (((fetchPriorContractRows stored ledger.events).lookup contract).bind fun priorRow =>
          (lastOf contract (executableUpdates ledger.events)).map
            (priorRow.upgrade ledger.ledgerSequence.toNat)).toList := by
  have hok : ∀ dep ∈ ledger.deployments,
      ∃ row, deploymentRow wasmClassification priorWasmVerdicts dep = .ok row := by
    intro dep hdep
    exact deploymentRow_ok fun wasmHash hhash => ((deployment_spec hdep).2 wasmHash hhash).1
  obtain ⟨deployed, hdeployed, hfilter⟩ := deploymentRows_spec hok []
  refine ⟨deployed ++ buildWasmUpgradeRows order ledger.events
    (fetchPriorContractRows stored ledger.events) ledger.ledgerSequence.toNat,
    deployed.filter (·.contractId = contract), ?_, ?_, ?_⟩
  · unfold stageContracts contractRows
    rw [hdeployed]
    rfl
  · simpa [deploymentOf] using hfilter contract
  · rw [List.filter_append, upgradeRows_of_contract]
    exact fun contract row hrow => (contractId_of_lookup_fetch contract row hrow).2

/-- A deployment's row is its own upgrade exactly when it already has the hash. -/
theorem deploymentRow_upgrade_iff {dep : ExtractedContractDeployment} {row : SorobanContractRow}
    (hdep : dep ∈ ledger.deployments)
    (hrow : deploymentRow wasmClassification priorWasmVerdicts dep = .ok row) :
    row = row.upgrade ledger.ledgerSequence.toNat (.wasm hash) ↔
      dep.wasmHash = some (hexEncode hash) := by
  obtain ⟨hledger, hhash⟩ := deployment_spec hdep
  obtain ⟨-, hversion, hdecoded, howner, htag⟩ := deploymentRow_spec hrow
  constructor
  · intro h
    have hrowHash : row.wasmHash = some hash := by
      rw [h]
      rfl
    cases hwasm : dep.wasmHash with
    | none =>
        rw [hwasm] at hdecoded
        cases (Except.ok.inj hdecoded).trans hrowHash
    | some wasmHash =>
        obtain ⟨⟨deployedHash, rfl⟩, -⟩ := hhash wasmHash hwasm
        rw [hwasm, Option.mapM_some, decodeHash_hexEncode] at hdecoded
        have hbytes : some deployedHash.bytes = some hash :=
          (Except.ok.inj hdecoded).trans hrowHash
        rw [Option.some.inj hbytes]
  · intro hwasm
    obtain ⟨⟨deployedHash, hhex⟩, href⟩ := hhash _ hwasm
    -- the hash is stored as the bytes of its hex text
    have hbytes : deployedHash.bytes = hash := by
      have hdecode := congrArg hexDecode hhex
      rw [hexDecode_hexEncode, hexDecode_hexEncode] at hdecode
      exact (Option.some.inj hdecode).symm
    rw [hwasm, hhex, Option.mapM_some, decodeHash_hexEncode] at hdecoded
    have hrowHash : row.wasmHash = some hash := by
      rw [← hbytes]
      exact (Except.ok.inj hdecoded).symm
    rw [href] at howner htag
    rw [hledger] at hversion
    cases row
    simp only [Option.map_none] at howner htag hrowHash hversion
    subst howner htag hrowHash hversion
    rfl

/-- An upgrade to a hash is staged exactly when a row of the contract was stored
before the ledger, or the ledger deployed it with that hash already. -/
theorem upgradeStaged_iff (order : DrainOrder SorobanContractRow)
    (wasmClassification priorWasmVerdicts : Bytes → Option ContractType)
    (stored : List SorobanContractRow)
    (hlast : (ledger.executableChanges contract).getLast? = some (.updated (.wasm hash))) :
    ledger.UpgradeStaged order wasmClassification priorWasmVerdicts stored contract hash ↔
      (∃ row ∈ stored, row.contractId = contract) ∨
        ∃ dep, ledger.deploymentOf contract = some dep ∧
          dep.wasmHash = some (hexEncode hash) := by
  obtain ⟨rows, deployed, hrows, hdeployed, hfilter⟩ :=
    ledger.stageContracts_spec order wasmClassification priorWasmVerdicts stored contract
  have hupdate := lastOf_executableUpdates hlast
  rw [hupdate] at hfilter
  cases hprior : (fetchPriorContractRows stored ledger.events).lookup contract with
  | some priorRow =>
      -- the upgrade row comes last
      have hstored := contractId_of_lookup_fetch contract priorRow hprior
      rw [hprior] at hfilter
      refine iff_of_true ⟨rows, _, priorRow, hrows, ?_, .inl hstored, rfl⟩
        (.inl ⟨priorRow, hstored⟩)
      rw [hfilter]
      simp
  | none =>
      -- the deployment row is the only one
      have hnone : ¬ ∃ row ∈ stored, row.contractId = contract := by
        have hwanted : contract ∈ (executableUpdates ledger.events).map Prod.fst := by
          by_contra hnot
          have hunsaid : lastOf contract (executableUpdates ledger.events) = none :=
            lastOf_eq_none.mpr fun update hmem heq => hnot (heq ▸ List.mem_map_of_mem hmem)
          rw [hunsaid] at hupdate
          cases hupdate
        rw [lookup_fetchPriorContractRows, if_pos hwanted, List.getLast?_eq_none_iff,
          List.filter_eq_nil_iff] at hprior
        rintro ⟨row, hrow, heq⟩
        exact hprior row hrow (by simpa using heq)
      rw [hprior, Option.bind_none, Option.toList_none, List.append_nil] at hfilter
      cases hdep : ledger.deploymentOf contract with
      | none =>
          rw [hdep, Option.toList_none, List.forall₂_nil_left_iff] at hdeployed
          refine iff_of_false ?_ ?_
          · rintro ⟨rows', row, base, hrows', hrow, -, -⟩
            obtain rfl : rows' = rows := Except.ok.inj (hrows'.symm.trans hrows)
            rw [hfilter, hdeployed] at hrow
            cases hrow
          · rintro (hstored | ⟨dep, hsome, -⟩)
            · exact hnone hstored
            · cases hsome
      | some dep =>
          have hmem : dep ∈ ledger.deployments := List.mem_of_find?_eq_some hdep
          rw [hdep, Option.toList_some, List.forall₂_cons_left_iff] at hdeployed
          obtain ⟨row, rest, hrow, hrest, rfl⟩ := hdeployed
          obtain rfl := List.forall₂_nil_left_iff.mp hrest
          have hupgrade : row = row.upgrade ledger.ledgerSequence.toNat (.wasm hash) ↔
              dep.wasmHash = some (hexEncode hash) :=
            deploymentRow_upgrade_iff hmem hrow
          constructor
          · rintro ⟨rows', row', base, hrows', hrow', hbase, hequal⟩
            obtain rfl : rows' = rows := Except.ok.inj (hrows'.symm.trans hrows)
            rw [hfilter] at hrow'
            obtain rfl : row = row' := Option.some.inj hrow'
            rcases hbase with hstored | ⟨dep', hdep', hrow'⟩
            · exact absurd ⟨base, hstored⟩ hnone
            · obtain rfl : dep = dep' := Option.some.inj (hdep.symm.trans hdep')
              obtain rfl : row = base := Except.ok.inj (hrow.symm.trans hrow')
              exact .inr ⟨dep, rfl, hupgrade.mp hequal⟩
          · rintro (hstored | ⟨dep', hdep', hhash⟩)
            · exact absurd hstored hnone
            · obtain rfl := Option.some.inj hdep'
              refine ⟨rows, row, row, hrows, ?_, .inr ⟨dep, hdep, hrow⟩, hupgrade.mpr hhash⟩
              rw [hfilter]
              rfl

end ContractLedger

end

/-! ## Deployed and upgraded in one ledger -/

/-- The pinned contract created with the code of hash `0101…01`. -/
def createsContract : TransactionMeta :=
  .v4 [] [{
    changes := [.created
      { lastModifiedLedgerSeq := 60000000
        data := .contractData
          { contract := .contract Crates.pinnedContract
            key := .ledgerKeyContractInstance
            durability := .persistent
            val := .contractInstance
              (.wasm 0x0101010101010101010101010101010101010101010101010101010101010101) none } }]
    events := [] }] [] none [] []

/-- The host's event of the pinned contract's upgrade to the hash `0202…02`. -/
def upgradesContract : ExtractedEvent where
  transactionHash := "bb"
  eventId := ⟨60000000, 2, 0, 0⟩
  origin := .operation 0
  body :=
    { eventType := .system
      contractId := some "CCSNFZ5RA2EHTSMK2A5ZDXRCAQBYBVFAPJFNWP5BJECLIL4J5UBLLUQG"
      topics := .arr [typedJson "sym" (.str "executable_update"),
        typedJson "vec" (.arr []),
        typedJson "vec" (.arr
          [typedJson "sym" (.str "Wasm"), typedJson "bytes" (.str Crates.pinnedBase64)])]
      data := typedJson "void" .null }
  createdAt := 0

/-- A ledger of the given transactions. -/
def contractLedger (txs : List ContractTx) : ContractLedger where
  ledgerSequence := 60000000
  createdAt := 0
  networkId := Crates.pinnedNetwork
  deployerByContract := ∅
  txs

/-- The stored row of the pinned contract, deployed three million ledgers ago. -/
def storedContract : SorobanContractRow where
  id := 7
  contractId := "CCSNFZ5RA2EHTSMK2A5ZDXRCAQBYBVFAPJFNWP5BJECLIL4J5UBLLUQG"
  wasmHash := some (List.replicate 32 1)
  wasmUploadedAtLedger := 57000000
  deployerId := some 3
  deployedAtLedger := some 57000000
  contractType := some 1
  isSac := false
  executableOwnerId := none
  executableTag := none

theorem upgradeStaged_iff_storedContract :
    @ContractLedger.UpgradeStaged Crates.pinned
      (contractLedger [⟨"bb", "", .v0 [], [upgradesContract]⟩]) .stored (fun _ => none)
      (fun _ => none) [storedContract] storedContract.contractId (List.replicate 32 2) :=
  (@ContractLedger.upgradeStaged_iff Crates.pinned _ storedContract.contractId _ .stored
    (fun _ => none) (fun _ => none) [storedContract] (by decide)).mpr
    (.inl ⟨storedContract, List.mem_singleton_self _, rfl⟩)

/-- A contract created by one transaction and upgraded by the next keeps the row
of its creation. -/
theorem not_upgradeStaged_sameLedger :
    (@ContractLedger.executableChanges Crates.pinned
        (contractLedger [⟨"aa", "", createsContract, []⟩, ⟨"bb", "", .v0 [], [upgradesContract]⟩])
        storedContract.contractId).getLast? = some (.updated (.wasm (List.replicate 32 2))) ∧
    ¬ @ContractLedger.UpgradeStaged Crates.pinned
      (contractLedger [⟨"aa", "", createsContract, []⟩, ⟨"bb", "", .v0 [], [upgradesContract]⟩])
      .stored (fun _ => none) (fun _ => none) [] storedContract.contractId
      (List.replicate 32 2) := by
  let _ : Crates := Crates.pinned
  refine ⟨by decide, ?_⟩
  rintro ⟨rows, row, base, hrows, hrow, -, rfl⟩
  have hstaged : ((contractLedger [⟨"aa", "", createsContract, []⟩,
      ⟨"bb", "", .v0 [], [upgradesContract]⟩]).stageContracts .stored (fun _ => none)
      (fun _ => none) []).toOption.bind (fun rows =>
        (rows.filter (·.contractId = storedContract.contractId)).getLast?.bind (·.wasmHash)) =
      some (List.replicate 32 1) := by decide
  rw [hrows] at hstaged
  simp only [Except.toOption, Option.bind_some, hrow, SorobanContractRow.upgrade,
    Option.some.injEq] at hstaged
  exact absurd hstaged (by decide)

end SorobanExplorer
