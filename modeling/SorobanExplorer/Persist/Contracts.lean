import SorobanExplorer.Parser.Deployments
import SorobanExplorer.Parser.Event
import SorobanExplorer.Parser.ExecutableUpdate
import SorobanExplorer.Persist.Error
import SorobanExplorer.Persist.Ids

/-!
# Contract rows

A contract's row is written when it is deployed and written again, whole, when
its executable changes.  The second row is a copy of the stored one, fetched
before the ledger is staged, with the executable replaced; without a stored row
nothing is written.
-/

namespace SorobanExplorer

open KeyedFold Persist Text

structure SorobanContractRow where
  id : Int64
  contractId : String
  wasmHash : Option Bytes
  /-- The version: of two rows of a contract the later one stays. -/
  wasmUploadedAtLedger : ℤ
  deployerId : Option Int64
  deployedAtLedger : Option ℤ
  contractType : Option Int16
  isSac : Bool
  executableOwnerId : Option Int64
  executableTag : Option String
  deriving DecidableEq

variable [Crates]

def decodeHash (hexStr field : String) : Except SchemaError Bytes :=
  match hexDecode hexStr with
  | none => .error (.staging s!"hex decode {field}: {Crates.hexError hexStr} (value={hexStr})")
  | some bytes =>
      if bytes.length = 32 then .ok bytes
      else .error (.staging
        s!"hex length {field}: expected 32 bytes, got {bytes.length} (value={hexStr})")

/-! ## Deployments -/

/-- The type a deployment is stored with: what its code was classified as, if
that is decisive. -/
def deployedType (wasmClassification priorWasmVerdicts : Bytes → Option ContractType)
    (dep : ExtractedContractDeployment) (wasmHash : Option Bytes) : ContractType :=
  match dep.isSac, wasmHash.bind fun hash => (wasmClassification hash).or (priorWasmVerdicts hash)
    with
  | false, some .nft => .nft
  | false, some .fungible => .fungible
  | _, _ => dep.contractType

def deploymentRow (wasmClassification priorWasmVerdicts : Bytes → Option ContractType)
    (dep : ExtractedContractDeployment) : Except SchemaError SorobanContractRow := do
  let wasmHash ← dep.wasmHash.mapM (decodeHash · "deployment.wasm_hash")
  let deployed : ℤ := dep.deployedAtLedger.toNat
  .ok
    { id := Ids.contractId dep.contractId
      contractId := dep.contractId
      wasmHash
      wasmUploadedAtLedger := deployed
      deployerId := dep.deployerAccount.map Ids.accountId
      deployedAtLedger := some deployed
      contractType := some (deployedType wasmClassification priorWasmVerdicts dep wasmHash).toI16
      isSac := dep.isSac
      executableOwnerId := dep.executableRef.map fun ref => Ids.contractId ref.owner
      executableTag := dep.executableRef.map ExecutableRef.tag }

/-- The rows of the deployments not seen before, one a contract. -/
def deploymentRows (wasmClassification priorWasmVerdicts : Bytes → Option ContractType) :
    (seen : List String) → List ExtractedContractDeployment →
      Except SchemaError (List SorobanContractRow)
  | _, [] => .ok []
  | seen, dep :: rest =>
      if dep.contractId ∈ seen then
        deploymentRows wasmClassification priorWasmVerdicts seen rest
      else do
        let row ← deploymentRow wasmClassification priorWasmVerdicts dep
        let rows ← deploymentRows wasmClassification priorWasmVerdicts (dep.contractId :: seen) rest
        .ok (row :: rows)

/-! ## Upgrades -/

/-- A row with its executable replaced, versioned by the ledger of the upgrade. -/
def SorobanContractRow.upgrade (ledgerSequence : ℤ) (update : ExecutableUpdate)
    (row : SorobanContractRow) : SorobanContractRow :=
  match update with
  | .wasm newHash =>
      { row with
        wasmHash := some newHash
        executableOwnerId := none
        executableTag := none
        wasmUploadedAtLedger := ledgerSequence }
  | .externalRef owner tag =>
      { row with
        wasmHash := none
        executableOwnerId := some (Ids.contractId owner)
        executableTag := some tag
        wasmUploadedAtLedger := ledgerSequence }

/-- The contract an event updates and what its code became.  Only the host
emits system events. -/
def executableUpdateOf (event : ExtractedEvent) : Option (String × ExecutableUpdate) := do
  guard (event.body.eventType = .system)
  let addr ← event.body.contractId
  let update ← extractExecutableUpdate event.body.topics
  some (addr, update)

/-- The row an event writes for its contract, if a prior row is known. -/
def upgradeOf (prior : Table String SorobanContractRow) (ledgerSequence : ℤ)
    (event : ExtractedEvent) : Option (Update String SorobanContractRow) := do
  let (addr, update) ← executableUpdateOf event
  let priorRow ← prior.lookup addr
  some ⟨addr, fun _ => priorRow.upgrade ledgerSequence update⟩

/-- One row for each upgraded contract, its last; in which order, the hash map
decides. -/
def buildWasmUpgradeRows (order : DrainOrder SorobanContractRow)
    (events : List (String × List ExtractedEvent)) (prior : Table String SorobanContractRow)
    (ledgerSequence : ℤ) : List SorobanContractRow :=
  order.drain (values (runAll
    ((events.flatMap Prod.snd).filterMap (upgradeOf prior ledgerSequence)) ∅))

/-- The stored rows of the contracts a ledger upgrades, by address. -/
def fetchPriorContractRows (stored : List SorobanContractRow)
    (events : List (String × List ExtractedEvent)) : Table String SorobanContractRow :=
  let want := ((events.flatMap Prod.snd).filterMap executableUpdateOf).map Prod.fst
  runAll ((stored.filter (·.contractId ∈ want)).map fun row => ⟨row.contractId, fun _ => row⟩) ∅

/-- The contract rows of a ledger: deployments first, upgrades last. -/
def contractRows (order : DrainOrder SorobanContractRow)
    (wasmClassification priorWasmVerdicts : Bytes → Option ContractType)
    (deployments : List ExtractedContractDeployment)
    (events : List (String × List ExtractedEvent)) (prior : Table String SorobanContractRow)
    (ledgerSequence : ℤ) : Except SchemaError (List SorobanContractRow) := do
  let deployed ← deploymentRows wasmClassification priorWasmVerdicts [] deployments
  .ok (deployed ++ buildWasmUpgradeRows order events prior ledgerSequence)

end SorobanExplorer
