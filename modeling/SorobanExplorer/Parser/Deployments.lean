import SorobanExplorer.Lib.KeyedFold
import SorobanExplorer.Parser.Sac

/-!
# Contract deployments

A contract is deployed where its instance entry is created.  The instance names
the code it runs: a hash, an asset, or another contract's executable.
-/

namespace SorobanExplorer

open KeyedFold Text

/-- Classification of a deployed contract. -/
inductive ContractType
  | token
  | other
  | nft
  | fungible
  deriving DecidableEq

/-- The stored number of a contract type. -/
def ContractType.toI16 : ContractType → Int16
  | .token => 0
  | .other => 1
  | .nft => 2
  | .fungible => 3

/-- The executable an instance borrows from another contract. -/
structure ExecutableRef where
  owner : String
  tag : String
  deriving DecidableEq

structure ExtractedContractDeployment where
  contractId : String
  wasmHash : Option String
  executableRef : Option ExecutableRef
  deployerAccount : Option String
  deployedAtLedger : UInt32
  contractType : ContractType
  isSac : Bool
  sacAsset : Option SacAssetIdentity
  deriving DecidableEq

def isContractInstanceKey (key : Json) : Bool :=
  ((key.get? "key").bind fun k => (k.get? "type").bind Json.asStr) ==
    some "ledger_key_contract_instance"

/-- The executable in an instance's data. -/
def instanceExecutable (data : Json) : Option Json :=
  ((data.get? "val").bind (·.get? "value")).bind (·.get? "executable")

def isSacFromData (data : Json) : Bool :=
  ((instanceExecutable data).bind fun executable => (executable.get? "type").bind Json.asStr) ==
    some "stellar_asset"

def extractWasmHash (data : Json) : Option String :=
  (instanceExecutable data).bind fun executable => (executable.get? "hash").bind Json.asStr

/-- The owner and tag an instance points at; nothing if it has its own executable. -/
def externalRefFromInstance (data : Json) : Option ExecutableRef := do
  let executable ← instanceExecutable data
  guard ((← (executable.get? "type").bind Json.asStr) = "external_ref")
  let owner ← (executable.get? "owner").bind Json.asStr
  let tag ← (executable.get? "tag").bind Json.asStr
  some ⟨owner, tag⟩

variable [Crates]

/-- The deployment a change makes, if it makes one. -/
def contractDeployment (txSourceAccount : String) (networkId : Hash)
    (deployerByContract : Table String String) (change : ExtractedLedgerEntryChange) :
    Option ExtractedContractDeployment := do
  guard (change.entryType = "contract_data" ∧ change.changeType = "created")
  let data ← change.data
  guard (isContractInstanceKey change.key)
  let contractId := ((change.key.get? "contract").bind Json.asStr).getD ""
  guard (contractId ≠ "")
  let isSac := isSacFromData data
  some
    { contractId
      wasmHash := extractWasmHash data
      executableRef := externalRefFromInstance data
      deployerAccount := (deployerByContract.lookup contractId).or (some txSourceAccount)
      deployedAtLedger := change.ledgerSequence
      contractType := if isSac then .token else .other
      isSac
      sacAsset := if isSac then
          (data.get? "val").bind (sacIdentityFromInstance contractId · networkId)
        else none }

/-- Every contract a transaction deployed, in the order of its changes. -/
def extractContractDeployments (changes : List ExtractedLedgerEntryChange)
    (txSourceAccount : String) (networkId : Hash) (deployerByContract : Table String String) :
    List ExtractedContractDeployment :=
  changes.filterMap (contractDeployment txSourceAccount networkId deployerByContract)

/-! ## What an instance says it runs -/

theorem instanceExecutable_contractDataData (entry : ContractDataEntry) :
    instanceExecutable (contractDataData entry) =
      match entry.val with
      | .contractInstance executable _ => some (contractExecutableJson executable)
      | _ => none := by
  unfold instanceExecutable contractDataData
  cases entry.val with
  | contractInstance executable storage =>
      cases storage <;> simp [scvalToTypedJson, typedJson]
  | vec elements => cases elements <;> simp [scvalToTypedJson, typedJson, Json.get?]
  | map entries => cases entries <;> simp [scvalToTypedJson, typedJson, Json.get?]
  | _ => simp [scvalToTypedJson, typedJson, Json.get?]

/-- An instance names a hash only as the hex of 32 bytes, and then it borrows no
executable. -/
theorem extractWasmHash_contractDataData {entry : ContractDataEntry} {wasmHash : String}
    (h : extractWasmHash (contractDataData entry) = some wasmHash) :
    (∃ hash : Hash, wasmHash = hexEncode hash.bytes) ∧
      externalRefFromInstance (contractDataData entry) = none := by
  unfold extractWasmHash at h
  unfold externalRefFromInstance
  rw [instanceExecutable_contractDataData] at h ⊢
  cases hval : entry.val with
  | contractInstance executable storage =>
      rw [hval] at h
      cases executable with
      | wasm hash =>
          have hhash : hexEncode hash.bytes = wasmHash := by
            simpa [contractExecutableJson] using h
          exact ⟨⟨hash, hhash.symm⟩, by simp [contractExecutableJson, guard]⟩
      | stellarAsset | externalRef owner tag => simp [contractExecutableJson] at h
  | _ => simp [hval] at h

/-- The entry a created contract data change was read from. -/
theorem extractSingleChange_contractData {change : LedgerEntryChange} {operationIndex : Option ℕ}
    {transactionHash : String} {ledgerSequence : UInt32} {createdAt : ℤ} {changeIndex : ℕ}
    {data : Json}
    (htype : (extractSingleChange change operationIndex transactionHash ledgerSequence createdAt
      changeIndex).entryType = "contract_data")
    (hdata : (extractSingleChange change operationIndex transactionHash ledgerSequence createdAt
      changeIndex).data = some data) :
    ∃ entry : ContractDataEntry, data = contractDataData entry := by
  have himage : ∀ (changeType : String) (entry : LedgerEntry),
      (changeInfo.imageInfo changeType entry).2.1 = "contract_data" →
      (changeInfo.imageInfo changeType entry).2.2.2 = some data →
        ∃ entry : ContractDataEntry, data = contractDataData entry := by
    intro changeType entry htype hdata
    unfold changeInfo.imageInfo at htype hdata
    cases hentry : entry.data with
    | contractData contractData =>
        rw [hentry] at hdata
        exact ⟨contractData, (Option.some.inj hdata).symm⟩
    | _ => rw [hentry] at htype; simp [extractEntryInfo] at htype
  cases change with
  | created entry => exact himage "created" entry htype hdata
  | updated entry => exact himage "updated" entry htype hdata
  | state entry => exact himage "state" entry htype hdata
  | restored entry => exact himage "restored" entry htype hdata
  | removed key => cases hdata

end SorobanExplorer
