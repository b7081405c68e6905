import SorobanExplorer.Lib.KeepLast
import SorobanExplorer.Parser.Deployments
import SorobanExplorer.Parser.TypedJson

/-!
# What an owner's tags point at

A contract may run the code that another contract keeps under a tag.  The owner keeps
the hash in an ordinary entry of its storage whose key is an executable tag; every
write of such an entry re-points the contracts that name the tag.
-/

namespace SorobanExplorer

open Text KeepLast

/-- One tag of an owner with its hash, in hex, as of a ledger. -/
structure ExtractedExecutableRefTarget where
  owner : String
  tag : String
  wasmHash : String
  ledgerSequence : UInt32
  deriving DecidableEq

/-- The tag, if the key of an entry is an executable tag. -/
def executableTagKey (data : Json) : Option String := do
  let key ← data.get? "key"
  guard ((← (key.get? "type").bind Json.asStr) = "executable_tag")
  (key.get? "value").bind Json.asStr

section

variable [Crates]

/-- The hash an entry holds; anything but 32 bytes is none. -/
def wasmHashValue (data : Json) : Option String := do
  let val ← data.get? "val"
  guard ((← (val.get? "type").bind Json.asStr) = "bytes")
  let bytes ← Crates.base64Decode (← (val.get? "value").bind Json.asStr)
  guard (bytes.length = 32)
  some (hexEncode bytes)

/-- What one change points a tag at.  A `state` is the image before a change, and
these entries are never removed. -/
def executableRefTarget (change : ExtractedLedgerEntryChange) :
    Option ExtractedExecutableRefTarget := do
  guard (change.entryType = "contract_data")
  guard (change.changeType ∈ ["created", "updated", "restored"])
  let data ← change.data
  let tag ← executableTagKey data
  let owner ← (data.get? "contract").bind Json.asStr
  let wasmHash ← wasmHashValue data
  some ⟨owner, tag, wasmHash, change.ledgerSequence⟩

/-- Every tag that a transaction points at a hash, with its last one. -/
def extractExecutableRefTargets (changes : List ExtractedLedgerEntryChange) :
    List ExtractedExecutableRefTarget :=
  keepLastByKey (fun target => (target.owner, target.tag, target.ledgerSequence))
    (changes.filterMap executableRefTarget)

end

/-! ## What an owner writes -/

/-- A write of an owner under a tag. -/
structure ExecutableWrite where
  owner : ScAddress
  tag : Bytes
  hash : Bytes
  deriving DecidableEq

def ScVal.tag? : ScVal → Option Bytes
  | .executableTag tag => some tag
  | _ => none

def ScVal.codeHash? : ScVal → Option Bytes
  | .bytes hash => if hash.length = 32 then some hash else none
  | _ => none

def LedgerEntryData.executableWrite : LedgerEntryData → Option ExecutableWrite
  | .contractData entry => do
      let tag ← entry.key.tag?
      let hash ← entry.val.codeHash?
      some ⟨entry.contract, tag, hash⟩
  | _ => none

def LedgerEntryChange.executableWrite : LedgerEntryChange → Option ExecutableWrite
  | .created entry | .updated entry | .restored entry => entry.data.executableWrite
  | .removed _ | .state _ => none

variable [Crates]

def ExecutableWrite.target (write : ExecutableWrite) (ledgerSequence : UInt32) :
    ExtractedExecutableRefTarget :=
  ⟨Crates.scAddressStrkey write.owner, utf8OrInvalid write.tag, hexEncode write.hash,
    ledgerSequence⟩

theorem executableTagKey_typedJson {data : Json} {key : ScVal}
    (hkey : data.get? "key" = some (scvalToTypedJson key)) :
    executableTagKey data = key.tag?.map utf8OrInvalid := by
  rw [executableTagKey, hkey]
  simp only [Option.bind_eq_bind, Option.bind_some, get?_type_scvalToTypedJson, Json.asStr_str]
  cases key with
  | executableTag tag => simp [ScVal.tag, ScVal.tag?, scvalToTypedJson, typedJson, guard]
  | _ => simp [ScVal.tag, ScVal.tag?, guard]

theorem wasmHashValue_typedJson
    (hbase64 : ∀ bytes, Crates.base64Decode (Crates.base64Encode bytes) = some bytes)
    {data : Json} {val : ScVal} (hval : data.get? "val" = some (scvalToTypedJson val)) :
    wasmHashValue data = val.codeHash?.map hexEncode := by
  rw [wasmHashValue, hval]
  simp only [Option.bind_eq_bind, Option.bind_some, get?_type_scvalToTypedJson, Json.asStr_str]
  cases val with
  | bytes hash =>
      by_cases hlength : hash.length = 32 <;>
        simp [ScVal.tag, ScVal.codeHash?, scvalToTypedJson, typedJson, guard, hbase64, hlength]
  | _ => simp [ScVal.tag, ScVal.codeHash?, guard]

/-- A change is read as the write it is. -/
theorem executableRefTarget_extractSingleChange
    (hbase64 : ∀ bytes, Crates.base64Decode (Crates.base64Encode bytes) = some bytes)
    (change : LedgerEntryChange) (operationIndex : Option ℕ) (transactionHash : String)
    (ledgerSequence : UInt32) (createdAt : ℤ) (changeIndex : ℕ) :
    executableRefTarget (extractSingleChange change operationIndex transactionHash ledgerSequence
      createdAt changeIndex) = change.executableWrite.map (·.target ledgerSequence) := by
  -- a written image says the same in every kind of change
  have himage : ∀ (changeType : String) (entry : LedgerEntry) (extracted : _),
      changeType ∈ ["created", "updated", "restored"] →
      extracted.changeType = changeType → extracted.entryType = (extractEntryInfo entry.data).1 →
      extracted.data = some (extractEntryInfo entry.data).2.2 →
      extracted.ledgerSequence = ledgerSequence →
        executableRefTarget extracted = entry.data.executableWrite.map (·.target ledgerSequence) := by
    intro changeType entry extracted hcurrent htype hentry hdata hledger
    rw [executableRefTarget, htype, hentry, hdata, hledger]
    cases hkind : entry.data with
    | contractData contractData =>
        have hkey : (contractDataData contractData).get? "key" =
            some (scvalToTypedJson contractData.key) := rfl
        have hval : (contractDataData contractData).get? "val" =
            some (scvalToTypedJson contractData.val) := rfl
        have howner : (contractDataData contractData).get? "contract" =
            some (.str (Crates.scAddressStrkey contractData.contract)) := rfl
        simp only [extractEntryInfo, Option.bind_eq_bind, Option.bind_some, hcurrent, guard, if_true,
          pure, executableTagKey_typedJson hkey, wasmHashValue_typedJson hbase64 hval, howner,
          Json.asStr_str, LedgerEntryData.executableWrite]
        cases contractData.key.tag? with
        | none => rfl
        | some tag => cases contractData.val.codeHash? <;> rfl
    | _ => simp [extractEntryInfo, LedgerEntryData.executableWrite, guard]
  cases change with
  | created entry => exact himage "created" entry _ (by simp) rfl rfl rfl rfl
  | updated entry => exact himage "updated" entry _ (by simp) rfl rfl rfl rfl
  | restored entry => exact himage "restored" entry _ (by simp) rfl rfl rfl rfl
  | state entry =>
      simp [executableRefTarget, extractSingleChange, changeInfo, changeInfo.imageInfo,
        LedgerEntryChange.executableWrite, guard]
  | removed key =>
      simp [executableRefTarget, extractSingleChange, changeInfo,
        LedgerEntryChange.executableWrite, guard]

end SorobanExplorer
