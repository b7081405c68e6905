import SorobanExplorer.Indexer.ContractMetadata
import SorobanExplorer.Lib.Traverse
import SorobanExplorer.Parser.AssetSightings
import SorobanExplorer.Persist.Contracts

/-!
# Programs and what they are classified as

A program is classified by the names of its public functions.  The ledger that uploads it
classifies it from the parsed program (`wasmRows`); a later one, and the rebuild of all
contract types, from its stored row (`classifyWasmMetadataJson`).  A row is followed with
the functions its metadata names, if it can be read.
-/

namespace SorobanExplorer

open KeyedFold Persist Text Traverse

def ContractClassification.toContractType : ContractClassification → ContractType
  | .nft => .nft
  | .fungible => .fungible
  | .other => .other

/-- Classify a contract by the names of its public functions: the names only an NFT has
come first. -/
def classifyContractFromWasmSpec (functions : List String) : ContractClassification :=
  if functions.any fun name =>
      name ∈ ["owner_of", "token_uri", "approve_for_all", "get_approved", "is_approved_for_all"]
  then .nft
  else if functions.any fun name => name ∈ ["decimals", "allowance", "total_supply"] then .fungible
  else .other

/-! ## Stored programs -/

/-- A row of `wasm_programs`. -/
structure WasmProgramRow where
  wasmHash : Bytes
  /-- What can be read from the metadata: a program without an interface has none. -/
  functions : Option (List String)
  code : Bytes
  deriving DecidableEq

/-- The type a stored program gives its contracts, if that is decisive. -/
def classifyWasmMetadataJson (row : WasmProgramRow) : Option ContractType :=
  row.functions.bind fun functions =>
    let verdict := (classifyContractFromWasmSpec functions).toContractType
    if verdict = .nft ∨ verdict = .fungible then some verdict else none

/-- The types of the stored programs with some hashes, the last if several have one. -/
def queryWasmVerdicts (stored : List WasmProgramRow) (hashesHexLower : List String) :
    Table Bytes ContractType :=
  collect ((stored.filter fun row => hexEncode row.wasmHash ∈ hashesHexLower).filterMap fun row =>
    (classifyWasmMetadataJson row).map fun verdict => (row.wasmHash, verdict))

def toLowercase (s : String) : String :=
  String.ofList (s.toList.map Char.toLower)

/-- The hashes whose types are asked for: those of deployed contracts that are no SAC, unless
their program is in the ledger. -/
def deployedHashes (contractDeployments : List ExtractedContractDeployment)
    (programs : List ExtractedWasmProgram) : List String :=
  let sameLedger := programs.map fun program => toLowercase program.wasmHash
  (((contractDeployments.filter (!·.isSac)).filterMap (·.wasmHash)).map toLowercase).filter
    (· ∉ sameLedger)

section

variable [Crates]

def programRow (program : ExtractedWasmProgram) : Except SchemaError WasmProgramRow := do
  let wasmHash ← decodeHash program.wasmHash "wasm_hash"
  .ok ⟨wasmHash, program.functions, program.code⟩

/-- The rows of a ledger's programs, and what the programs are classified as. -/
structure StagedPrograms where
  rows : List WasmProgramRow := []
  classification : Table Bytes ContractType := ∅

/-- Stage one program, unless its hash was seen. -/
def StagedPrograms.add (staged : StagedPrograms) (program : ExtractedWasmProgram) :
    Except SchemaError StagedPrograms := do
  let row ← programRow program
  if row.wasmHash ∈ staged.rows.map WasmProgramRow.wasmHash then return staged
  return {
    rows := staged.rows ++ [row]
    classification :=
      match program.functions with
      | some functions => staged.classification.insert row.wasmHash
          (classifyContractFromWasmSpec functions).toContractType
      | none => staged.classification }

def wasmRows (programs : List ExtractedWasmProgram) : Except SchemaError StagedPrograms :=
  programs.foldlM StagedPrograms.add {}

end

/-! ## Agreement -/

/-- A decisive type is that of an NFT or of a fungible token. -/
theorem classifyWasmMetadataJson_eq_some {row : WasmProgramRow} {verdict : ContractType}
    (h : classifyWasmMetadataJson row = some verdict) : verdict = .nft ∨ verdict = .fungible := by
  obtain ⟨functions, -, hverdict⟩ := Option.bind_eq_some_iff.mp h
  dsimp only at hverdict
  split at hverdict
  case isTrue hdecisive =>
    cases hverdict
    exact hdecisive
  case isFalse => cases hverdict

section

variable [Crates] {programs : List ExtractedWasmProgram} {staged staged' : StagedPrograms}

/-- What is said of a hash is what one of the rows is classified as. -/
def StagedPrograms.Backed (staged : StagedPrograms) : Prop :=
  ∀ hash verdict, staged.classification.lookup hash = some verdict →
    ∃ row ∈ staged.rows, row.wasmHash = hash ∧ ∃ functions, row.functions = some functions ∧
      verdict = (classifyContractFromWasmSpec functions).toContractType

theorem StagedPrograms.Backed.add {program : ExtractedWasmProgram} (h : staged.Backed)
    (hadd : staged.add program = .ok staged') : staged'.Backed := by
  obtain ⟨row, hrow, hrest⟩ := bind_eq_ok_iff.mp hadd
  obtain ⟨wasmHash, -, hwasmHash⟩ := bind_eq_ok_iff.mp hrow
  cases hwasmHash
  dsimp only at hrest
  split at hrest
  case isTrue => exact Except.ok.inj hrest ▸ h
  case isFalse hseen =>
    cases hrest
    intro hash verdict hlookup
    -- the programs before keep their rows
    have hold (hlookup : staged.classification.lookup hash = some verdict) :
        ∃ row ∈ staged.rows ++ [⟨wasmHash, program.functions, program.code⟩],
          row.wasmHash = hash ∧ ∃ functions, row.functions = some functions ∧
            verdict = (classifyContractFromWasmSpec functions).toContractType := by
      obtain ⟨row, hrow, hsaid⟩ := h hash verdict hlookup
      exact ⟨row, List.mem_append_left _ hrow, hsaid⟩
    dsimp only at hlookup ⊢
    cases hfunctions : program.functions with
    | none =>
        rw [hfunctions] at hlookup hold
        exact hold hlookup
    | some functions =>
        rw [hfunctions] at hlookup hold
        dsimp only at hlookup
        by_cases hhash : hash = wasmHash
        · rw [hhash, AList.lookup_insert] at hlookup
          cases hlookup
          exact ⟨⟨wasmHash, some functions, program.code⟩, List.mem_concat_self, hhash.symm,
            functions, rfl, rfl⟩
        · rw [AList.lookup_insert_ne hhash] at hlookup
          exact hold hlookup

theorem backed_wasmRows (h : wasmRows programs = .ok staged) : staged.Backed :=
  foldlM_keeps (fun _ _ _ _ hs hadd => hs.add hadd)
    (fun hash verdict hlookup => by cases hlookup) h

end

end SorobanExplorer
