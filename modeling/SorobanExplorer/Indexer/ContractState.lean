import SorobanExplorer.Lib.KeyedFold
import SorobanExplorer.Persist.Error
import SorobanExplorer.Xdr

/-!
# The stored state a contract run asks for

A program's bytes from `wasm_programs` and a contract's instance from
`contract_instances`, each as the ledger entry the host expects.  Entries are kept
under the keys the host asks for them by, and only these two kinds of key are ever
filled.
-/

namespace SorobanExplorer

open KeyedFold Text
open Persist (ChError)

/-! ## Entries -/

/-- The keys entries are kept under. -/
inductive EntryKey
  | instanceKey (contract : ContractId)
  | codeKey (wasmHash : Hash)
  deriving DecidableEq

/-- The entry a ledger key asks for, if such entries are kept. -/
def LedgerKey.entryKey? : LedgerKey → Option EntryKey
  | .contractData (.contract contract) .ledgerKeyContractInstance .persistent =>
      some (.instanceKey contract)
  | .contractCode wasmHash => some (.codeKey wasmHash)
  | _ => none

/-- The entries a run may ask for: the entry, or `none` for one known not to exist. -/
abbrev Entries := Table EntryKey (Option LedgerEntry)

/-- Whether the caller supplies a key. -/
def Entries.supplies (entries : Entries) (key : LedgerKey) : Bool :=
  (key.entryKey?.bind fun key => entries.lookup key).isSome

/-- An instance as a ledger entry, from its XDR. -/
def instanceEntry (readEntry : Bytes → Option LedgerEntryData) (dataXdr : Bytes) (ledger : Int64) :
    Option LedgerEntry :=
  (readEntry dataXdr).map fun data =>
    { lastModifiedLedgerSeq := ledger.toUInt64.toUInt32, data }

/-- A program as a ledger entry. -/
def codeEntry (hash : Hash) (code : Bytes) : Option LedgerEntry :=
  if code.length < 2 ^ 32 then
    some { lastModifiedLedgerSeq := 0, data := .contractCode { hash, code } }
  else none

/-- The program an instance runs, when it is a Wasm program of its own. -/
def wasmHashOf (entry : LedgerEntry) : Option Hash :=
  match entry.data with
  | .contractData data =>
      match data.val with
      | .contractInstance (.wasm hash) _ => some hash
      | _ => none
  | _ => none

/-! ## What is stored -/

structure StoredProgram where
  /-- The names of the functions in its interface. -/
  functions : List String
  code : Bytes

/-- The last instance stored of a contract. -/
structure StoredInstance where
  latestXdr : Bytes
  latestLedger : Int64

inductive StoredQuery
  | interfaces (wasmHashes : List String)
  | program (wasmHash : String)
  | instances (contracts : List String)

/-- The tables, and the queries that fail. -/
structure ProgramStore where
  wasmPrograms : Hash → Option StoredProgram
  contractInstances : ContractId → Option StoredInstance
  outage : StoredQuery → Option ChError

namespace ProgramStore

variable {α : Type}

def answer (store : ProgramStore) (query : StoredQuery) (rows : α) : Except ChError α :=
  match store.outage query with
  | some error => .error error
  | none => .ok rows

/-- The hash 64 hex digits spell. -/
def hashOfHex (hex : String) : Option Hash := do
  let bytes ← hexDecode hex
  if bytes.length = 32 then some (Hash.ofBytes bytes) else none

theorem hashOfHex_hexEncode (hash : Hash) : hashOfHex (hexEncode hash.bytes) = some hash := by
  simp [hashOfHex, hexDecode_hexEncode, Hash.length_bytes, Hash.ofBytes_bytes]

/-- Of `decimals`, `name` and `symbol`, those each stored program declares. -/
def interfaces (store : ProgramStore) (wasmHashes : List String) :
    Except ChError (List (Hash × List String)) :=
  store.answer (.interfaces wasmHashes) <| wasmHashes.filterMap fun hex => do
    let hash ← hashOfHex hex
    let program ← store.wasmPrograms hash
    some (hash, ["decimals", "name", "symbol"].filter (· ∈ program.functions))

/-- A program's bytes, if any are stored. -/
def program (store : ProgramStore) (wasmHash : Hash) : Except ChError (Option Bytes) :=
  store.answer (.program (hexEncode wasmHash.bytes)) <|
    ((store.wasmPrograms wasmHash).map (·.code)).filter (· ≠ [])

/-- The stored instances of contracts. -/
def instances (store : ProgramStore) (contracts : List ContractId) :
    Except ChError (List (ContractId × StoredInstance)) :=
  store.answer (.instances (contracts.map fun contract => hexEncode (Hash.bytes contract))) <|
    contracts.filterMap fun contract =>
      (store.contractInstances contract).map fun stored => (contract, stored)

end ProgramStore

/-! ## Loading -/

section

variable (readEntry : Bytes → Option LedgerEntryData) (store : ProgramStore)

/-- Add stored instances; a contract without one is known not to exist. -/
def loadInstances (contracts : List ContractId) (entries : Entries) : Except ChError Entries := do
  let rows ← store.instances contracts
  let absent := contracts.foldl (fun entries contract => entries.insert (.instanceKey contract) none)
    entries
  return rows.foldl (fun entries (contract, stored) => entries.insert (.instanceKey contract)
    (instanceEntry readEntry stored.latestXdr stored.latestLedger)) absent

/-- Add the entry a run asked for; `none` when it is one the database does not hold. -/
def loadEntry (key : LedgerKey) (entries : Entries) : Except ChError (Option Entries) :=
  match key with
  | .contractCode hash => do
      let row ← store.program hash
      return some (entries.insert (.codeKey hash) (row.bind (codeEntry hash)))
  | .contractData (.contract contract) .ledgerKeyContractInstance _ =>
      some <$> loadInstances readEntry store [contract] entries
  | _ => .ok none

end

end SorobanExplorer
