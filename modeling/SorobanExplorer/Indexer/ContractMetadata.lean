import SorobanExplorer.Indexer.ContractState
import SorobanExplorer.Crates
import Mathlib.Data.List.Dedup

/-!
# Contract metadata

A contract's `decimals`, `name` and `symbol`, read by running its own functions over
the entries at hand and those the run turns out to need.  `ledgerMetadataWrites` picks the
contracts to run from a ledger's instances: `changed` keeps the last program hash seen
of each contract, `entries` the last instance.  The two may speak of different instances
(`runsLastInstances_iff`).
-/

namespace SorobanExplorer

open KeyedFold Text
open Persist (ChError)

/-- The ledger a function runs at. -/
structure RunLedger where
  sequence : UInt32
  timestamp : UInt64
  networkId : Hash
  deriving DecidableEq

/-- The code a run rests on: XDR decoding, and the host that runs a function over
entries, with the keys it asks for, sorted and each once.  Instances are persistent
entries, and the host asks for them as such. -/
structure ContractHost where
  readEntry : Bytes → Option LedgerEntryData
  invoke : Entries → RunLedger → ContractId → String → List LedgerKey × Except String ScVal
  persistent : ∀ entries ledger contract function owner durability,
    .contractData owner .ledgerKeyContractInstance durability ∈
      (invoke entries ledger contract function).1 → durability = .persistent

inductive ViewOutcome
  | value (value : ScVal)
  | missing (keys : List LedgerKey)
  | failed (error : String)

/-- Run a function without arguments over entries; keys that are not supplied are missing. -/
def callView (host : ContractHost) (entries : Entries) (ledger : RunLedger) (contract : ContractId)
    (function : String) : ViewOutcome :=
  if 32 < (asBytes function).length then
    .failed ("`" ++ function ++ "` is not a valid function name")
  else
    let run := host.invoke entries ledger contract function
    let missing := run.1.filter fun key => !entries.supplies key
    if missing ≠ [] then .missing missing
    else
      match run.2 with
      | .ok value => .value value
      | .error error => .failed error

structure TokenMetadata where
  name : Option String := none
  symbol : Option String := none
  decimals : Option UInt32 := none
  deriving DecidableEq

structure ExtractedContractMetadata where
  contractId : String
  metadata : TokenMetadata
  ledger : UInt32
  deriving DecidableEq

structure ExtractedContractInstance where
  contract : ContractId
  dataXdr : Bytes
  ledgerSequence : UInt32

structure ExtractedWasmProgram where
  wasmHash : String
  /-- The names of the public functions, when the program has an interface. -/
  functions : Option (List String)
  code : Bytes

/-- The functions read, in the order they are run. -/
def metadataFunctions : List String := ["decimals", "name", "symbol"]

/-- Whether a program's contracts get metadata: a token declares `decimals`, an NFT `name`
and `symbol`. -/
def hasMetadata (declares : List String) : Bool :=
  "decimals" ∈ declares || ("name" ∈ declares && "symbol" ∈ declares)

/-! ## Running one contract -/

/-- What reading one contract's values came to. -/
inductive MetadataAnswer
  | metadata (metadata : TokenMetadata)
  | needsContractData
  | failed
  deriving DecidableEq

/-- One call of a contract's function. -/
structure ViewCall where
  entries : Entries
  contract : ContractId
  function : String

/-- The entries so far, and the calls made, which nothing reads. -/
structure Running where
  entries : Entries
  calls : List ViewCall

abbrev RunM := StateT Running (Except ChError)

/-- A run that keeps asking for entries is given up after this many rounds. -/
def maxRounds : ℕ := 5

/-- A value read into its field, if it is of the field's type. -/
def TokenMetadata.set (metadata : TokenMetadata) (function : String) (value : ScVal) :
    Option TokenMetadata :=
  match function, value with
  | "decimals", .u32 decimals => some { metadata with decimals := some decimals }
  | "name", .string bytes => (fromUtf8 bytes).map fun text => { metadata with name := some text }
  | "symbol", .string bytes => (fromUtf8 bytes).map fun text => { metadata with symbol := some text }
  | _, _ => none

section

variable (host : ContractHost) (store : ProgramStore) (ledger : RunLedger) (contract : ContractId)

def runView (function : String) : RunM ViewOutcome := fun running =>
  .ok (callView host running.entries ledger contract function,
    { running with calls := running.calls ++ [⟨running.entries, contract, function⟩] })

/-- Load one entry asked for; `false` when it is not one the database holds. -/
def runLoad (key : LedgerKey) : RunM Bool := fun running => do
  match ← loadEntry host.readEntry store key running.entries with
  | some entries => return (true, { running with entries })
  | none => return (false, running)

/-- Load the entries asked for, up to the first that is not held. -/
def runLoads : List LedgerKey → RunM Bool
  | [] => pure true
  | key :: keys => do if ← runLoad host store key then runLoads keys else pure false

/-- Run one function until it asks for nothing more. -/
def readFunction (function : String) : (rounds : ℕ) → RunM (Except MetadataAnswer ScVal)
  | 0 => pure (.error .failed)
  | rounds + 1 => do
      match ← runView host ledger contract function with
      | .value value => pure (.ok value)
      | .failed _ => pure (.error .failed)
      | .missing keys =>
          if ← runLoads host store keys then readFunction function rounds
          else pure (.error .needsContractData)

/-- Run the declared ones of a list of functions. -/
def readFunctions (declares : List String) (metadata : TokenMetadata) :
    (functions : List String) → RunM MetadataAnswer
  | [] => pure (.metadata metadata)
  | function :: functions =>
      if function ∈ declares then do
        match ← readFunction host store ledger contract function maxRounds with
        | .error answer => pure answer
        | .ok value =>
            match metadata.set function value with
            | none => pure .failed
            | some metadata => readFunctions declares metadata functions
      else readFunctions declares metadata functions

def readMetadata (declares : List String) : RunM MetadataAnswer :=
  readFunctions host store ledger contract declares {} metadataFunctions

end

/-! ## The contracts of a ledger -/

/-- The instances read so far, and the program each contract runs. -/
structure ChangedInstances where
  entries : Entries := ∅
  changed : Table ContractId Hash := ∅

/-- One instance change, if it can be read. -/
def ChangedInstances.add (readEntry : Bytes → Option LedgerEntryData) (so : ChangedInstances)
    (i : ExtractedContractInstance) : ChangedInstances :=
  match instanceEntry readEntry i.dataXdr (.ofNat i.ledgerSequence.toNat) with
  | none => so
  | some entry =>
      { changed :=
          match wasmHashOf entry with
          | some wasmHash => so.changed.insert i.contract wasmHash
          | none => so.changed
        entries := so.entries.insert (.instanceKey i.contract) (some entry) }

/-- What is declared by the programs at hand, and the entries with their code. -/
structure KnownPrograms where
  declares : Table Hash (List String) := ∅
  entries : Entries

/-- A program uploaded in the ledger. -/
def KnownPrograms.add (so : KnownPrograms) (p : ExtractedWasmProgram) : KnownPrograms :=
  match ProgramStore.hashOfHex p.wasmHash with
  | none => so
  | some hash =>
      { declares := so.declares.insert hash ((p.functions.getD []).filter (· ∈ metadataFunctions))
        entries := so.entries.insert (.codeKey hash) (codeEntry hash p.code) }

/-- The changed contracts in the order of their ids. -/
def inContractOrder (changed : Table ContractId Hash) : List (ContractId × Hash) :=
  (pairs changed).mergeSort fun a b => a.1.toNat ≤ b.1.toNat

/-- The hashes to ask the database for, sorted and each once. -/
def unknownPrograms (changed : Table ContractId Hash) (declares : Table Hash (List String)) :
    List String :=
  ((((inContractOrder changed).filter fun (_, hash) => (declares.lookup hash).isNone).map
    fun (_, hash) => hexEncode hash.bytes).dedup).mergeSort fun a b => a ≤ b

section

variable [Crates] (host : ContractHost) (store : ProgramStore) (ledger : RunLedger)

/-- Run the contracts whose program has metadata. -/
def runContracts (declares : Table Hash (List String)) :
    List (ContractId × Hash) → RunM (List ExtractedContractMetadata)
  | [] => pure []
  | (contract, wasmHash) :: rest =>
      match (declares.lookup wasmHash).filter fun declared => hasMetadata declared with
      | none => runContracts declares rest
      | some declared => do
          let answer ← readMetadata host store ledger contract declared
          let writes ← runContracts declares rest
          match answer with
          | .metadata metadata =>
              pure ({ contractId := Crates.scAddressStrkey (.contract contract), metadata
                      ledger := ledger.sequence } :: writes)
          | _ => pure writes

/-- The interfaces of the programs that are not uploaded in the ledger. -/
def storedInterfaces (changed : Table ContractId Hash) (declares : Table Hash (List String)) :
    Except ChError (Table Hash (List String)) := do
  let unknown := unknownPrograms changed declares
  if unknown = [] then return declares
  let rows ← store.interfaces unknown
  return rows.foldl (fun declares (hash, declared) => declares.insert hash declared) declares

/-- The metadata of every contract whose instance changed in the ledger and whose program
has metadata, with the calls made for it. -/
def ledgerMetadataWrites (changedInstances : List ExtractedContractInstance)
    (newPrograms : List ExtractedWasmProgram) :
    Except ChError (List ExtractedContractMetadata × Running) := do
  let instances := changedInstances.foldl (ChangedInstances.add host.readEntry) {}
  if instances.changed = ∅ then return ([], ⟨instances.entries, []⟩)
  let known := newPrograms.foldl KnownPrograms.add { entries := instances.entries }
  let declares ← storedInterfaces store instances.changed known.declares
  runContracts host store ledger declares (inContractOrder instances.changed) ⟨known.entries, []⟩

end

end SorobanExplorer
