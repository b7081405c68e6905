import Mathlib.Logic.Function.Basic
import SorobanExplorer.Backfill.NftReclassify
import SorobanExplorer.Indexer.ContractUpgrades
import SorobanExplorer.Lib.Fleet
import SorobanExplorer.Lib.Versioned
import SorobanExplorer.Persist.WasmPrograms

/-!
# Types of contracts across writers

Which tables the NFT rows of a ledger go to depends on the types of their contracts, and a
contract is often deployed in a ledger after that of its program and before those of its
tokens.  A writer that persists a ledger as it closes therefore asks for the types of the
programs it deploys and of the contracts whose tokens it sees (`persistLedgerClickhouse`);
it remembers the answers, and goes on without them if a question fails.  A backfill asks
nothing (`writeLedgerBlind`).  Any number of both write to the same tables.
-/

namespace SorobanExplorer.ContractVerdicts

open Interaction KeyedFold NftReclassify Persist Replacing Text Versioned

/-! ## The cache -/

/-- The types a writer remembers, by contract. -/
abbrev ClassificationCache : Type := Table String ContractType

/-- Whether a type is remembered: a contract of no known type may be found to have one. -/
def isDefinitive : ContractType → Bool
  | .token | .nft | .fungible => true
  | .other => false

namespace ClassificationCache

def extendDefinitive (cache : ClassificationCache) (entries : List (String × ContractType)) :
    ClassificationCache :=
  (entries.filter (isDefinitive ·.2)).foldl (fun cache entry => cache.insert entry.1 entry.2) cache

/-- The contracts not remembered. -/
def missing (cache : ClassificationCache) (ids : List String) : List String :=
  ids.filter fun id => (cache.lookup id).isNone

/-- What is remembered of some contracts. -/
def snapshotFor (cache : ClassificationCache) (ids : List String) : Table String ContractType :=
  collect (ids.filterMap fun id => (cache.lookup id).map fun type => (id, type))

end ClassificationCache

/-! ## Staging -/

/-- The tables that hold what is known of programs, contracts and their tokens. -/
inductive ContractTable
  | wasmPrograms
  | sorobanContracts
  | nft (table : NftTable)
  deriving DecidableEq

namespace ContractTable

def Row : ContractTable → Type
  | wasmPrograms => WasmProgramRow
  | sorobanContracts => SorobanContractRow
  | nft table => table.1.Row

/-- The columns a table is ordered by. -/
def Key : ContractTable → Type
  | wasmPrograms => Bytes
  | sorobanContracts => String
  | nft _ => Int64 × String × Option NftKind.Location

def key : (table : ContractTable) → table.Row → table.Key
  | wasmPrograms => WasmProgramRow.wasmHash
  | sorobanContracts => SorobanContractRow.contractId
  | nft table => table.1.key

/-- The version of a row; programs have none. -/
def version : (table : ContractTable) → table.Row → ℤ
  | wasmPrograms => fun _ => 0
  | sorobanContracts => SorobanContractRow.wasmUploadedAtLedger
  | nft table => table.1.version

end ContractTable

/-- A ledger as it is given to the writers, as far as contracts and their tokens go. -/
structure LedgerInputs extends ContractLedger where
  programs : List ExtractedWasmProgram
  nfts : List ExtractedNft
  nftEvents : List ExtractedNftEvent
  appOrderByHash : String → Option Int16

/-- The rows of a ledger, by table. -/
structure StagedRows where
  ledgerSequence : UInt32
  rows : (table : ContractTable) → List table.Row

/-- What a writer looked up before it stages a ledger. -/
structure Priors where
  wasmVerdicts : Table Bytes ContractType := ∅
  contractVerdicts : Table String ContractType := ∅
  contractRows : Table String SorobanContractRow := ∅

section

variable [Crates]

/-- The NFT rows are routed by the deployments of the ledger; its upgrades come after them. -/
def LedgerInputs.prepare (inputs : LedgerInputs) (order : DrainOrder SorobanContractRow)
    (priors : Priors) : Except SchemaError StagedRows := do
  let staged ← wasmRows inputs.programs
  let deployed ← deploymentRows staged.classification.lookup priors.wasmVerdicts.lookup []
    inputs.deployments
  let nfts : LedgerNfts := ⟨deployed, inputs.nfts, inputs.nftEvents,
    priors.contractVerdicts.lookup, inputs.appOrderByHash⟩
  let upgraded := buildWasmUpgradeRows order inputs.events priors.contractRows
    inputs.ledgerSequence.toNat
  return {
    ledgerSequence := inputs.ledgerSequence
    rows
      | .wasmPrograms => staged.rows
      | .sorobanContracts => deployed ++ upgraded
      | .nft table => nfts.rows table }

/-! ## Requests -/

/-- What a writer asks the warehouse. -/
inductive Request
  | queryWasmVerdicts (hashesHexLower : List String)
  | queryContractVerdicts (contractIds : List String)
  | fetchPriorContractRows (events : List (String × List ExtractedEvent))
  | writeLedger (staged : StagedRows)

/-- Every request may fail. -/
def requests : Interface where
  Op := Request
  Ans
    | .queryWasmVerdicts _ => Except ChError (Table Bytes ContractType)
    | .queryContractVerdicts _ => Except ChError (List (String × ContractType))
    | .fetchPriorContractRows _ => Except ChError (Table String SorobanContractRow)
    | .writeLedger _ => Except SchemaError Unit

/-- What a writer asks its own cache; a new container has a new one. -/
inductive CacheCall
  | new
  | missing (ids : List String)
  | extendDefinitive (entries : List (String × ContractType))
  | snapshotFor (ids : List String)

def caching : Interface where
  Op := CacheCall
  Ans
    | .new | .extendDefinitive _ => Unit
    | .missing _ => List String
    | .snapshotFor _ => Table String ContractType

abbrev writing : Interface := requests.sum caching

def request (op : Request) : Prog writing (requests.Ans op) :=
  @Prog.perform writing (.inl op)

def cache (op : CacheCall) : Prog writing (caching.Ans op) :=
  @Prog.perform writing (.inr op)

/-! ## Writers -/

/-- The types of the programs deployed here but uploaded before; none if the question fails. -/
def fetchPriorWasmVerdicts (inputs : LedgerInputs) : Prog writing (Table Bytes ContractType) := do
  let want := deployedHashes inputs.deployments inputs.programs
  if want.isEmpty then return ∅
  match ← request (.queryWasmVerdicts want) with
  | .ok verdicts => return verdicts
  | .error _ => return ∅

/-- The contracts of the ledger's tokens that were deployed before it. -/
def LedgerInputs.contractsBefore (inputs : LedgerInputs) : List String :=
  (inputs.nfts.map (·.contractId) ++ inputs.nftEvents.map (·.contractId)).filter
    (· ∉ inputs.deployments.map (·.contractId))

/-- The types of the contracts deployed before, of those not remembered if the question does
not fail. -/
def fetchPriorContractVerdicts (inputs : LedgerInputs) :
    Prog writing (Table String ContractType) := do
  let want := inputs.contractsBefore
  if want.isEmpty then return ∅
  let missing : List String ← cache (.missing want)
  unless missing.isEmpty do
    match ← request (.queryContractVerdicts missing) with
    | .ok fetched => cache (.extendDefinitive fetched)
    | .error _ => pure ()
  cache (.snapshotFor want)

/-- The stored rows of the contracts the ledger upgrades. -/
def fetchPriorContractRows (inputs : LedgerInputs) :
    Prog writing (Except ChError (Table String SorobanContractRow)) := do
  if ((inputs.events.flatMap Prod.snd).filterMap executableUpdateOf).isEmpty then return .ok ∅
  request (.fetchPriorContractRows inputs.events)

/-- Persist one ledger.  Without the types it goes on, without the rows of the upgraded
contracts it does not. -/
def persistLedgerClickhouse (inputs : LedgerInputs) (order : DrainOrder SorobanContractRow) :
    Prog writing (Except SchemaError Unit) := do
  let wasmVerdicts ← fetchPriorWasmVerdicts inputs
  let contractVerdicts ← fetchPriorContractVerdicts inputs
  match ← fetchPriorContractRows inputs with
  | .error error => return .error (.query error)
  | .ok contractRows =>
      match inputs.prepare order ⟨wasmVerdicts, contractVerdicts, contractRows⟩ with
      | .error error => return .error error
      | .ok staged => request (.writeLedger staged)

/-- A backfill stages a ledger from itself alone. -/
def writeLedgerBlind (inputs : LedgerInputs) (order : DrainOrder SorobanContractRow) :
    Prog writing (Except SchemaError Unit) :=
  match inputs.prepare order {} with
  | .error error => return .error error
  | .ok staged => request (.writeLedger staged)

/-- A new container. -/
def start : Prog writing (Except SchemaError Unit) := do
  cache .new
  return .ok ()

end

/-! ## The warehouse -/

/-- The tables, the ledgers whose marker is written, and every staging ever sent. -/
structure Warehouse where
  rows : (table : ContractTable) → List table.Row
  committed : List UInt32
  sent : List StagedRows

namespace Warehouse

def withRows (s : Warehouse) (table : ContractTable) (rows : List table.Row) : Warehouse :=
  { s with rows := Function.update s.rows table rows }

@[simp] theorem rows_withRows_self (s : Warehouse) (table : ContractTable)
    (rows : List table.Row) : (s.withRows table rows).rows table = rows :=
  Function.update_self ..

theorem rows_withRows_of_ne {s : Warehouse} {table other : ContractTable} {rows : List table.Row}
    (h : other ≠ table) : (s.withRows table rows).rows other = s.rows other :=
  Function.update_of_ne h ..

/-- Whether `FINAL` may read the contracts as some rows. -/
def ReadsContracts (s : Warehouse) (rows : List SorobanContractRow) : Prop :=
  IsFinal SorobanContractRow.contractId SorobanContractRow.wasmUploadedAtLedger
    (s.rows .sorobanContracts) rows

/-- The decisive types of some contracts. -/
def queryContractVerdicts (rows : List SorobanContractRow) (contractIds : List String) :
    List (String × ContractType) :=
  (rows.filter (·.contractId ∈ contractIds)).filterMap fun row => do
    let type ← row.contractType
    guard (type = 0 ∨ type = 2 ∨ type = 3)
    let verdict ← ContractType.ofI16 type
    some (row.contractId, verdict)

/-- The tables after a ledger is written.  Its marker is the last of its rows. -/
def write (s : Warehouse) (staged : StagedRows) : Warehouse where
  rows table := s.rows table ++ staged.rows table
  committed := staged.ledgerSequence :: s.committed
  sent := staged :: s.sent

variable [Crates]

/-- The answers to a request.  Of a staging that failed, any row may still land. -/
def Answers (s : Warehouse) : (op : Request) → requests.Ans op → Warehouse → Prop
  | .queryWasmVerdicts hashes, .ok verdicts, s' =>
      verdicts = SorobanExplorer.queryWasmVerdicts (s.rows .wasmPrograms) hashes ∧ s' = s
  | .queryWasmVerdicts _, .error _, s' => s' = s
  | .queryContractVerdicts ids, .ok verdicts, s' =>
      (∃ rows, s.ReadsContracts rows ∧ verdicts = queryContractVerdicts rows ids) ∧ s' = s
  | .queryContractVerdicts _, .error _, s' => s' = s
  | .fetchPriorContractRows events, .ok rows, s' =>
      (∃ stored, s.ReadsContracts stored ∧
        rows = SorobanExplorer.fetchPriorContractRows stored events) ∧ s' = s
  | .fetchPriorContractRows _, .error _, s' => s' = s
  | .writeLedger staged, .ok _, s' => s' = s.write staged
  | .writeLedger staged, .error _, s' => s' = { s with sent := staged :: s.sent }

/-- What happens between two requests: a row of a staging lands, maybe again, or a table is
merged. -/
inductive Drift : Warehouse → Warehouse → Prop
  | land {s : Warehouse} {staged : StagedRows} {table : ContractTable} {row : table.Row}
      (hsent : staged ∈ s.sent) (hrow : row ∈ staged.rows table) :
      Drift s (s.withRows table (s.rows table ++ [row]))
  | merge {s : Warehouse} {table : ContractTable} {rows : List table.Row}
      (hmerges : Merges table.key table.version (s.rows table) rows) :
      Drift s (s.withRows table rows)

end Warehouse

variable [Crates]

def warehouse : Environment requests where
  State := Warehouse
  answers := Warehouse.Answers
  drift := Warehouse.Drift

/-- The answers of a cache. -/
def CacheAnswers (known : ClassificationCache) :
    (op : CacheCall) → caching.Ans op → ClassificationCache → Prop
  | .new, _, known' => known' = ∅
  | .missing ids, answer, known' => answer = known.missing ids ∧ known' = known
  | .extendDefinitive entries, _, known' => known' = known.extendDefinitive entries
  | .snapshotFor ids, answer, known' => answer = known.snapshotFor ids ∧ known' = known

/-- All the ledgers there are, by sequence. -/
structure Chain where
  ledger : UInt32 → LedgerInputs
  sequence : ∀ n, (ledger n).ledgerSequence = n

/-- What a writer runs: it persists any ledger, as it closes or in a backfill, or starts. -/
def Writes (chain : Chain) (p : Prog writing (Except SchemaError Unit)) : Prop :=
  p = start ∨ ∃ n order, p = persistLedgerClickhouse (chain.ledger n) order ∨
    p = writeLedgerBlind (chain.ledger n) order

/-- A writer and its cache. -/
abbrev writer (chain : Chain) : Service warehouse where
  own := caching
  State := ClassificationCache
  answers s op answer known := CacheAnswers s.2 op answer known
  Result := Except SchemaError Unit
  programs := Writes chain

end SorobanExplorer.ContractVerdicts
