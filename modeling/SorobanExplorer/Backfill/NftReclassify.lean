import Mathlib.Data.Int.ConditionallyCompleteOrder
import SorobanExplorer.Lib.Interaction
import SorobanExplorer.Lib.Replacing
import SorobanExplorer.Persist.NftRows

/-!
# Reclassifying quarantined NFT rows

`execute` copies the quarantined rows of NFT contracts to the tables that are read,
then deletes from the quarantine the rows of every contract classified by now, and last
the false positives from the read tables.  Each statement takes the classification and
the rows as they are when it runs, and the writers keep running between two of them.
-/

namespace SorobanExplorer.NftReclassify

open Interaction Replacing

/-! ## Tables -/

inductive NftKind
  | tokens
  | ownershipChanges
  deriving DecidableEq

inductive NftTier
  | hot
  | pending
  deriving DecidableEq

/-- `nfts`, `nft_ownership_changes`, and the quarantine of each. -/
abbrev NftTable : Type := NftKind × NftTier

namespace NftKind

def Row : NftKind → Type
  | tokens => NftRow
  | ownershipChanges => NftOwnershipChangeRow

instance : (kind : NftKind) → DecidableEq kind.Row
  | tokens => inferInstanceAs (DecidableEq NftRow)
  | ownershipChanges => inferInstanceAs (DecidableEq NftOwnershipChangeRow)

/-- Where an ownership change happened. -/
structure Location where
  ledgerSequence : ℤ
  applicationOrder : Int16
  operationIndex : UInt16
  eventIndex : UInt32
  deriving DecidableEq

/-- The columns a table of the kind is ordered by. -/
def key : (kind : NftKind) → kind.Row → Int64 × String × Option Location
  | tokens, row => (row.contractId, row.tokenId, none)
  | ownershipChanges, row =>
      (row.contractId, row.tokenId,
        some ⟨row.ledgerSequence, row.applicationOrder, row.operationIndex, row.eventIndex⟩)

/-- The version of a row; ownership changes have none. -/
def version : (kind : NftKind) → kind.Row → ℤ
  | tokens, row => row.currentOwnerLedger
  | ownershipChanges, _ => 0

def contractId : (kind : NftKind) → kind.Row → Int64
  | tokens, row => row.contractId
  | ownershipChanges, row => row.contractId

/-- The rows of a kind hold a row: one of its key that is no older. -/
abbrev Holds (kind : NftKind) (rows : List kind.Row) (row : kind.Row) : Prop :=
  Held kind.key kind.version rows row

instance (kind : NftKind) (rows : List kind.Row) (row : kind.Row) :
    Decidable (kind.Holds rows row) :=
  inferInstanceAs (Decidable (∃ other ∈ rows, kind.key other = kind.key row ∧
    kind.version row ≤ kind.version other))

end NftKind

/-- What a ledger's NFT rows are staged from: its own contract rows and NFTs, and the types
its writer could look up. -/
structure LedgerNfts where
  contractRows : List SorobanContractRow
  nfts : List ExtractedNft
  nftEvents : List ExtractedNftEvent
  priorContractVerdicts : String → Option ContractType
  appOrderByHash : String → Option Int16

/-- The rows a ledger writes to a table. -/
def LedgerNfts.rows [Crates] (ledger : LedgerNfts) (table : NftTable) : List table.1.Row :=
  let staged := nftRows ledger.contractRows ledger.nfts ledger.nftEvents
    ledger.priorContractVerdicts ledger.appOrderByHash
  match table with
  | (.tokens, .hot) => staged.nftRows
  | (.tokens, .pending) => staged.nftPendingRows
  | (.ownershipChanges, .hot) => staged.nftOwnershipChangeRows
  | (.ownershipChanges, .pending) => staged.nftOwnershipChangePendingRows

/-! ## Statements -/

inductive BackfillError
  | ch (message : String)

/-- The statements, by table and contract types. -/
inductive Statement
  | countNft (kind : NftKind)
  | insertNft (kind : NftKind)
  | countIn (table : NftTable) (types : List ContractType)
  | deleteIn (table : NftTable) (types : List ContractType)
  | optimize (table : NftTable)

/-- Every statement may fail. -/
def sql : Interface where
  Op := Statement
  Ans
    | .countNft _ | .countIn _ _ => Except BackfillError ℕ
    | .insertNft _ | .deleteIn _ _ | .optimize _ => Except BackfillError Unit

abbrev Sink (α : Type) : Type := ExceptT BackfillError (Prog sql) α

namespace Sink

def countNft (kind : NftKind) : Sink ℕ := .mk (@Prog.perform sql (.countNft kind))

def insertNft (kind : NftKind) : Sink Unit := .mk (@Prog.perform sql (.insertNft kind))

def countIn (table : NftTable) (types : List ContractType) : Sink ℕ :=
  .mk (@Prog.perform sql (.countIn table types))

def deleteIn (table : NftTable) (types : List ContractType) : Sink Unit :=
  .mk (@Prog.perform sql (.deleteIn table types))

def optimize (table : NftTable) : Sink Unit := .mk (@Prog.perform sql (.optimize table))

end Sink

/-! ## The pass -/

structure NftReclassifyStats where
  promotedNfts : ℕ
  promotedOwnership : ℕ
  droppedPendingNfts : ℕ
  droppedPendingOwnership : ℕ
  droppedLegacyNfts : ℕ
  droppedLegacyOwnership : ℕ
  dryRun : Bool

/-- Copy the quarantined rows of NFT contracts; a dry run counts them. -/
def promoteOrCount (kind : NftKind) (dryRun : Bool) : Sink ℕ := do
  let n ← Sink.countNft kind
  if dryRun then return n
  if n = 0 then return 0
  Sink.insertNft kind
  return n

/-- Delete the rows of contracts of the types; a dry run counts them. -/
def dropOrCount (table : NftTable) (discriminants : List ContractType) (dryRun : Bool) :
    Sink ℕ := do
  let n ← Sink.countIn table discriminants
  if dryRun then return n
  if n = 0 then return 0
  Sink.deleteIn table discriminants
  return n

def optimizeTouched (touched : List (NftTable × ℕ)) : Sink PUnit :=
  touched.forM fun (table, mutated) => if mutated = 0 then return ⟨⟩ else Sink.optimize table

def execute (dryRun : Bool) : Sink NftReclassifyStats := do
  let promotedNfts ← promoteOrCount .tokens dryRun
  let promotedOwnership ← promoteOrCount .ownershipChanges dryRun
  -- the NFT contracts' rows are dropped as promoted
  let droppedPendingNfts ← dropOrCount (.tokens, .pending) [.token, .nft, .fungible] dryRun
  let droppedPendingOwnership ←
    dropOrCount (.ownershipChanges, .pending) [.token, .nft, .fungible] dryRun
  let droppedLegacyNfts ← dropOrCount (.tokens, .hot) [.token, .fungible] dryRun
  let droppedLegacyOwnership ← dropOrCount (.ownershipChanges, .hot) [.token, .fungible] dryRun
  unless dryRun do
    optimizeTouched [((.tokens, .hot), promotedNfts + droppedLegacyNfts),
      ((.tokens, .pending), droppedPendingNfts),
      ((.ownershipChanges, .hot), promotedOwnership + droppedLegacyOwnership),
      ((.ownershipChanges, .pending), droppedPendingOwnership)]
  return ⟨promotedNfts, promotedOwnership, droppedPendingNfts, droppedPendingOwnership,
    droppedLegacyNfts, droppedLegacyOwnership, dryRun⟩

/-! ## The warehouse -/

/-- The tables, and what is recorded of a run: every row written to a quarantine, the rows
the last promotion of a kind found, and of the quarantined rows those that were dropped as a
false positive since they were last written. -/
structure Warehouse where
  rows : (table : NftTable) → List table.1.Row
  contracts : List SorobanContractRow
  quarantined : (kind : NftKind) → List kind.Row
  found : (kind : NftKind) → List kind.Row
  evicted : (kind : NftKind) → List kind.Row

namespace Warehouse

/-- The tables before the first run. -/
def start (rows : (table : NftTable) → List table.1.Row) (contracts : List SorobanContractRow) :
    Warehouse where
  rows
  contracts
  quarantined kind := rows (kind, .pending)
  found _ := []
  evicted _ := []

/-- A contract's type by `soroban_contracts FINAL` is one of some. -/
def classified (s : Warehouse) (types : List ContractType) (contractId : Int64) : Bool :=
  (final SorobanContractRow.contractId SorobanContractRow.wasmUploadedAtLedger s.contracts).any
    fun row => row.id = contractId ∧ row.contractType ∈ types.map (some ·.toI16)

/-- The rows of a table that a statement is about. -/
def selected (s : Warehouse) (table : NftTable) (types : List ContractType) : List table.1.Row :=
  (s.rows table).filter fun row => s.classified types (table.1.contractId row)

def withRows (s : Warehouse) (table : NftTable) (rows : List table.1.Row) : Warehouse :=
  { s with rows := Function.update s.rows table rows }

/-- The rows a promotion is about. -/
def promotable (s : Warehouse) (kind : NftKind) : List kind.Row :=
  s.selected (kind, .pending) [.nft]

def markFound (s : Warehouse) (kind : NftKind) : Warehouse :=
  { s with found := Function.update s.found kind (s.promotable kind) }

/-- The rows copied. -/
def promote (s : Warehouse) (kind : NftKind) : Warehouse :=
  (s.markFound kind).withRows (kind, .hot) (s.rows (kind, .hot) ++ s.promotable kind)

/-- The false positives among the rows a deletion is about. -/
def falsePositives (s : Warehouse) (table : NftTable) (types : List ContractType) :
    List table.1.Row :=
  (s.selected table types).filter fun row =>
    s.classified [.token, .fungible] (table.1.contractId row)

/-- The rows deleted.  A row that was merged away is dropped with the one in its place. -/
def delete (s : Warehouse) (table : NftTable) (types : List ContractType) : Warehouse :=
  { s.withRows table
      ((s.rows table).filter fun row => !s.classified types (table.1.contractId row)) with
    evicted := Function.update s.evicted table.1
      (s.evicted table.1 ++ (s.quarantined table.1).filter fun row =>
        table.1.Holds (s.falsePositives table types) row) }

/-- The answers to a statement.  One that fails may have run all the same. -/
def Answers (s : Warehouse) : (op : Statement) → sql.Ans op → Warehouse → Prop
  | .countNft kind, .ok n, s' => n = (s.promotable kind).length ∧ s' = s.markFound kind
  | .countNft _, .error _, s' => s' = s
  | .insertNft kind, .ok _, s' => s' = s.promote kind
  | .insertNft kind, .error _, s' => s' = s.promote kind ∨ s' = s
  | .countIn table types, .ok n, s' => n = (s.selected table types).length ∧ s' = s
  | .countIn _ _, .error _, s' => s' = s
  | .deleteIn table types, .ok _, s' => s' = s.delete table types
  | .deleteIn table types, .error _, s' => s' = s.delete table types ∨ s' = s
  | .optimize table, _, s' => ∃ rows, Merges table.1.key table.1.version (s.rows table) rows ∧
      s' = s.withRows table rows

/-- Rows written to a quarantine, perhaps again. -/
def quarantine (s : Warehouse) (kind : NftKind) (rows : List kind.Row) : Warehouse :=
  { s.withRows (kind, .pending) (s.rows (kind, .pending) ++ rows) with
    quarantined := Function.update s.quarantined kind (s.quarantined kind ++ rows)
    evicted := Function.update s.evicted kind ((s.evicted kind).filter (· ∉ rows)) }

variable [Crates]

/-- What happens between two statements: a ledger's rows of one table are written, contract
rows are written, a table is merged. -/
inductive Drift : Warehouse → Warehouse → Prop
  | writeHot {s : Warehouse} (ledger : LedgerNfts) (kind : NftKind) :
      Drift s (s.withRows (kind, .hot) (s.rows (kind, .hot) ++ ledger.rows (kind, .hot)))
  | writePending {s : Warehouse} (ledger : LedgerNfts) (kind : NftKind) :
      Drift s (s.quarantine kind (ledger.rows (kind, .pending)))
  | writeContracts {s : Warehouse} (contractRows : List SorobanContractRow) :
      Drift s { s with contracts := s.contracts ++ contractRows }
  | merge {s : Warehouse} {table : NftTable} {rows : List table.1.Row}
      (hmerges : Merges table.1.key table.1.version (s.rows table) rows) :
      Drift s (s.withRows table rows)

/-- ClickHouse as an environment, for the statements that are admitted. -/
def environment (admits : Warehouse → Statement → Prop) : Environment sql where
  State := Warehouse
  answers s op answer s' := admits s op ∧ s.Answers op answer s'
  drift := Drift

/-- A row is still quarantined or in the table that is read, or was itself dropped as a false
positive. -/
def Safe (s : Warehouse) (kind : NftKind) (row : kind.Row) : Prop :=
  kind.Holds (s.rows (kind, .pending)) row ∨ kind.Holds (s.rows (kind, .hot)) row ∨
    row ∈ s.evicted kind

/-- Every row ever quarantined is safe. -/
def NoneLost (s : Warehouse) : Prop :=
  ∀ kind, ∀ row ∈ s.quarantined kind, s.Safe kind row

/-- What a deletion from the quarantine takes as promoted, the promotion found. -/
def Timely (s : Warehouse) : Statement → Prop
  | .deleteIn (kind, .pending) _ => ∀ row ∈ s.promotable kind, kind.Holds (s.found kind) row
  | _ => True

end Warehouse

/-- The runs of the pass. -/
def Passes (p : Prog sql (Except BackfillError NftReclassifyStats)) : Prop :=
  ∃ dryRun, p = (execute dryRun).run

end SorobanExplorer.NftReclassify
