import Mathlib.Data.Int.Notation
import Mathlib.Data.Nat.Notation
import Mathlib.Logic.Function.Basic
import SorobanExplorer.Lib.Interaction
import SorobanExplorer.Persist.Error

/-!
# The partition writer

`PartitionWriter` owns one insert per table, opened on the first row for that
table.  `writeLedger` streams one ledger's staged rows into the inserts and
holds its `ledgers` row back; `commit` ends every open insert in a fixed order
and only then opens, fills and ends the `ledgers` insert, the commit marker.
`persistLedgerClickhouse` is the live path: stage one ledger, open a writer,
write, commit, or abort on the first write error.

The functions are programs over `clickHouse`, the requests the writer sends.
Each request may fail, and a row that was sent may be stored whatever the answer
was; what the server then holds is `Persist.CommitMarker`'s subject.  The row
types of the streamed tables play no part here, so `Row` stands for all of them.
-/

namespace SorobanExplorer.Persist

open Interaction

/-! ## Tables and rows -/

/-- The streamed tables: every table of the writer but `ledgers`. -/
inductive StreamTable
  | accounts | accountEntryState | wasmPrograms | sorobanContracts | sorobanContractMetadata
  | contractExecutableRefs | contractInstances | transactions | transactionHashPrefixIndex
  | transactionParticipants | operationAssetAppearances | poolOperationAmounts | poolMovements
  | liquidityPools | poolInstanceState | poolStateChanges | liquidityPoolSnapshots | lpPositions
  | transactionOperations | sorobanEvents | contractActivity | assets | assetSac | nfts
  | nftsPending | nftOwnershipChanges | nftOwnershipChangesPending | balances
  | claimableBalanceHoldings | assetTransfers | transactionMemos
  deriving DecidableEq, Repr

/-- A `ledgers` row. -/
structure LedgerRow where
  sequence : ℤ
  hash : BitVec 256
  /-- Milliseconds since the Unix epoch. -/
  closedAt : ℤ
  protocolVersion : ℤ
  transactionCount : ℤ
  baseFee : ℤ
  deriving DecidableEq, Repr

/-- A `ledgers` row as the commit marker it becomes, with the number of the
staging it comes from. -/
structure Marker where
  staging : ℕ
  row : LedgerRow
  deriving DecidableEq, Repr

/-- The rows staged for one ledger. -/
structure StagedLedger (Row : Type) where
  ledgerRows : List Marker
  rows : StreamTable → List Row

/-! ## Requests -/

/-- What a persist asks of ClickHouse.  `stage` stands for the prefetch queries
and the staging over what they return: its answer is the rows of the streamed
tables.  It also numbers the staging, and `openWriter`, which sends nothing,
numbers the writer; the numbers tell attempts apart and nothing reads them. -/
inductive DbOp (Row : Type)
  | maxSequence
  | stage (ledger : LedgerRow)
  | openWriter
  | openInsert (writer : ℕ) (table : StreamTable)
  | write (writer : ℕ) (table : StreamTable) (row : Row)
  | endInsert (writer : ℕ) (table : StreamTable) (rows : List Row)
  | openLedgers (writer : ℕ)
  | writeLedgers (writer : ℕ) (marker : Marker)
  | endLedgers (writer : ℕ) (markers : List Marker)

/-- ClickHouse as an interface: every request may be answered by an error. -/
def clickHouse (Row : Type) : Interface where
  Op := DbOp Row
  Ans
    | .maxSequence => Except SchemaError ℤ
    | .stage _ => Except SchemaError (ℕ × (StreamTable → List Row))
    | .openWriter => ℕ
    | .openInsert _ _ => Except SchemaError Unit
    | .write _ _ _ => Except SchemaError Unit
    | .endInsert _ _ _ => Except SchemaError Unit
    | .openLedgers _ => Except SchemaError Unit
    | .writeLedgers _ _ => Except SchemaError Unit
    | .endLedgers _ _ => Except SchemaError Unit

/-- A persist program: it talks to ClickHouse and may fail. -/
abbrev Db (Row α : Type) : Type := ExceptT SchemaError (Prog (clickHouse Row)) α

variable {Row : Type}

namespace Request

def maxSequence : Db Row ℤ := .mk (.perform (I := clickHouse Row) .maxSequence)

def stage (ledger : LedgerRow) : Db Row (ℕ × (StreamTable → List Row)) :=
  .mk (.perform (I := clickHouse Row) (.stage ledger))

def openWriter : Db Row ℕ :=
  .lift (.perform (I := clickHouse Row) .openWriter)

def openInsert (writer : ℕ) (table : StreamTable) : Db Row Unit :=
  .mk (.perform (I := clickHouse Row) (.openInsert writer table))

def write (writer : ℕ) (table : StreamTable) (row : Row) : Db Row Unit :=
  .mk (.perform (I := clickHouse Row) (.write writer table row))

def endInsert (writer : ℕ) (table : StreamTable) (rows : List Row) : Db Row Unit :=
  .mk (.perform (I := clickHouse Row) (.endInsert writer table rows))

def openLedgers (writer : ℕ) : Db Row Unit :=
  .mk (.perform (I := clickHouse Row) (.openLedgers writer))

def writeLedgers (writer : ℕ) (marker : Marker) : Db Row Unit :=
  .mk (.perform (I := clickHouse Row) (.writeLedgers writer marker))

def endLedgers (writer : ℕ) (markers : List Marker) : Db Row Unit :=
  .mk (.perform (I := clickHouse Row) (.endLedgers writer markers))

end Request

/-! ## The writer -/

/-- An insert in flight: the rows streamed into its request so far. -/
abbrev Insert (Row : Type) := List Row

structure PartitionWriter (Row : Type) where
  id : ℕ
  /-- The open insert of each table, if any. -/
  inserts : StreamTable → Option (Insert Row)
  /-- The commit marker, held back until every other insert is acknowledged. -/
  ledgerRows : List Marker

namespace PartitionWriter

/-- The order in which `write_ledger` streams the tables. -/
def writeOrder : List StreamTable :=
  [.accounts, .accountEntryState, .wasmPrograms, .sorobanContracts, .sorobanContractMetadata,
    .contractExecutableRefs, .contractInstances, .transactions, .transactionHashPrefixIndex,
    .transactionParticipants, .operationAssetAppearances, .poolOperationAmounts, .poolMovements,
    .liquidityPools, .poolInstanceState, .poolStateChanges, .liquidityPoolSnapshots, .lpPositions,
    .transactionOperations, .sorobanEvents, .contractActivity, .assets, .assetSac, .nfts,
    .nftsPending, .nftOwnershipChanges, .nftOwnershipChangesPending, .balances,
    .claimableBalanceHoldings, .assetTransfers, .transactionMemos]

/-- The order in which `commit` ends the inserts. -/
def endOrder : List StreamTable :=
  [.accounts, .accountEntryState, .wasmPrograms, .sorobanContracts, .sorobanContractMetadata,
    .contractExecutableRefs, .contractInstances, .transactions, .transactionHashPrefixIndex,
    .transactionParticipants, .operationAssetAppearances, .poolOperationAmounts, .poolMovements,
    .liquidityPools, .poolInstanceState, .poolStateChanges, .liquidityPoolSnapshots, .lpPositions,
    .transactionOperations, .sorobanEvents, .contractActivity, .assets, .assetSac, .nfts,
    .nftsPending, .nftOwnershipChanges, .nftOwnershipChangesPending, .balances,
    .claimableBalanceHoldings, .assetTransfers, .transactionMemos]

def «open» : Db Row (PartitionWriter Row) := do
  let id ← Request.openWriter
  return { id := id, inserts := fun _ => none, ledgerRows := [] }

/-- The insert of a slot, opened if there is none yet. -/
def openSlot (writer : ℕ) (slot : Option (Insert Row)) (table : StreamTable) :
    Db Row (Insert Row) :=
  match slot with
  | some insert => return insert
  | none => do
      Request.openInsert writer table
      return []

/-- Stream rows into the slot of a table, opening its insert on the first row. -/
def writeRows (writer : ℕ) (slot : Option (Insert Row)) (table : StreamTable) (rows : List Row) :
    Db Row (Option (Insert Row)) :=
  if rows.isEmpty then
    return slot
  else do
    let insert ← openSlot writer slot table
    rows.forM (Request.write writer table)
    return some (insert ++ rows)

/-- Stream one table's staged rows into its insert. -/
def writeTable (staged : StagedLedger Row) (pw : PartitionWriter Row) (table : StreamTable) :
    Db Row (PartitionWriter Row) := do
  let slot ← writeRows pw.id (pw.inserts table) table (staged.rows table)
  return { pw with inserts := Function.update pw.inserts table slot }

/-- Stream one ledger's staged rows; its `ledgers` row stays behind. -/
def writeLedger (pw : PartitionWriter Row) (staged : StagedLedger Row) :
    Db Row (PartitionWriter Row) :=
  writeOrder.foldlM (writeTable staged)
    { pw with ledgerRows := pw.ledgerRows ++ staged.ledgerRows }

/-- End the insert of a table, if one was opened. -/
def endSlot (pw : PartitionWriter Row) (table : StreamTable) : Db Row Unit :=
  match pw.inserts table with
  | none => return ()
  | some rows => Request.endInsert pw.id table rows

/-- End every open insert, then write the `ledgers` rows in a request of their
own. -/
def commit (pw : PartitionWriter Row) : Db Row Unit := do
  endOrder.forM pw.endSlot
  if pw.ledgerRows.isEmpty then
    return ()
  else do
    Request.openLedgers pw.id
    pw.ledgerRows.forM (Request.writeLedgers pw.id)
    Request.endLedgers pw.id pw.ledgerRows

/-- Drop the inserts without ending them.  Nothing is sent: what was streamed
stays in doubt. -/
def abort (_pw : PartitionWriter Row) : Db Row Unit :=
  return ()

end PartitionWriter

/-- Persist one ledger: stage it, then open, write and commit a writer. -/
def persistLedgerClickhouse (ledger : LedgerRow) : Db Row Unit := do
  let (staging, rows) ← Request.stage ledger
  let staged : StagedLedger Row := { ledgerRows := [⟨staging, ledger⟩], rows := rows }
  let pw ← PartitionWriter.open
  match ← ExceptT.lift (pw.writeLedger staged).run with
  | .error error => do
      pw.abort
      throw error
  | .ok pw => pw.commit

end SorobanExplorer.Persist
