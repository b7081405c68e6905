import SorobanExplorer.Api.KeysetWalk
import SorobanExplorer.Lib.KeyedFold
import SorobanExplorer.Parser.Operation

/-!
# The transaction list

The list of transactions under the source, contract and operation-type filters.
Without the last two one statement reads `transactions`; with one of them a first
statement takes a bounded number of candidate positions and a second one reads the
page at these positions.
-/

namespace SorobanExplorer.TransactionList

open Ranked KeyedFold Text

/-! ## Tables -/

structure LedgersRow where
  sequence : Int64
  /-- In milliseconds. -/
  closedAt : Int64

structure AccountsRow where
  id : Int64
  accountId : String

structure SorobanContractsRow where
  id : Int64
  contractId : String

structure TransactionsRow where
  hash : Bytes
  ledgerSequence : Int64
  applicationOrder : Int16
  sourceId : Int64
  feeCharged : Int64
  innerTxHash : Option Bytes
  successful : Bool
  operationCount : Int16
  hasSoroban : Bool
  deriving DecidableEq

structure TransactionOperationsRow where
  ledgerSequence : Int64
  applicationOrder : Int16
  type : Int16

structure ContractActivityRow where
  contractId : Int64
  ledgerSequence : Int64
  applicationOrder : Int16

def TransactionsRow.position (row : TransactionsRow) : TxListCursor :=
  ⟨row.ledgerSequence, row.applicationOrder⟩

def TransactionOperationsRow.position (row : TransactionOperationsRow) : TxListCursor :=
  ⟨row.ledgerSequence, row.applicationOrder⟩

def ContractActivityRow.position (row : ContractActivityRow) : TxListCursor :=
  ⟨row.ledgerSequence, row.applicationOrder⟩

/-- The tables the list reads.  Any but `transactions` may hold a row twice. -/
structure Database where
  ledgers : List LedgersRow
  accounts : List AccountsRow
  sorobanContracts : List SorobanContractsRow
  transactions : List TransactionsRow
  transactionOperations : List TransactionOperationsRow
  contractActivity : List ContractActivityRow

/-- `max(sequence)`; 0 over an empty table. -/
def maxSequence (ledgers : List LedgersRow) : Int64 :=
  (((sortBy (fun row : LedgersRow => OrderDual.toDual row.sequence.toInt) ledgers).head?).map
    (·.sequence)).getD 0

def partitionOf (ledgerSequence : Int64) : Int64 :=
  ledgerSequence / 500000

/-! ## Rows of a page -/

structure TxPageRawRow where
  hash : String
  ledgerSequence : Int64
  applicationOrder : Int16
  sourceId : Int64
  feeCharged : Int64
  innerTxHash : Option String
  successful : Bool
  operationCount : Int16
  hasSoroban : Bool

structure TxPageChRow where
  hash : String
  ledgerSequence : Int64
  applicationOrder : Int16
  sourceAccount : Option String
  feeCharged : Int64
  innerTxHash : Option String
  successful : Bool
  operationCount : Int16
  hasSoroban : Bool
  createdAt : Int64

structure TxListRow where
  hash : String
  ledgerSequence : Int64
  applicationOrder : Int16
  sourceAccount : Option String
  feeCharged : Int64
  innerTxHash : Option String
  successful : Bool
  operationCount : Int16
  hasSoroban : Bool
  operationTypes : List String
  createdAt : Int64
  deriving DecidableEq

def TxPageChRow.position (row : TxPageChRow) : TxListCursor :=
  ⟨row.ledgerSequence, row.applicationOrder⟩

def TransactionsRow.toRaw (row : TransactionsRow) : TxPageRawRow where
  hash := hexEncode row.hash
  ledgerSequence := row.ledgerSequence
  applicationOrder := row.applicationOrder
  sourceId := row.sourceId
  feeCharged := row.feeCharged
  innerTxHash := row.innerTxHash.map hexEncode
  successful := row.successful
  operationCount := row.operationCount
  hasSoroban := row.hasSoroban

def operationTypeLabel (code : Int16) : String :=
  match OperationType.tryFrom code with
  | some op => op.asStr
  | none => "UNKNOWN_" ++ toString code.toInt

/-- Sorted, each once. -/
def sortedUnique (values : List String) : List String :=
  (values.mergeSort fun a b => decide (a ≤ b)).dedup

def sortedUniqueLabels (codes : List Int16) : List String :=
  sortedUnique (codes.map operationTypeLabel)

/-- No text for an empty one. -/
def nonEmpty (text : Option String) : Option String :=
  text.filter (· ≠ "")

def TxPageChRow.intoListRow (row : TxPageChRow) (operationTypes : List String) : TxListRow where
  hash := row.hash
  ledgerSequence := row.ledgerSequence
  applicationOrder := row.applicationOrder
  sourceAccount := nonEmpty row.sourceAccount
  feeCharged := row.feeCharged
  innerTxHash := nonEmpty row.innerTxHash
  successful := row.successful
  operationCount := row.operationCount
  hasSoroban := row.hasSoroban
  operationTypes
  createdAt := row.createdAt

section

variable (db : Database)

/-- The StrKeys of some account ids, one of each id. -/
def resolveAccounts (ids : List Int64) : List (Int64 × String) :=
  (firstBy (·.id) (db.accounts.filter fun row => row.id ∈ ids)).map fun row =>
    (row.id, row.accountId)

/-- A row whose ledger is missing is left out. -/
def resolveSourceAndClosedAt (raw : List TxPageRawRow) : List TxPageChRow :=
  let accounts := resolveAccounts db (raw.map (·.sourceId))
  let closedAts := (db.ledgers.filter fun ledger =>
    ledger.sequence ∈ raw.map (·.ledgerSequence)).map fun ledger =>
      (ledger.sequence, ledger.closedAt)
  raw.filterMap fun row =>
    (lastOf row.ledgerSequence closedAts).map fun createdAt =>
      { hash := row.hash
        ledgerSequence := row.ledgerSequence
        applicationOrder := row.applicationOrder
        sourceAccount := lastOf row.sourceId accounts
        feeCharged := row.feeCharged
        innerTxHash := row.innerTxHash
        successful := row.successful
        operationCount := row.operationCount
        hasSoroban := row.hasSoroban
        createdAt }

/-- The operation types of the transactions at some positions. -/
def fetchTxListAggregates (keys : List TxListCursor) : List (TxListCursor × List String) :=
  let partitions := keys.map fun key => partitionOf key.ledgerSequence
  let rows := db.transactionOperations.filter fun row =>
    row.position ∈ keys ∧ partitionOf row.ledgerSequence ∈ partitions
  (firstBy id (rows.map (·.position))).map fun position =>
    (position, sortedUniqueLabels ((rows.filter (·.position = position)).map (·.type)).dedup)

/-! ## Statements -/

def resolveAccountSurrogate (accountStrkey : String) : Option Int64 :=
  (db.accounts.find? (·.accountId = accountStrkey)).map (·.id)

def resolveContractSurrogate (contractStrkey : String) : Option Int64 :=
  (db.sorobanContracts.find? (·.contractId = contractStrkey)).map (·.id)

/-- The positions of the transactions that touch a contract. -/
def contractPositions (contractId headMax : Int64) (cursor : Option TxListCursor)
    (direction : Direction) (limOver : ℕ) : List TxListCursor :=
  let (op, order) := keysetSqlDesc direction
  (firstBy id (order.sort id ((db.contractActivity.filter fun row =>
    row.contractId = contractId ∧ row.ledgerSequence ≤ headMax ∧
      cursor.all (op.holds row.position)).map (·.position)))).take limOver

/-- The positions of the transactions with an operation of a type, in one partition. -/
def opTypePositions (opType : Int16) (headPartition headMax : Int64)
    (cursor : Option TxListCursor) (direction : Direction) (limOver : ℕ) : List TxListCursor :=
  let (op, order) := keysetSqlDesc direction
  let partition := (cursor.map fun cursor => partitionOf cursor.ledgerSequence).getD headPartition
  (firstBy id (order.sort id ((db.transactionOperations.filter fun row =>
    row.type = opType ∧ partitionOf row.ledgerSequence = partition ∧
      row.ledgerSequence ≤ headMax ∧ cursor.all (op.holds row.position)).map
        (·.position)))).take limOver

/-- The page at some positions, filtered by source and operation type. -/
def pageAtPositions (positions : List TxListCursor) (src : Option Int64) (ot : Option Int16)
    (order : FetchOrder) (limPeek : ℕ) : List TxPageRawRow :=
  let partitions := positions.map fun position => partitionOf position.ledgerSequence
  let ofType := fun ot => (db.transactionOperations.filter fun row =>
    row.position ∈ positions ∧ partitionOf row.ledgerSequence ∈ partitions ∧
      row.type = ot).map (·.position)
  ((firstBy (·.position) (order.sort (·.position) (db.transactions.filter fun row =>
    row.position ∈ positions ∧ partitionOf row.ledgerSequence ∈ partitions ∧
      src.all (row.sourceId = ·) ∧ ot.all (fun ot => row.position ∈ ofType ot)))).take
        limPeek).map TransactionsRow.toRaw

/-- The page without a contract or operation-type filter. -/
def unfilteredPage (src : Option Int64) (headPartition headMax : Int64)
    (cursor : Option TxListCursor) (direction : Direction) (limPeek : ℕ) : List TxPageRawRow :=
  let (op, order) := keysetSqlDesc direction
  let partition := (cursor.map fun cursor => partitionOf cursor.ledgerSequence).getD headPartition
  ((order.sort (·.position) (db.transactions.filter fun row =>
    partitionOf row.ledgerSequence = partition ∧ row.ledgerSequence ≤ headMax ∧
      cursor.all (op.holds row.position) ∧ src.all (row.sourceId = ·))).take limPeek).map
        TransactionsRow.toRaw

/-! ## The list -/

structure ResolvedListParams where
  limit : ℕ
  cursor : Option TxListCursor
  sourceAccount : Option String
  contractId : Option String
  opType : Option Int16

/-- The rows at the positions a first statement found. -/
def fetchListRows (params : ResolvedListParams) (sourceId contractSurrogate : Option Int64)
    (direction : Direction) (head : Option Int64) : List TxPageChRow :=
  let (_, order) := keysetSqlDesc direction
  let limOver := params.limit * 4
  let limPeek := params.limit + 1
  let headPartition := partitionOf (head.getD (maxSequence db.ledgers))
  let headMax := head.getD (maxSequence db.ledgers)
  match contractSurrogate, params.opType with
  | some cid, opType =>
      let positions := contractPositions db cid headMax params.cursor direction limOver
      if positions.isEmpty then []
      else resolveSourceAndClosedAt db
        (pageAtPositions db positions sourceId opType order limPeek)
  | none, some opType =>
      let positions :=
        opTypePositions db opType headPartition headMax params.cursor direction limOver
      if positions.isEmpty then []
      else resolveSourceAndClosedAt db (pageAtPositions db positions sourceId none order limPeek)
  | none, none =>
      resolveSourceAndClosedAt db
        (unfilteredPage db sourceId headPartition headMax params.cursor direction limPeek)

def fetchList (params : ResolvedListParams) (direction : Direction) (head : Option Int64) :
    List TxListRow :=
  match params.sourceAccount.map (resolveAccountSurrogate db),
    params.contractId.map (resolveContractSurrogate db) with
  -- a filter that names nothing matches no rows
  | some none, _ => []
  | _, some none => []
  | sourceRes, contractRes =>
      let rows := firstBy (·.position)
        (fetchListRows db params sourceRes.join contractRes.join direction head)
      let aggregates := fetchTxListAggregates db (rows.map (·.position))
      rows.map fun row => row.intoListRow ((lastOf row.position aggregates).getD [])

/-- The filters of a request. -/
structure ListParams where
  filterSourceAccount : Option String
  filterContractId : Option String
  filterOperationType : Option Int16

/-- The cursor of a boundary row. -/
def listCursorFor (row : TxListRow) : TxListCursor :=
  ⟨row.ledgerSequence, row.applicationOrder⟩

/-- The chain head, or nothing when its read failed. -/
def currentHeadOpt (headRead : Bool) : Option Int64 :=
  if headRead then some (maxSequence db.ledgers) else none

/-- The page a request gets. -/
def listTransactions (codec : CursorCodec) (params : ListParams) (limit : ℕ) (headRead : Bool)
    (raw : Option String) : Except CursorError (Page TxListRow) :=
  (decodeCursor codec raw).map fun (direction, cursor) =>
    -- only the first page reads the head
    let liveHead := if cursor.isNone then currentHeadOpt db headRead else none
    let resolved : ResolvedListParams :=
      { limit
        cursor
        sourceAccount := params.filterSourceAccount
        contractId := params.filterContractId
        opType := params.filterOperationType }
    finalizePage (fetchList db resolved direction liveHead) limit direction cursor.isSome
      fun direction row => codec.encode (listCursorFor row) direction

/-- The `k`-th page along the forward continuations. -/
def pageAt (codec : CursorCodec) (params : ListParams) (limit : ℕ) (headRead : Bool) :
    ℕ → Option (Except CursorError (Page TxListRow))
  | 0 => some (listTransactions db codec params limit headRead none)
  | k + 1 =>
      match pageAt codec params limit headRead k with
      | some (.ok page) => page.info.nextCursor.map fun cursor =>
          listTransactions db codec params limit headRead (some cursor)
      | _ => none

/-- The rows of the first `n` pages. -/
def visited (codec : CursorCodec) (params : ListParams) (limit : ℕ) (headRead : Bool) (n : ℕ) :
    List TxListRow :=
  (List.range n).flatMap fun k =>
    match pageAt db codec params limit headRead k with
    | some (.ok page) => page.rows
    | _ => []

end

end SorobanExplorer.TransactionList
