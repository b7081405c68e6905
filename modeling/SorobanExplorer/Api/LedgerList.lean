import SorobanExplorer.Api.CursorWalk
import SorobanExplorer.Api.KeysetPage
import SorobanExplorer.Api.TransactionList

/-!
# The list of ledgers

The statement fetches three times the rows a page and one needs, and copies of a
sequence, which the order puts side by side, are collapsed afterwards.
-/

namespace SorobanExplorer.LedgerList

open Ranked KeyedFold Text Collapse
open TransactionList (TransactionsRow partitionOf)

structure LedgersRow where
  sequence : Int64
  hash : Bytes
  /-- In milliseconds. -/
  closedAt : Int64
  protocolVersion : Int32
  transactionCount : Int32
  baseFee : Int64
  deriving DecidableEq

/-- The tables the list reads; either may hold a row twice. -/
structure Database where
  ledgers : List LedgersRow
  transactions : List TransactionsRow

structure LedgerListItem where
  sequence : Int64
  hash : String
  closedAt : Int64
  protocolVersion : Int32
  transactionCount : Int32
  successfulTransactionCount : Option Int32
  baseFee : Int64

/-! ## Cursors -/

structure TsIdCursor where
  ts : Int64
  id : Int64
  deriving DecidableEq

/-- `DateTime<Utc>` of milliseconds as text, and back. -/
structure DateTimeText where
  toText : Int64 → String
  fromText : String → Option Int64

def tsIdFormat (dates : DateTimeText) : PayloadFormat TsIdCursor where
  toJson cursor := .obj [("ts", .str (dates.toText cursor.ts)), ("id", .num cursor.id.toInt)]
  fromJson
    | .obj fields => do
        let ts ← dates.fromText (← (← fieldOnce fields "ts").asStr)
        let id ← jsonI64 (← fieldOnce fields "id")
        some ⟨ts, id⟩
    | .arr [ts, id] => do
        some ⟨← dates.fromText (← ts.asStr), ← jsonI64 id⟩
    | _ => none

theorem tsIdFormat_fromJson_toJson {dates : DateTimeText} {cursor : TsIdCursor}
    (h : dates.fromText (dates.toText cursor.ts) = some cursor.ts) :
    (tsIdFormat dates).fromJson ((tsIdFormat dates).toJson cursor) = some cursor := by
  simp [tsIdFormat, fieldOnce, Json.asStr, h, jsonI64_toInt]

def LedgerListItem.cursor (item : LedgerListItem) : TsIdCursor :=
  ⟨item.closedAt, item.sequence⟩

def LedgersRow.cursor (row : LedgersRow) : TsIdCursor :=
  ⟨row.closedAt, row.sequence⟩

/-! ## One page -/

def LEDGER_OVERFETCH : ℕ := 3

def LedgersRow.item (row : LedgersRow) : LedgerListItem where
  sequence := row.sequence
  hash := hexEncode row.hash
  closedAt := row.closedAt
  protocolVersion := row.protocolVersion
  transactionCount := row.transactionCount
  -- filled in once the page is collapsed
  successfulTransactionCount := none
  baseFee := row.baseFee

def dedupConsecutive (raw : List LedgersRow) (limit : ℕ) : List LedgersRow :=
  Collapse.dedupConsecutive LedgersRow.sequence limit [] raw

section

variable (db : Database)

/-- The successful transactions of the ledgers at some sequences. -/
def fetchSuccessfulCounts (sequences : List Int64) : List (Int64 × Int32) :=
  let partitions := sequences.map partitionOf
  let rows := firstBy TransactionsRow.position (db.transactions.filter fun row =>
    row.ledgerSequence ∈ sequences ∧ partitionOf row.ledgerSequence ∈ partitions)
  (firstBy id (rows.map (·.ledgerSequence))).map fun sequence =>
    (sequence, .ofNat (rows.countP fun row => row.ledgerSequence = sequence ∧ row.successful))

/-- A ledger without transactions keeps no count, and so does every ledger when the counts
cannot be read. -/
def attachSuccessfulCounts (countsRead : Bool) (items : List LedgerListItem) :
    List LedgerListItem :=
  let counts := if countsRead then fetchSuccessfulCounts db (items.map (·.sequence)) else []
  items.map fun item => { item with successfulTransactionCount := lastOf item.sequence counts }

def fetchList (countsRead : Bool) (sort : SortOrder) (limit : ℕ) (cursor : Option TsIdCursor)
    (direction : Direction) : List LedgerListItem :=
  let (op, order) := keysetSql sort direction
  let rows := (order.sorted (·.sequence.toInt) (db.ledgers.filter fun row =>
    cursor.all fun cursor => op.admits row.sequence.toInt cursor.id.toInt)).take
      (limit * LEDGER_OVERFETCH)
  attachSuccessfulCounts db countsRead ((dedupConsecutive rows limit).map LedgersRow.item)

/-- The page a request gets. -/
def listLedgers (codec : CursorCodec) (dates : DateTimeText) (countsRead : Bool) (sort : SortOrder)
    (limit : ℕ) : Option String → Except CursorError (Page LedgerListItem) :=
  pagedList codec (tsIdFormat dates) limit (fetchList db countsRead sort) LedgerListItem.cursor

/-! ## Complete walks -/

/-- A ledger's rank in the order of the list. -/
def rank (sort : SortOrder) (row : LedgersRow) : ℤ :=
  match sort with
  | .asc => row.sequence.toInt
  | .desc => -row.sequence.toInt

/-- The distinct ledgers in the order of the list. -/
def ledgersInOrder (sort : SortOrder) : List LedgersRow :=
  distinct LedgersRow.sequence (rank sort) db.ledgers

/-- The walk of the list returns every ledger once, in order. -/
def ListComplete (codec : CursorCodec) (dates : DateTimeText) (countsRead : Bool)
    (sort : SortOrder) (limit : ℕ) : Prop :=
  WalksThrough (listLedgers db codec dates countsRead sort limit) (·.sequence)
    ((ledgersInOrder db sort).map (·.sequence))

end

variable {db : Database} {codec : CursorCodec} {dates : DateTimeText} {limit : ℕ}

theorem copied_ledgers (hcopies : Copies LedgersRow.sequence db.ledgers) (sort : SortOrder) :
    Copied LedgersRow.sequence (rank sort) db.ledgers := by
  refine ⟨hcopies, fun a _ b _ heq => ?_⟩
  cases sort with
  | asc => exact Int64.toInt_inj.mp heq
  | desc => exact Int64.toInt_inj.mp (Int.neg_inj.mp heq)

/-- The order of the statement along the walk, whatever the copies. -/
theorem sorted_rank (sort : SortOrder) {rows : List LedgersRow}
    (hcopies : Copies LedgersRow.sequence rows) :
    (keysetSql sort .next).2.sorted (·.sequence.toInt) rows = sortBy (rank sort) rows := by
  cases sort with
  | asc => rfl
  | desc =>
      -- two sorted arrangements of copies
      have hsorted := pairwise_sortBy (fun row : LedgersRow =>
        OrderDual.toDual row.sequence.toInt) rows
      have hdesc : (FetchOrder.desc.sorted (·.sequence.toInt) rows).Pairwise
          fun a b => rank .desc a ≤ rank .desc b :=
        hsorted.imp fun hab => Int.neg_le_neg hab
      refine List.Perm.eq_of_pairwise (fun a b ha hb hab hba => ?_) hdesc
        (pairwise_sortBy (rank .desc) rows) ((sortBy_perm _ _).trans (sortBy_perm _ _).symm)
      exact hcopies a (mem_sortBy.mp ha) b (mem_sortBy.mp hb)
        (Int64.toInt_inj.mp (Int.neg_inj.mp (le_antisymm hab hba)))

theorem map_cursor_attachSuccessfulCounts (countsRead : Bool) (items : List LedgerListItem) :
    (attachSuccessfulCounts db countsRead items).map LedgerListItem.cursor =
      items.map LedgerListItem.cursor := by
  rw [attachSuccessfulCounts, List.map_map]
  rfl

/-- The rows of a page are those its window collapses to. -/
theorem map_cursor_fetchList (hcopies : Copies LedgersRow.sequence db.ledgers) (countsRead : Bool)
    (sort : SortOrder) (cursor : Option TsIdCursor) (hlimit : 1 ≤ limit) :
    (fetchList db countsRead sort limit cursor .next).map LedgerListItem.cursor =
      ((collapse LedgersRow.sequence (rank sort) (limit * LEDGER_OVERFETCH)
        (db.ledgers.filter fun row => cursor.all fun cursor =>
          (keysetSql sort .next).1.admits row.sequence.toInt cursor.id.toInt)).take limit).map
            LedgersRow.cursor := by
  have hrows := hcopies.filter fun row => cursor.all fun cursor =>
    (keysetSql sort .next).1.admits row.sequence.toInt cursor.id.toInt
  have hcopied := (copied_ledgers hcopies sort).filter fun row => cursor.all fun cursor =>
    (keysetSql sort .next).1.admits row.sequence.toInt cursor.id.toInt
  rw [fetchList, map_cursor_attachSuccessfulCounts, List.map_map, sorted_rank sort hrows,
    dedupConsecutive, dedupConsecutive_eq ((pairwise_sortBy (rank sort) _).sublist
      (List.take_sublist _ _)) (hcopied.of_mem fun a ha =>
        mem_sortBy.mp (List.mem_of_mem_take ha)) hlimit]
  rfl

/-- A walk of the list is complete exactly if the copies of no page fill its window of
three times a page and one row. -/
theorem complete_iff_room (hlimit : 1 ≤ limit) (hcopies : Copies LedgersRow.sequence db.ledgers)
    (hcodec : ∀ row ∈ db.ledgers, codec.ReadsBackPayload (tsIdFormat dates) row.cursor)
    (hdates : ∀ row ∈ db.ledgers, dates.fromText (dates.toText row.closedAt) = some row.closedAt)
    (countsRead : Bool) (sort : SortOrder) :
    ListComplete db codec dates countsRead sort limit ↔
      Room LedgersRow.sequence (rank sort) ((limit + 1) * LEDGER_OVERFETCH) limit db.ledgers := by
  have hcopied := copied_ledgers hcopies sort
  refine walksThrough_pagedList_iff hlimit hcopied (walks_pagedList hlimit hcopied hcodec
    (fun row hrow => tsIdFormat_fromJson_toJson (hdates row hrow)) ?_ fun row hrow => ?_)
    TsIdCursor.id
  · rw [map_cursor_fetchList hcopies countsRead sort none (Nat.succ_pos limit)]
    simp only [Option.all_none, List.filter_true]
  · rw [map_cursor_fetchList hcopies countsRead sort _ (Nat.succ_pos limit)]
    congr 4
    funext other
    cases sort with
    | asc => rfl
    | desc => simp [keysetSql, KeysetOp.admits, rank, LedgersRow.cursor]

end SorobanExplorer.LedgerList
