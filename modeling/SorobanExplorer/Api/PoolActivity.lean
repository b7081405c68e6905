import SorobanExplorer.Api.KeysetPage
import SorobanExplorer.Lib.CutGroups
import SorobanExplorer.Lib.Slots
import SorobanExplorer.Persist.PoolMovements

/-!
# The activity of a classic pool

One row for each operation that moved value through the pool.  The legs of an operation are
neighbours in the table, so they are read in key order, through a window that may cut the last
operation off, and paired afterwards.
-/

namespace SorobanExplorer

open CutGroups Ranked Slots

/-- `ORDER BY` lets one key come before another. -/
def FetchOrder.le {κ : Type*} [LE κ] : FetchOrder → κ → κ → Prop
  | .asc, a, b => a ≤ b
  | .desc, a, b => b ≤ a

/-- An order in which a query hands out rows; rows of one key come in any. -/
structure ReadOrder {α κ : Type*} [LE κ] (order : FetchOrder) (key : α → κ) where
  arrange : List α → List α
  perm : ∀ l, (arrange l).Perm l
  sorted : ∀ l, (arrange l).Pairwise fun a b => order.le (key a) (key b)

/-- The order that keeps rows of one key as the table has them. -/
def FetchOrder.stable {α κ : Type*} [LinearOrder κ] (order : FetchOrder) (key : α → κ) :
    ReadOrder order key where
  arrange := order.sorted key
  perm l := by
    cases order
    · exact sortBy_perm key l
    · exact sortBy_perm (fun row => OrderDual.toDual (key row)) l
  sorted l := by
    cases order
    · exact pairwise_sortBy key l
    · exact pairwise_sortBy (fun row => OrderDual.toDual (key row)) l

namespace PoolActivity

/-- The place of an operation. -/
structure OperationPosition where
  ls : Int64
  ao : Int16
  oi : Int16

namespace OperationPosition

/-- The place as a tuple, compared ledger first. -/
def tuple (position : OperationPosition) : ℤ ×ₗ ℤ ×ₗ ℤ :=
  toLex (position.ls.toInt, toLex (position.ao.toInt, position.oi.toInt))

theorem tuple_injective : Function.Injective tuple := by
  intro a b h
  obtain ⟨hledger, h⟩ := Prod.mk.inj (toLex.injective h)
  obtain ⟨horder, hoperation⟩ := Prod.mk.inj (toLex.injective h)
  cases a
  cases b
  rw [Int64.toInt_inj] at hledger
  rw [Int16.toInt_inj] at horder hoperation
  simp_all

instance : LinearOrder OperationPosition :=
  LinearOrder.lift' tuple tuple_injective

end OperationPosition

/-- A row of `pool_operation_amounts`, of one pool. -/
structure PoolLegChRow where
  position : OperationPosition
  assetId : Int64
  amount : Int64
  deriving DecidableEq

/-- The key of the table. -/
def PoolLegChRow.sortKey (row : PoolLegChRow) : OperationPosition × Int64 :=
  (row.position, row.assetId)

structure PoolActivityCursor where
  ledgerSequence : Int64
  applicationOrder : Int16
  operationIndex : Int16
  eventIndex : UInt32

/-- The place of an operation in a cursor; its event is not read. -/
def PoolActivityCursor.operation (cursor : PoolActivityCursor) : OperationPosition :=
  ⟨cursor.ledgerSequence, cursor.applicationOrder, cursor.operationIndex⟩

/-- An operation with one amount a leg of the pool. -/
structure PairedOp where
  position : OperationPosition
  amounts : List (Option Int64)
  deriving DecidableEq

/-- A row of the page, before its transaction is joined on. -/
structure ActivityOp where
  position : OperationPosition
  eventIndex : Option UInt32
  event : Option PoolEvent
  amounts : List (Option String)
  deriving DecidableEq

/-- The cursor of a served row. -/
def ActivityOp.cursor (row : ActivityOp) : PoolActivityCursor where
  ledgerSequence := row.position.ls
  applicationOrder := row.position.ao
  operationIndex := row.position.oi
  eventIndex := row.eventIndex.getD 0

/-- All in, all out, or neither. -/
def fromSigns (amounts : List Int64) : PoolEvent :=
  if amounts.all (0 < ·) then .deposit
  else if amounts.all (· < 0) then .withdrawal
  else .trade

/-- The kind of an operation; none unless every leg has an amount. -/
def PairedOp.event (op : PairedOp) : Option PoolEvent :=
  (op.amounts.mapM id).map fromSigns

/-! ## Pairing -/

section

variable (legs : List Int64)

def startOp (row : PoolLegChRow) : PairedOp :=
  ⟨row.position, List.replicate legs.length none⟩

/-- The slot of a row and its amount; an asset that is no leg has no slot. -/
def legSlot (row : PoolLegChRow) : Option (ℕ × Int64) :=
  if row.assetId ∈ legs then some (legs.idxOf row.assetId, row.amount) else none

def PairedOp.land (op : PairedOp) (row : PoolLegChRow) : PairedOp :=
  { op with amounts := fill (legSlot legs) op.amounts row }

def PairedOp.sameOp (op : PairedOp) (row : PoolLegChRow) : Bool :=
  op.position = row.position

/-- The operations of legs in key order; a truncated read loses the last. -/
def pairLegs (rows : List PoolLegChRow) (truncated : Bool) : List PairedOp :=
  wholeGroups truncated
    (rows.foldl (joinLast PairedOp.sameOp (startOp legs) (PairedOp.land legs)) [])

/-! ## The window -/

/-- Where the walk is: the last whole operation, the size of the window, what it has found. -/
structure Window where
  after : Option OperationPosition
  window : ℕ
  ops : List PairedOp

def firstWindow (limit : ℕ) (cursor : Option PoolActivityCursor) : Window where
  after := cursor.map PoolActivityCursor.operation
  window := max (limit * legs.length + legs.length) 64
  ops := []

/-- The legs past a position in a window, no newer than the newest ledger. -/
def readWindow (direction : Direction)
    (order : ReadOrder (keysetSqlDesc direction).2 PoolLegChRow.position)
    (table : List PoolLegChRow) (newest : Int64) (after : Option OperationPosition) (window : ℕ) :
    List PoolLegChRow :=
  (order.arrange (table.filter fun row => row.position.ls ≤ newest ∧
    after.all ((keysetSqlDesc direction).1.admits row.position))).take window

/-- Whether an operation is of the wanted kind. -/
def wanted (event : Option PoolEvent) (op : PairedOp) : Bool :=
  event.all fun want => op.event = some want

/-- One pass of the loop over what it read; the flag says that it was the last. -/
def Window.pass (limit : ℕ) (event : Option PoolEvent) (rows : List PoolLegChRow) (state : Window) :
    Window × Bool :=
  let exhausted := decide (rows.length < state.window)
  let batch := pairLegs legs rows (!exhausted)
  let ops := state.ops ++ batch.filter (wanted event)
  ({ after := (batch.getLast?.map PairedOp.position).or state.after
     window := if exhausted ∨ limit ≤ ops.length then state.window else state.window * 2
     ops },
    exhausted || decide (limit ≤ ops.length))

/-- The passes from one on; nothing if they are not over when the fuel is. -/
def passes (limit : ℕ) (event : Option PoolEvent)
    (read : ℕ → Option OperationPosition → ℕ → List PoolLegChRow) :
    (fuel round : ℕ) → Window → Option (List PairedOp)
  | 0, _, _ => none
  | fuel + 1, round, state =>
      let (next, last) := state.pass legs limit event (read round state.after state.window)
      if last then some (next.ops.take limit)
      else passes limit event read fuel (round + 1) next

def PairedOp.activity (op : PairedOp) : ActivityOp where
  position := op.position
  eventIndex := none
  event := op.event
  amounts := op.amounts.map fun amount =>
    (op.event.bind fun _ => amount).map fun value => toString value.toInt

/-- The operations of a page, before their transactions are joined on. -/
def fetchPoolActivity (direction : Direction)
    (orders : ℕ → ReadOrder (keysetSqlDesc direction).2 PoolLegChRow.position)
    (table : List PoolLegChRow) (newest : Int64) (limit : ℕ) (cursor : Option PoolActivityCursor)
    (event : Option PoolEvent) (fuel : ℕ) : Option (List ActivityOp) :=
  (passes legs limit event
    (fun round => readWindow direction (orders round) table newest) fuel 0
    (firstWindow legs limit cursor)).map (List.map PairedOp.activity)

end

end PoolActivity

end SorobanExplorer
