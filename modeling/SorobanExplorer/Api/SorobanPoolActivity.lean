import SorobanExplorer.Api.PoolActivity
import SorobanExplorer.Lib.Decimal

/-!
# The activity of a contract pool

One row for each event the pool emitted.  The rows are read a ledger span at a time, each span
twice as wide as the one before, and inside a span through a row cap that may cut the last
event off.
-/

namespace SorobanExplorer

open CutGroups PoolActivity Slots

namespace SorobanPoolActivity

/-- The place of an event. -/
structure EventPosition where
  ls : Int64
  ao : Int16
  oi : UInt16
  ei : UInt32

namespace EventPosition

/-- The place as a tuple, compared ledger first. -/
def tuple (position : EventPosition) : ℤ ×ₗ ℤ ×ₗ ℕ ×ₗ ℕ :=
  toLex (position.ls.toInt,
    toLex (position.ao.toInt, toLex (position.oi.toNat, position.ei.toNat)))

theorem tuple_injective : Function.Injective tuple := by
  intro a b h
  obtain ⟨hledger, h⟩ := Prod.mk.inj (toLex.injective h)
  obtain ⟨horder, h⟩ := Prod.mk.inj (toLex.injective h)
  obtain ⟨hoperation, hevent⟩ := Prod.mk.inj (toLex.injective h)
  cases a
  cases b
  rw [Int64.toInt_inj] at hledger
  rw [Int16.toInt_inj] at horder
  rw [UInt16.toNat_inj] at hoperation
  rw [UInt32.toNat_inj] at hevent
  simp_all

instance : LinearOrder EventPosition :=
  LinearOrder.lift' tuple tuple_injective

theorem ls_le {a b : EventPosition} (h : a ≤ b) : a.ls.toInt ≤ b.ls.toInt := by
  rcases Prod.Lex.le_iff.mp (show a.tuple ≤ b.tuple from h) with hlt | ⟨heq, _⟩
  · exact le_of_lt hlt
  · exact le_of_eq heq

end EventPosition

/-- A row of `pool_movements`, of one pool: one leg of one event. -/
structure MovementChRow where
  position : EventPosition
  kind : UInt8
  assetId : Int64
  amount : String
  deriving DecidableEq

/-- The key of the table. -/
def MovementChRow.sortKey (row : MovementChRow) : EventPosition ×ₗ ℤ :=
  toLex (row.position, row.assetId.toInt)

/-- An event with one amount a leg of the pool. -/
structure PoolMovement where
  position : EventPosition
  kind : UInt8
  amounts : List (Option ℤ)
  deriving DecidableEq

/-- The stored kinds. -/
def kindCode : PoolEvent → UInt8
  | .trade => 0
  | .deposit => 1
  | .withdrawal => 2

def PoolMovement.event (movement : PoolMovement) : Option PoolEvent :=
  match movement.kind with
  | 0 => some .trade
  | 1 => some .deposit
  | 2 => some .withdrawal
  | _ => none

/-- The place of an event in a cursor. -/
def eventOfCursor (cursor : PoolActivityCursor) : EventPosition :=
  ⟨cursor.ledgerSequence, cursor.applicationOrder, cursor.operationIndex.toUInt16,
    cursor.eventIndex⟩

/-! ## Grouping -/

section

variable (legs : List Int64)

def startMovement (row : MovementChRow) : PoolMovement :=
  ⟨row.position, row.kind, List.replicate legs.length none⟩

/-- The slot of a row and its amount; an amount that does not parse has none, and neither has
an asset that is no leg. -/
def legSlot (row : MovementChRow) : Option (ℕ × ℤ) :=
  match Text.parseI128 row.amount.toList with
  | .ok amount => if row.assetId ∈ legs then some (legs.idxOf row.assetId, amount) else none
  | .error _ => none

def PoolMovement.land (movement : PoolMovement) (row : MovementChRow) : PoolMovement :=
  { movement with amounts := fill (legSlot legs) movement.amounts row }

def PoolMovement.sameEvent (movement : PoolMovement) (row : MovementChRow) : Bool :=
  movement.position = row.position

/-- The events of rows in key order, duplicates skipped; a truncated read loses the last. -/
def groupMovements (rows : List MovementChRow) (truncated : Bool) : List PoolMovement :=
  wholeGroups truncated
    (rows.foldl (skipRepeat MovementChRow.sortKey
      (joinLast PoolMovement.sameEvent (startMovement legs) (PoolMovement.land legs)))
      (none, [])).2

/-! ## Spans -/

/-- The ledgers of the first round. -/
def firstSpan : ℤ := 500000

/-- Where the walk is: the last whole event, the span `(lo, hi]` of the round, the width of the
span, the row cap, what it has found. -/
structure Walk where
  after : Option EventPosition
  span : ℤ
  lo : ℤ
  hi : ℤ
  rowCap : ℕ
  movements : List PoolMovement

def firstWalk (direction : Direction) (tip : Int64) (limit : ℕ)
    (cursor : Option PoolActivityCursor) : Walk :=
  let after := cursor.map eventOfCursor
  let span := firstSpan
  let (lo, hi) : ℤ × ℤ :=
    match (keysetSqlDesc direction).2, after with
    | .desc, some position => (position.ls.toInt - span, min position.ls.toInt tip.toInt)
    | .desc, none => (tip.toInt - span, tip.toInt)
    | .asc, some position =>
        (position.ls.toInt - 1, min (position.ls.toInt - 1 + span) tip.toInt)
    | .asc, none => (-1, min span tip.toInt)
  { after, span, lo, hi, rowCap := max (limit * max legs.length 1 * 2) 256, movements := [] }

/-- The rows of a span past a position, under a row cap. -/
def readSpan (direction : Direction)
    (order : ReadOrder (keysetSqlDesc direction).2 MovementChRow.sortKey)
    (table : List MovementChRow) (event : Option PoolEvent) (state : Walk) : List MovementChRow :=
  (order.arrange (table.filter fun row =>
    (state.lo < row.position.ls.toInt ∧ row.position.ls.toInt ≤ state.hi) ∧
      event.all (fun want => row.kind = kindCode want) ∧
      state.after.all ((keysetSqlDesc direction).1.admits row.position))).take state.rowCap

/-- The next span, twice as wide; none past ledger 0 or the tip. -/
def Walk.slide (direction : Direction) (tip : Int64) (state : Walk) : Option Walk :=
  match (keysetSqlDesc direction).2 with
  | .desc =>
      if state.lo < 0 then none
      else some { state with
        span := state.span * 2
        hi := state.lo
        lo := state.lo - state.span * 2 }
  | .asc =>
      if tip.toInt ≤ state.hi then none
      else some { state with
        span := state.span * 2
        lo := state.hi
        hi := min (state.hi + state.span * 2) tip.toInt }

/-- What a round found, added. -/
def Walk.found (state : Walk) (batch : List PoolMovement) : Walk :=
  { state with
    after := (batch.getLast?.map PoolMovement.position).or state.after
    movements := state.movements ++ batch }

/-- One round over what it read; none after the last. -/
def Walk.next (direction : Direction) (tip : Int64) (limit : ℕ) (truncated : Bool)
    (state : Walk) : Option Walk :=
  if limit ≤ state.movements.length then none
  else if truncated then some { state with rowCap := state.rowCap * 2 }
  else state.slide direction tip

/-- The rounds from one on; nothing if they are not over when the fuel is. -/
def rounds (direction : Direction) (tip : Int64) (limit : ℕ)
    (read : ℕ → Walk → List MovementChRow) :
    (fuel round : ℕ) → Walk → Option (List PoolMovement)
  | 0, _, _ => none
  | fuel + 1, round, state =>
      let rows := read round state
      let truncated := decide (state.rowCap ≤ rows.length)
      let state := state.found (groupMovements legs rows truncated)
      match state.next direction tip limit truncated with
      | some next => rounds direction tip limit read fuel (round + 1) next
      | none => some (state.movements.take limit)

def PoolMovement.activity (movement : PoolMovement) : ActivityOp where
  position := ⟨movement.position.ls, movement.position.ao, movement.position.oi.toInt16⟩
  eventIndex := some movement.position.ei
  event := movement.event
  amounts := movement.amounts.map fun amount => amount.map toString

/-- The events of a page, before their transactions are joined on. -/
def fetchSorobanPoolActivity (direction : Direction)
    (orders : ℕ → ReadOrder (keysetSqlDesc direction).2 MovementChRow.sortKey)
    (table : List MovementChRow) (tip : Int64) (limit : ℕ) (cursor : Option PoolActivityCursor)
    (event : Option PoolEvent) (fuel : ℕ) : Option (List ActivityOp) :=
  (rounds legs direction tip limit
    (fun round => readSpan direction (orders round) table event) fuel 0
    (firstWalk legs direction tip limit cursor)).map (List.map PoolMovement.activity)

end

end SorobanPoolActivity

end SorobanExplorer
