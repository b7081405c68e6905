import Mathlib.Data.Int.Order.Basic
import Mathlib.Data.Prod.Lex
import SorobanExplorer.Lib.Text
import SorobanExplorer.Parser.Json

/-!
# Cursors

A cursor names a row and the direction to walk from it.  On the wire it is the
base64 of a JSON envelope, which is read back strictly.  `keysetSql` turns the
presentation order and the direction into the comparison and the order of a
query.
-/

namespace SorobanExplorer

open Text

inductive CursorError
  | invalidBase64
  | invalidPayload
  deriving DecidableEq

/-- `next` follows the presentation order, `prev` goes against it. -/
inductive Direction
  | next
  | prev
  deriving DecidableEq

/-- The order a list is presented in. -/
inductive SortOrder
  | asc
  | desc
  deriving DecidableEq

/-! ## Keysets -/

/-- The comparison of a row's key with the cursor. -/
inductive KeysetOp
  | less
  | greater
  deriving DecidableEq

/-- The order of a query's rows. -/
inductive FetchOrder
  | asc
  | desc
  deriving DecidableEq

def keysetSql (sort : SortOrder) (direction : Direction) : KeysetOp × FetchOrder :=
  match sort, direction with
  | .desc, .next | .asc, .prev => (.less, .desc)
  | .desc, .prev | .asc, .next => (.greater, .asc)

/-- The keyset of a list that is only presented newest first. -/
def keysetSqlDesc (direction : Direction) : KeysetOp × FetchOrder :=
  keysetSql .desc direction

/-! ## Positions -/

/-- A transaction's position. -/
structure TxListCursor where
  ledgerSequence : Int64
  applicationOrder : Int16
  deriving DecidableEq

namespace TxListCursor

/-- The position as a tuple, compared ledger first. -/
def tuple (position : TxListCursor) : ℤ ×ₗ ℤ :=
  toLex (position.ledgerSequence.toInt, position.applicationOrder.toInt)

theorem tuple_injective : Function.Injective tuple := by
  intro a b h
  obtain ⟨hledger, horder⟩ := Prod.mk.inj (toLex.injective h)
  cases a
  cases b
  simp only at hledger horder
  rw [Int64.toInt_inj] at hledger
  rw [Int16.toInt_inj] at horder
  rw [hledger, horder]

instance : LinearOrder TxListCursor :=
  LinearOrder.lift' tuple tuple_injective

end TxListCursor

/-! ## The wire format -/

/-- What the cursor takes from its crates: JSON text and base64 in the URL-safe
alphabet, unpadded. -/
structure CursorCodec where
  /-- `serde_json::to_vec`. -/
  toVec : Json → Bytes
  /-- `serde_json::from_slice`. -/
  fromSlice : Bytes → Option Json
  base64Encode : Bytes → String
  base64Decode : String → Option Bytes

def Direction.toJson : Direction → Json
  | .next => .str "next"
  | .prev => .str "prev"

/-- A direction by its name; a map from the name to null will do. -/
def Direction.fromJson : Json → Option Direction
  | .str name | .obj [(name, .null)] =>
      if name = "next" then some .next else if name = "prev" then some .prev else none
  | _ => none

def TxListCursor.toJson (position : TxListCursor) : Json :=
  .obj [("src", .str "ch_position"), ("ledger_sequence", .num position.ledgerSequence.toInt),
    ("application_order", .num position.applicationOrder.toInt)]

/-- A field that an object names once. -/
def fieldOnce (fields : List (String × Json)) (name : String) : Option Json :=
  match fields.filter (·.1 = name) with
  | [field] => some field.2
  | _ => none

/-- A 64-bit integer; nothing out of range. -/
def jsonI64 : Json → Option Int64
  | .num n => if -2 ^ 63 ≤ n ∧ n < 2 ^ 63 then some (.ofInt n) else none
  | _ => none

/-- A 16-bit integer; nothing out of range. -/
def jsonI16 : Json → Option Int16
  | .num n => if -2 ^ 15 ≤ n ∧ n < 2 ^ 15 then some (.ofInt n) else none
  | _ => none

/-- A position, tagged by its source. -/
def TxListCursor.fromJson (value : Json) : Option TxListCursor :=
  match value with
  | .obj fields => do
      if (← fieldOnce fields "src").asStr ≠ some "ch_position" then none
      else
        let ledgerSequence ← jsonI64 (← fieldOnce fields "ledger_sequence")
        let applicationOrder ← jsonI16 (← fieldOnce fields "application_order")
        some ⟨ledgerSequence, applicationOrder⟩
  | .arr [.str "ch_position", ledgerSequence, applicationOrder] => do
      some ⟨← jsonI64 ledgerSequence, ← jsonI16 applicationOrder⟩
  | _ => none

/-- The envelope of a cursor. -/
def cursorEnvelope (payload : TxListCursor) (direction : Direction) : Json :=
  .obj [("dir", direction.toJson), ("p", payload.toJson)]

/-- An envelope with its two fields and no other. -/
def cursorEnvelopeFromJson (value : Json) : Option (Direction × TxListCursor) :=
  match value with
  | .obj fields =>
      if fields.all fun field => field.1 = "dir" ∨ field.1 = "p" then do
        let direction ← Direction.fromJson (← fieldOnce fields "dir")
        let payload ← TxListCursor.fromJson (← fieldOnce fields "p")
        some (direction, payload)
      else none
  | .arr [direction, payload] => do
      some (← Direction.fromJson direction, ← TxListCursor.fromJson payload)
  | _ => none

section

variable (codec : CursorCodec)

def CursorCodec.encode (payload : TxListCursor) (direction : Direction) : String :=
  codec.base64Encode (codec.toVec (cursorEnvelope payload direction))

def CursorCodec.decode (text : String) : Except CursorError (Direction × TxListCursor) :=
  match codec.base64Decode text with
  | none => .error .invalidBase64
  | some bytes =>
      match (codec.fromSlice bytes).bind cursorEnvelopeFromJson with
      | none => .error .invalidPayload
      | some envelope => .ok envelope

/-- The direction and the cursor of a request; without a cursor it is the first page. -/
def decodeCursor (raw : Option String) : Except CursorError (Direction × Option TxListCursor) :=
  match raw with
  | none => .ok (.next, none)
  | some text => (codec.decode text).map fun (direction, payload) => (direction, some payload)

/-- The crates read back what they wrote of the cursors at a position. -/
def CursorCodec.ReadsBack (position : TxListCursor) : Prop :=
  ∀ direction,
    codec.fromSlice (codec.toVec (cursorEnvelope position direction)) =
      some (cursorEnvelope position direction) ∧
    codec.base64Decode (codec.base64Encode (codec.toVec (cursorEnvelope position direction))) =
      some (codec.toVec (cursorEnvelope position direction))

end

/-! ## Round trip -/

theorem Direction.fromJson_toJson (direction : Direction) :
    Direction.fromJson direction.toJson = some direction := by
  cases direction <;> rfl

theorem jsonI64_toInt (n : Int64) : jsonI64 (.num n.toInt) = some n := by
  have hrange : -2 ^ 63 ≤ n.toInt ∧ n.toInt < 2 ^ 63 := ⟨n.le_toInt, n.toInt_lt⟩
  rw [jsonI64, if_pos hrange, Int64.ofInt_toInt]

theorem jsonI16_toInt (n : Int16) : jsonI16 (.num n.toInt) = some n := by
  have hrange : -2 ^ 15 ≤ n.toInt ∧ n.toInt < 2 ^ 15 := ⟨n.le_toInt, n.toInt_lt⟩
  rw [jsonI16, if_pos hrange, Int16.ofInt_toInt]

theorem TxListCursor.fromJson_toJson (position : TxListCursor) :
    TxListCursor.fromJson position.toJson = some position := by
  simp [TxListCursor.fromJson, TxListCursor.toJson, fieldOnce, Json.asStr, jsonI64_toInt,
    jsonI16_toInt]

theorem cursorEnvelopeFromJson_cursorEnvelope (position : TxListCursor) (direction : Direction) :
    cursorEnvelopeFromJson (cursorEnvelope position direction) = some (direction, position) := by
  simp [cursorEnvelopeFromJson, cursorEnvelope, fieldOnce, Direction.fromJson_toJson,
    TxListCursor.fromJson_toJson]

theorem CursorCodec.decode_encode {codec : CursorCodec} {position : TxListCursor}
    (h : codec.ReadsBack position) (direction : Direction) :
    codec.decode (codec.encode position direction) = .ok (direction, position) := by
  obtain ⟨hjson, hbase64⟩ := h direction
  simp only [CursorCodec.decode, CursorCodec.encode, hbase64, hjson, Option.bind_some,
    cursorEnvelopeFromJson_cursorEnvelope]

end SorobanExplorer
