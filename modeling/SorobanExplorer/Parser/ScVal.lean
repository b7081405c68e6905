import SorobanExplorer.Crates
import SorobanExplorer.Parser.Json

/-!
# Contract values as typed JSON

`scvalToTypedJson` tags every value with its type, so that two kinds of value
never share a rendering; the readers beside it take the tagged form apart again.
-/

namespace SorobanExplorer

open Text

/-- The XDR name of an error's kind. -/
def ScErrorKind.name : ScErrorKind → String
  | .contract => "Contract"
  | .wasmVm => "WasmVm"
  | .context => "Context"
  | .storage => "Storage"
  | .object => "Object"
  | .crypto => "Crypto"
  | .events => "Events"
  | .budget => "Budget"
  | .value => "Value"
  | .auth => "Auth"

/-- The value of a two-limb signed integer. -/
def i128OfParts (hi : Int64) (lo : UInt64) : ℤ :=
  hi.toInt * 2 ^ 64 + lo.toNat

/-- The value of a two-limb unsigned integer. -/
def u128OfParts (hi lo : UInt64) : ℕ :=
  hi.toNat * 2 ^ 64 + lo.toNat

/-- `{:016x}` of one limb. -/
def hex16 (limb : UInt64) : String :=
  hexEncode ((List.range 8).map fun i => UInt8.ofNat (limb.toNat >>> (8 * (7 - i))))

/-- Text of a byte string, or a fixed marker if it is not UTF-8. -/
def utf8OrInvalid (bytes : Bytes) : String :=
  (fromUtf8 bytes).getD "<invalid-utf8>"

/-- The tagged form: a type name and a value. -/
def typedJson (typeName : String) (value : Json) : Json :=
  .obj [("type", .str typeName), ("value", value)]

variable [Crates]

def contractExecutableJson : ContractExecutable → Json
  | .wasm hash => .obj [("type", .str "wasm"), ("hash", .str (hexEncode hash.bytes))]
  | .stellarAsset => .obj [("type", .str "stellar_asset")]
  | .externalRef owner tag => .obj [("type", .str "external_ref"),
      ("owner", .str (Crates.scAddressStrkey owner)), ("tag", .str (utf8OrInvalid tag))]

mutual

/-- A contract value as tagged JSON. -/
def scvalToTypedJson : ScVal → Json
  | .bool value => typedJson "bool" (.bool value)
  | .void => typedJson "void" .null
  | .error kind _ => typedJson "error" (.str kind.name)
  | .u32 value => typedJson "u32" (.num value.toNat)
  | .i32 value => typedJson "i32" (.num value.toInt)
  | .u64 value => typedJson "u64" (.num value.toNat)
  | .i64 value => typedJson "i64" (.num value.toInt)
  | .timepoint value => typedJson "timepoint" (.num value.toNat)
  | .duration value => typedJson "duration" (.num value.toNat)
  | .u128 hi lo => typedJson "u128" (.str (toString (u128OfParts hi lo)))
  | .i128 hi lo => typedJson "i128" (.str (toString (i128OfParts hi lo)))
  | .u256 hiHi hiLo loHi loLo =>
      typedJson "u256" (.str (hex16 hiHi ++ hex16 hiLo ++ hex16 loHi ++ hex16 loLo))
  | .i256 hiHi hiLo loHi loLo =>
      typedJson "i256" (.str (hex16 hiHi.toUInt64 ++ hex16 hiLo ++ hex16 loHi ++ hex16 loLo))
  | .bytes value => typedJson "bytes" (.str (Crates.base64Encode value))
  | .string value => typedJson "string" (.str (utf8OrInvalid value))
  | .symbol value => typedJson "sym" (.str (utf8OrInvalid value))
  | .vec (some elements) => typedJson "vec" (.arr (scvalsToTypedJson elements))
  | .vec none => typedJson "vec" .null
  | .map (some entries) => typedJson "map" (.arr (entriesToTypedJson entries))
  | .map none => typedJson "map" .null
  | .address value => typedJson "address" (.str (Crates.scAddressStrkey value))
  | .contractInstance executable (some storage) => typedJson "contract_instance"
      (.obj [("executable", contractExecutableJson executable),
        ("storage", .arr (entriesToTypedJson storage))])
  | .contractInstance executable none => typedJson "contract_instance"
      (.obj [("executable", contractExecutableJson executable), ("storage", .null)])
  | .ledgerKeyContractInstance => typedJson "ledger_key_contract_instance" .null
  | .ledgerKeyNonce nonce => typedJson "ledger_key_nonce" (.num nonce.toInt)
  | .executableTag value => typedJson "executable_tag" (.str (utf8OrInvalid value))

def scvalsToTypedJson : List ScVal → List Json
  | [] => []
  | value :: rest => scvalToTypedJson value :: scvalsToTypedJson rest

def entriesToTypedJson : List (ScVal × ScVal) → List Json
  | [] => []
  | (key, value) :: rest =>
      .obj [("key", scvalToTypedJson key), ("value", scvalToTypedJson value)] ::
        entriesToTypedJson rest

end

/-! ## Readers -/

/-- The value of a tagged node, if its tag matches. -/
def typed (node : Json) (tag : String) : Option Json := do
  let name ← (← node.get? "type").asStr
  if name == tag then node.get? "value" else none

/-- A scalar's value as text, if its tag matches. -/
def typedStr (node : Json) (tag : String) : Option String :=
  (typed node tag).bind Json.asStr

/-- The elements of a `vec`. -/
def vecElements (node : Json) : Option (List Json) :=
  (typed node "vec").bind Json.asArray

/-- A non-empty `address`. -/
def addressOf (node : Json) : Option String :=
  (typedStr node "address").filter (· ≠ "")

/-- A non-empty `sym`. -/
def symbolOf (node : Json) : Option String :=
  (typedStr node "sym").filter (· ≠ "")

/-- The value of a `map`'s entry whose key is the symbol `key`. -/
def mapGet (data : Json) (key : String) : Option Json := do
  if (data.get? "type").bind Json.asStr ≠ some "map" then none
  let entries ← (← data.get? "value").asArray
  entries.findSome? fun entry => do
    let k ← entry.get? "key"
    if (k.get? "type").bind Json.asStr = some "sym" ∧
        (k.get? "value").bind Json.asStr = some key then
      entry.get? "value"
    else none

end SorobanExplorer
