import Mathlib.Data.Option.Basic
import SorobanExplorer.Parser.ScVal

/-!
# Executable updates

The `executable_update` system event: what a contract's code became.
-/

namespace SorobanExplorer

open Text

inductive ExecutableUpdate
  /-- The contract runs the code of this hash. -/
  | wasm (hash : Bytes)
  /-- The contract runs whatever the owner's tag points at. -/
  | externalRef (owner tag : String)
  deriving DecidableEq

/-- The text under `value`, if there is one. -/
def valueStr (node : Json) : Option String :=
  (node.get? "value").bind Json.asStr

/-- The elements under `value`, if there are any. -/
def valueArray (node : Json) : Option (List Json) :=
  (node.get? "value").bind Json.asArray

/-- A new executable with code of its own. -/
def wasmUpdate [Crates] (payload : Json) : Option ExecutableUpdate := do
  let bytes ← Crates.base64Decode (← valueStr payload)
  guard (bytes.length = 32)
  some (.wasm bytes)

/-- The text of a map's entry under a symbol. -/
def mapText (fields : List Json) (name : String) : Option String :=
  fields.findSome? fun entry => do
    guard ((← valueStr (← entry.get? "key")) = name)
    valueStr (← entry.get? "value")

/-- A new executable that belongs to another contract. -/
def externalRefUpdate (payload : Json) : Option ExecutableUpdate := do
  let fields ← valueArray payload
  some (.externalRef (← mapText fields "owner") (← mapText fields "tag"))

variable [Crates]

/-- What the topics of an `executable_update` event say the code became; nothing
for any other topics. -/
def extractExecutableUpdate (topics : Json) : Option ExecutableUpdate := do
  let topics ← topics.asArray
  guard ((← valueStr (← topics.head?)) = "executable_update")
  let newExec ← valueArray (← topics[2]?)
  let kind ← valueStr (← newExec.head?)
  if kind = "Wasm" then newExec[1]?.bind wasmUpdate
  else if kind = "ExternalRef" then newExec[1]?.bind externalRefUpdate
  else none

end SorobanExplorer
