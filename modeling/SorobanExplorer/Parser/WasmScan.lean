import SorobanExplorer.Lib.Scan
import SorobanExplorer.Lib.WasmFormat

/-!
# Scanning the code of a contract

Two scans of the bytes of a WASM module: for the content of a custom section, and for the host
function by which a contract replaces its own code.  Both walk the sections by index arithmetic;
what the source indexes without a check faults here when it is outside, and so does what it adds
without one when it overflows.
-/

namespace SorobanExplorer

namespace WasmScan

open Scan

abbrev Bytes := List UInt8

def magic : Bytes := [0x00, 0x61, 0x73, 0x6D]

/-! ## Numbers and names -/

/-- The number so far, the shift of the next byte and its index. -/
def readLeb128From (result : UInt32) (shift i : ℕ) : Bytes → Option (UInt32 × ℕ)
  | [] => none
  | byte :: rest =>
      if 35 ≤ shift then none
      else
        let result := result ||| ((byte &&& 0x7F).toUInt32 <<< UInt32.ofNat shift)
        if byte &&& 0x80 = 0 then some (result, i + 1)
        else readLeb128From result (shift + 7) (i + 1) rest

/-- A number and how many bytes it takes. -/
def readLeb128 (bytes : Bytes) : Option (UInt32 × ℕ) :=
  readLeb128From 0 0 0 bytes

/-- A number at a position and the position after it, every step checked. -/
def numberAt (bytes : Bytes) (pos : ℕ) : Scan (ℕ × ℕ) := do
  let rest ← ofOption (getFrom bytes pos)
  let (value, bytesRead) ← ofOption (readLeb128 rest)
  let pos ← ofOption (checkedAdd pos bytesRead)
  pure (value.toNat, pos)

/-- The same, the position added to without a check. -/
def numberOrGiveUp (body : Bytes) (pos : ℕ) : Scan (ℕ × ℕ) := do
  let (value, bytesRead) ← ofOption (readLeb128 ((getFrom body pos).getD []))
  let pos ← plus pos bytesRead
  pure (value.toNat, pos)

/-- So many bytes at a position, and the position after them. -/
def bytesAt (body : Bytes) (pos len : ℕ) : Scan (Bytes × ℕ) := do
  let stop ← ofOption (checkedAdd pos len)
  let bytes ← ofOption (getRange body pos stop)
  let pos ← plus pos len
  pure (bytes, pos)

/-! ## Custom sections -/

/-- The name at the beginning of a custom section, and the position after it. -/
def sectionName (wasm : Bytes) (pos : ℕ) : Scan (String × ℕ) := do
  let (nameLen, pos) ← numberAt wasm pos
  let nameEnd ← ofOption (checkedAdd pos nameLen)
  if wasm.length < nameEnd then gaveUp
  else do
    let name ← range wasm pos nameEnd
    let name ← ofOption (String.fromUTF8? ⟨name.toArray⟩)
    pure (name, nameEnd)

/-- The content of a section that ends the search. -/
def sectionContent (wasm : Bytes) (pos contentLen : ℕ) : Scan Bytes := do
  let stop ← ofOption (checkedAdd pos contentLen)
  if wasm.length < stop then gaveUp else range wasm pos stop

/-- The sections from a position on; each round takes one. -/
def customFrom (wasm : Bytes) (wanted : String) : (rounds pos : ℕ) → Scan Bytes
  | 0, pos => if pos < wasm.length then fault .endless else gaveUp
  | rounds + 1, pos =>
      if pos < wasm.length then do
        let sectionId ← index wasm pos
        let pos ← ofOption (checkedAdd pos 1)
        let (sectionSize, pos) ← numberAt wasm pos
        if sectionId = 0 then do
          let sectionStart := pos
          let (name, pos) ← sectionName wasm pos
          let headerBytes ← ofOption (checkedSub pos sectionStart)
          let contentLen ← ofOption (checkedSub sectionSize headerBytes)
          if name = wanted then sectionContent wasm pos contentLen
          else do
            let pos ← ofOption (checkedAdd pos contentLen)
            customFrom wasm wanted rounds pos
        else do
          let pos ← ofOption (checkedAdd pos sectionSize)
          customFrom wasm wanted rounds pos
      else gaveUp

/-- The content of the first custom section of a name. -/
def extractCustomSection (wasm : Bytes) (wanted : String) : Scan Bytes :=
  if wasm.length < 8 then gaveUp
  else do
    let start ← range wasm 0 4
    if start = magic then customFrom wasm wanted wasm.length 8 else gaveUp

/-! ## Imports -/

/-- Past the limits of a table or a memory. -/
def skipLimits (body : Bytes) (pos : ℕ) : Scan ℕ := do
  let flag ← ofOption body[pos]?
  let pos ← plus pos 1
  let rest ← ofOption (getFrom body pos)
  let (_, bytesRead) ← ofOption (readLeb128 rest)
  let pos ← plus pos bytesRead
  if flag = 0x01 then do
    let rest ← ofOption (getFrom body pos)
    let (_, bytesRead) ← ofOption (readLeb128 rest)
    plus pos bytesRead
  else pure pos

/-- Past what is imported; nothing more is read at a function of the names searched for. -/
def skipDesc (body : Bytes) (named : Bool) (pos : ℕ) : Scan (Option ℕ) :=
  match body[pos]? with
  | some 0x00 =>
      if named then done none
      else do
        let pos ← plus pos 1
        let (_, pos) ← numberOrGiveUp body pos
        pure (some pos)
  | some 0x01 => do
      let pos ← plus pos 2
      let pos ← skipLimits body pos
      pure (some pos)
  | some 0x02 => do
      let pos ← plus pos 1
      let pos ← skipLimits body pos
      pure (some pos)
  | some 0x03 => do
      let pos ← plus pos 3
      pure (some pos)
  | _ => gaveUp

/-- So many imports from a position on. -/
def walkImports (body : Bytes) : (count pos : ℕ) → Scan Bool
  | 0, _ => done false
  | count + 1, pos => do
      let (mlen, pos) ← numberOrGiveUp body pos
      let (source, pos) ← bytesAt body pos mlen
      let (flen, pos) ← numberOrGiveUp body pos
      let (field, pos) ← bytesAt body pos flen
      let next ← skipDesc body (source = [0x6C] ∧ field = [0x36]) pos
      match next with
      | none => done true
      | some pos => walkImports body count pos

def importSectionHasUpgrade (body : Bytes) : Scan Bool :=
  orFalse do
    let (count, pos) ← ofOption (readLeb128 body)
    walkImports body count.toNat pos

/-- The sections from a position on; each round takes one. -/
def importsFrom (wasm : Bytes) : (rounds pos : ℕ) → Scan Bool
  | 0, pos => if pos < wasm.length then fault .endless else done false
  | rounds + 1, pos =>
      if pos < wasm.length then do
        let sectionId ← ofOption wasm[pos]?
        let pos ← ofOption (checkedAdd pos 1)
        let (sectionSize, pos) ← numberAt wasm pos
        let sectionEnd ← ofOption (checkedAdd pos sectionSize)
        if sectionId = 2 then do
          let body ← ofOption (getRange wasm pos (min sectionEnd wasm.length))
          importSectionHasUpgrade body
        else importsFrom wasm rounds sectionEnd
      else done false

def importsUpgradeInner (wasm : Bytes) : Scan Bool :=
  if wasm.length < 8 then done false
  else do
    let start ← range wasm 0 4
    if start = magic then importsFrom wasm wasm.length 8 else done false

/-- Whether a contract imports the function that replaces its code. -/
def wasmImportsUpgradeFn (wasm : Bytes) : Scan Bool :=
  orFalse (importsUpgradeInner wasm)

end WasmScan

end SorobanExplorer
