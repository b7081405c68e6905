import SorobanExplorer.Lib.Ranked
import SorobanExplorer.Parser.ExecutableRef
import SorobanExplorer.Persist.Contracts

/-!
# Rows of the owners' tags

`contract_executable_refs` keeps the hash of every tag of every owner by ledger, and a
read takes the newest.  A contract that borrows its code stores the owner and the
tag; which code it runs is looked up when it is read.
-/

namespace SorobanExplorer

open KeepLast Text Ranked

structure ContractExecutableRefRow where
  ownerId : Int64
  tag : String
  wasmHash : Bytes
  ledger : ℤ
  deriving DecidableEq

section

variable [Crates]

def executableRefRow (target : ExtractedExecutableRefTarget) : Option ContractExecutableRefRow := do
  let hash ← hexDecode target.wasmHash
  if hash.length = 32 then
    some ⟨Ids.contractId target.owner, target.tag, hash, target.ledgerSequence.toNat⟩
  else none

/-- The rows of a ledger's targets, one for each tag of an owner. -/
def buildExecutableRefRows (targets : List ExtractedExecutableRefTarget) :
    List ContractExecutableRefRow :=
  keepLastByKey (fun row => (row.ownerId, row.tag, row.ledger)) (targets.filterMap executableRefRow)

end

/-! ## Reading -/

/-- `argMax(wasm_hash, ledger)` over the rows of an owner's tag. -/
def referencedWasmHash (refs : List ContractExecutableRefRow) (ownerId : Int64) (tag : String) :
    Option Bytes :=
  (argmaxInt (·.ledger) (refs.filter fun row => row.ownerId = ownerId ∧ row.tag = tag)).map
    (·.wasmHash)

/-- The code a contract runs: its own, or what its reference points at. -/
def runsWasmHash (refs : List ContractExecutableRefRow) (row : SorobanContractRow) : Option Bytes :=
  row.wasmHash.or do
    let ownerId ← row.executableOwnerId
    let tag ← row.executableTag
    referencedWasmHash refs ownerId tag

end SorobanExplorer
