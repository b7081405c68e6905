import SorobanExplorer.Lib.KeyedFold
import SorobanExplorer.Parser.EventFilters
import SorobanExplorer.Parser.Operation
import SorobanExplorer.Persist.Ids

/-!
# Pool fills

What one operation moved through each pool, asset by asset and signed from the pool's side,
and what all operations of a ledger traded of each pool's first asset.
-/

namespace SorobanExplorer

open KeyedFold Text

/-- The raw id of the pool in an entry of the details. -/
def atomPoolId (entry : Json) : Option Bytes := do
  let hex ← (entry.get? "poolId").bind Json.asStr
  let bytes ← hexDecode hex
  if bytes.length = 32 then some bytes else none

/-! ## The volume of a ledger -/

/-- What one atom adds to the volume of its pool. -/
def grossUpdate (atom : Json) : Option (Update Bytes ℤ) := do
  let hex ← (atom.get? "poolId").bind Json.asStr
  let amountA ← (atom.get? "amountA").bind Json.asI64
  let poolId ← hexDecode hex
  if poolId.length = 32 then
    some ⟨poolId, fun gross => (gross.getD 0 + amountA).bmod (2 ^ 128)⟩
  else none

def claimedAtoms (details : Json) : List Json :=
  ((details.get? "claimedAtoms").bind Json.asArray).getD []

def grossVolumeAByPool (operations : List (String × List ExtractedOperation)) : Table Bytes ℤ :=
  runAll ((operations.flatMap fun (_, ops) =>
    ops.flatMap fun op => claimedAtoms op.details).filterMap grossUpdate) ∅

/-! ## The fills of an operation -/

/-- A 64-bit sum that stays at the bound it would pass. -/
def saturatingAdd (a b : ℤ) : ℤ := max (-2 ^ 63) (min (2 ^ 63 - 1) (a + b))

section

variable [Crates]

/-- The asset an entry names. -/
def claimAtomAssetId (asset : Json) : Option Int64 := do
  let text ← asset.asStr
  if text = "native" then some Ids.nativeAssetId
  else do
    let (code, issuer) ← splitOnceColon text
    if code ≠ "" ∧ issuer ≠ "" then some (Ids.creditAssetId code issuer) else none

/-- One leg of an entry, with a sign. -/
def entryLeg (entry : Json) (poolId : Bytes) (assetKey amountKey : String) (sign : ℤ) :
    Option ((Bytes × Int64) × ℤ) := do
  let assetId ← (entry.get? assetKey).bind claimAtomAssetId
  let amount ← (entry.get? amountKey).bind Json.asI64
  some ((poolId, assetId), (sign * amount).bmod (2 ^ 64))

/-- The legs of an atom: what was bought is sent to the pool, what was sold is taken from it. -/
def atomLegs (atom : Json) : List ((Bytes × Int64) × ℤ) :=
  match atomPoolId atom with
  | none => []
  | some poolId => (entryLeg atom poolId "assetBought" "amountBought" 1).toList ++
      (entryLeg atom poolId "assetSold" "amountSold" (-1)).toList

/-- The legs of a reserve difference, whose sign is the pool's already. -/
def deltaLegs (details : Json) : List ((Bytes × Int64) × ℤ) :=
  match details.get? "poolDelta" with
  | none => []
  | some delta =>
      match atomPoolId delta with
      | none => []
      | some poolId => (entryLeg delta poolId "assetA" "amountA" 1).toList ++
          (entryLeg delta poolId "assetB" "amountB" 1).toList

def fillLegs (details : Json) : List ((Bytes × Int64) × ℤ) :=
  (claimedAtoms details).flatMap atomLegs ++ deltaLegs details

def fillUpdate (leg : (Bytes × Int64) × ℤ) : Update (Bytes × Int64) ℤ :=
  ⟨leg.1, fun sum => saturatingAdd (sum.getD 0) leg.2⟩

def fillSums (legs : List ((Bytes × Int64) × ℤ)) : Table (Bytes × Int64) ℤ :=
  runAll (legs.map fillUpdate) ∅

/-- The order of the rows. -/
def fillLe (a b : (Bytes × Int64) × ℤ) : Bool :=
  a.1.1 < b.1.1 ∨ a.1.1 = b.1.1 ∧ (a.1.2 < b.1.2 ∨ a.1.2 = b.1.2 ∧ a.2 ≤ b.2)

/-- What the operation moved of each asset through each pool; nothing for a net of 0. -/
def poolFillAmounts (details : Json) : List ((Bytes × Int64) × ℤ) :=
  ((pairs (fillSums (fillLegs details))).filter (·.2 ≠ 0)).mergeSort fillLe

end

end SorobanExplorer
