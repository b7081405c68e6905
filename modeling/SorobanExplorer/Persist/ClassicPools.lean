import SorobanExplorer.Parser.LiquidityPools
import SorobanExplorer.Persist.Balances
import SorobanExplorer.Persist.Contracts

/-!
# Rows of the protocol's pools

One row a pool, carrying the newest ledger it was seen in, and one snapshot row
for every snapshot the parser hands over.
-/

namespace SorobanExplorer

open KeyedFold Persist Text

inductive PoolKind
  | classic
  | soroban
  deriving DecidableEq

structure LiquidityPoolRow where
  poolId : Bytes
  assetAType : Int16
  assetACode : String
  assetAIssuerId : Int64
  assetBType : Int16
  assetBCode : String
  assetBIssuerId : Int64
  feeBps : Int32
  lastUpdatedLedger : ℤ
  poolKind : PoolKind
  legs : List Int64
  /-- The contract that registered the pool; 0 for a classic one. -/
  deploymentId : Int64
  poolTypeRaw : String
  deriving DecidableEq

structure LiquidityPoolSnapshotRow where
  poolId : Bytes
  ledgerSequence : ℤ
  reserveA : ℤ
  reserveB : ℤ
  totalShares : ℤ
  grossVolumeA : Option ℤ
  deriving DecidableEq

/-- The type, code and issuer of a leg. -/
def splitPoolAsset (asset : Json) : Option (AssetType × Option String × Option String) :=
  if asset.asStr = some "native" then some (.native, none, none)
  else do
    let fields ← asset.asObject
    let assetType ← AssetType.fromStr (← ((Json.obj fields).get? "type").bind Json.asStr)
    let text (field : String) : Option String :=
      (((Json.obj fields).get? field).bind Json.asStr).filter (· ≠ "")
    some (assetType, text "code", text "issuer")

variable [Crates]

/-- The row of one pool; none if a leg is not readable. -/
def classicPoolRow (pool : ExtractedLiquidityPool) :
    Except SchemaError (Option LiquidityPoolRow) := do
  let poolId ← decodeHash pool.poolId "pool_id"
  match splitPoolAsset pool.assetA, splitPoolAsset pool.assetB with
  | some (aType, aCode, aIssuer), some (bType, bCode, bIssuer) =>
      let assetACode := aCode.getD ""
      let assetAIssuerId := (aIssuer.map Ids.accountId).getD 0
      let assetBCode := bCode.getD ""
      let assetBIssuerId := (bIssuer.map Ids.accountId).getD 0
      return some
        { poolId
          legs := [Ids.poolLegAssetId aType.toI16 assetACode assetAIssuerId,
            Ids.poolLegAssetId bType.toI16 assetBCode assetBIssuerId]
          assetAType := aType.toI16
          assetACode
          assetAIssuerId
          assetBType := bType.toI16
          assetBCode
          assetBIssuerId
          feeBps := pool.feeBps
          lastUpdatedLedger := pool.lastUpdatedLedger.toNat
          poolKind := .classic
          deploymentId := 0
          poolTypeRaw := "" }
  | _, _ => return none

/-- Add a row, or move the ledger of the row its pool has. -/
def addPoolRow (rows : List LiquidityPoolRow) (row : LiquidityPoolRow) : List LiquidityPoolRow :=
  if rows.any (·.poolId = row.poolId) then
    rows.map fun held =>
      if held.poolId = row.poolId ∧ held.lastUpdatedLedger ≤ row.lastUpdatedLedger then
        { held with lastUpdatedLedger := row.lastUpdatedLedger }
      else held
  else rows ++ [row]

def buildPoolRows (pools : List ExtractedLiquidityPool) :
    Except SchemaError (List LiquidityPoolRow) := do
  let rows ← pools.mapM classicPoolRow
  return rows.reduceOption.foldl addPoolRow []

def snapshotRow (grossVolumeByPool : Table Bytes ℤ) (snapshot : ExtractedLiquidityPoolSnapshot) :
    Except SchemaError LiquidityPoolSnapshotRow := do
  let poolId ← decodeHash snapshot.poolId "snapshot.pool_id"
  let totalShares ← decimal7StringToI128 snapshot.totalShares
  .ok
    { poolId
      ledgerSequence := snapshot.ledgerSequence.toNat
      reserveA := snapshot.reserves.i64Field "a"
      reserveB := snapshot.reserves.i64Field "b"
      totalShares
      grossVolumeA := grossVolumeByPool.lookup poolId }

/-- One row per snapshot. -/
def buildSnapshotRows (snapshots : List ExtractedLiquidityPoolSnapshot)
    (grossVolumeByPool : Table Bytes ℤ) : Except SchemaError (List LiquidityPoolSnapshotRow) :=
  snapshots.mapM (snapshotRow grossVolumeByPool)

end SorobanExplorer
