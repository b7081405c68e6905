import SorobanExplorer.Lib.KeepLast
import SorobanExplorer.Lib.KeyedFold
import SorobanExplorer.Parser.AccountStates

/-!
# Liquidity pools of the protocol

A pool row and a snapshot of its reserves for every change that leaves a pool
with a value.  A removal leaves zero reserves and carries no parameters, so its
pool row takes those of the image before it.
-/

namespace SorobanExplorer

open KeepLast KeyedFold

structure ExtractedLiquidityPool where
  poolId : String
  assetA : Json
  assetB : Json
  feeBps : Int32
  reserves : Json
  totalShares : String
  createdAtLedger : Option UInt32
  lastUpdatedLedger : UInt32
  createdAt : ℤ
  deriving DecidableEq

structure ExtractedLiquidityPoolSnapshot where
  poolId : String
  ledgerSequence : UInt32
  createdAt : ℤ
  reserves : Json
  totalShares : String
  deriving DecidableEq

def reservesJson (reserveA reserveB : ℤ) : Json :=
  .obj [("a", .num reserveA), ("b", .num reserveB)]

/-- The pool row of one change: parameters from `data`, reserves from it unless
the pool was removed. -/
def poolRow (poolId : String) (data : Json) (change : ExtractedLedgerEntryChange)
    (isCreation : Bool) : ExtractedLiquidityPool :=
  let removed := change.changeType = "removed"
  let params := (data.get? "params").getD (.obj [])
  let amount (field : String) : ℤ := if removed then 0 else data.i64Field field
  { poolId
    assetA := (params.get? "asset_a").getD .null
    assetB := (params.get? "asset_b").getD .null
    feeBps := Int32.ofInt (params.i64Field "fee")
    reserves := reservesJson (amount "reserve_a") (amount "reserve_b")
    totalShares := toString (amount "total_pool_shares")
    createdAtLedger := if isCreation then some change.ledgerSequence else none
    lastUpdatedLedger := change.ledgerSequence
    createdAt := change.createdAt }

/-- The snapshot a pool row shows. -/
def ExtractedLiquidityPool.snapshot (pool : ExtractedLiquidityPool) :
    ExtractedLiquidityPoolSnapshot where
  poolId := pool.poolId
  ledgerSequence := pool.lastUpdatedLedger
  createdAt := pool.createdAt
  reserves := pool.reserves
  totalShares := pool.totalShares

/-- The snapshot of a removed pool. -/
def zeroSnapshot (poolId : String) (change : ExtractedLedgerEntryChange) :
    ExtractedLiquidityPoolSnapshot where
  poolId
  ledgerSequence := change.ledgerSequence
  createdAt := change.createdAt
  reserves := reservesJson 0 0
  totalShares := "0"

/-- What is read so far: the `state` images still without their change, the rows
and the snapshots. -/
structure PoolExtraction where
  before : Table String Json
  pools : List ExtractedLiquidityPool
  snapshots : List ExtractedLiquidityPoolSnapshot

/-- The pool id a `state` image or a written entry carries. -/
def poolIdOfData (change : ExtractedLedgerEntryChange) : Option (String × Json) := do
  let data ← change.data
  let poolId ← (data.get? "pool_id").bind Json.asStr
  some (poolId, data)

def extractPoolChange (read : PoolExtraction) (change : ExtractedLedgerEntryChange) :
    PoolExtraction :=
  if change.entryType ≠ "liquidity_pool" then read
  else if change.changeType = "state" then
    match poolIdOfData change with
    | none => read
    | some (poolId, data) => { read with before := read.before.insert poolId data }
  else if change.changeType = "removed" then
    match (change.key.get? "pool_id").bind Json.asStr with
    | none => read
    | some poolId =>
        { before := read.before.erase poolId
          pools := read.pools ++ ((read.before.lookup poolId).map fun data =>
            poolRow poolId data change false).toList
          snapshots := read.snapshots ++ [zeroSnapshot poolId change] }
  else if change.changeType ∈ ["created", "updated", "restored"] then
    match poolIdOfData change with
    | none => read
    | some (poolId, data) =>
        let pool := poolRow poolId data change (change.changeType ≠ "updated")
        { before := read.before.erase poolId
          pools := read.pools ++ [pool]
          snapshots := read.snapshots ++ [pool.snapshot] }
  else read

/-- The pool rows and snapshots of a transaction's changes, in their order. -/
def extractLiquidityPools (changes : List ExtractedLedgerEntryChange) :
    List ExtractedLiquidityPool × List ExtractedLiquidityPoolSnapshot :=
  let read := changes.foldl extractPoolChange ⟨∅, [], []⟩
  (read.pools, read.snapshots)

/-- One snapshot per pool and ledger: the last one. -/
def dedupFinalPoolSnapshots (snapshots : List ExtractedLiquidityPoolSnapshot) :
    List ExtractedLiquidityPoolSnapshot :=
  keepLastByKey (fun snapshot => (snapshot.poolId, snapshot.ledgerSequence)) snapshots

/-- The pool rows and the collapsed snapshots of a ledger's transactions. -/
def ledgerLiquidityPools (changes : List (List ExtractedLedgerEntryChange)) :
    List ExtractedLiquidityPool × List ExtractedLiquidityPoolSnapshot :=
  (changes.flatMap fun changes => (extractLiquidityPools changes).1,
    dedupFinalPoolSnapshots (changes.flatMap fun changes => (extractLiquidityPools changes).2))

/-! ## Snapshots change by change -/

/-- The snapshot of one change; it does not depend on the images before it. -/
def poolSnapshot (change : ExtractedLedgerEntryChange) : Option ExtractedLiquidityPoolSnapshot :=
  if change.entryType ≠ "liquidity_pool" then none
  else if change.changeType = "removed" then
    ((change.key.get? "pool_id").bind Json.asStr).map (zeroSnapshot · change)
  else if change.changeType ∈ ["created", "updated", "restored"] then
    (poolIdOfData change).map fun (poolId, data) =>
      (poolRow poolId data change (change.changeType ≠ "updated")).snapshot
  else none

theorem snapshots_extractPoolChange (read : PoolExtraction)
    (change : ExtractedLedgerEntryChange) :
    (extractPoolChange read change).snapshots = read.snapshots ++ (poolSnapshot change).toList := by
  unfold extractPoolChange poolSnapshot
  by_cases htype : change.entryType = "liquidity_pool"
  · by_cases hstate : change.changeType = "state"
    · cases poolIdOfData change <;> simp [htype, hstate]
    · by_cases hremoved : change.changeType = "removed"
      · cases (change.key.get? "pool_id").bind Json.asStr <;> simp [htype, hremoved]
      · by_cases hwritten : change.changeType ∈ ["created", "updated", "restored"]
        · cases poolIdOfData change <;> simp [htype, hstate, hremoved, hwritten]
        · simp [htype, hstate, hremoved, hwritten]
  · simp [htype]

/-- A transaction's snapshots are those of its changes, in order. -/
theorem snapshots_extractLiquidityPools (changes : List ExtractedLedgerEntryChange) :
    (extractLiquidityPools changes).2 = changes.filterMap poolSnapshot := by
  have hrun : ∀ (changes : List ExtractedLedgerEntryChange) (read : PoolExtraction),
      (changes.foldl extractPoolChange read).snapshots =
        read.snapshots ++ changes.filterMap poolSnapshot := by
    intro changes
    induction changes with
    | nil => simp
    | cons change changes ih =>
        intro read
        rw [List.foldl_cons, ih, snapshots_extractPoolChange]
        cases hread : poolSnapshot change <;> simp [hread]
  exact hrun changes ⟨∅, [], []⟩

end SorobanExplorer
