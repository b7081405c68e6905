import SorobanExplorer.Lib.Traverse
import SorobanExplorer.Persist.ClassicPools
import SorobanExplorer.Persist.ContractsSpec

/-!
# One snapshot per touched pool

The snapshot rows of a ledger against the last change of each pool.  A written
entry leaves its amounts, a removal leaves zeros, and the image before a change
leaves nothing, so no row comes of it.
-/

namespace SorobanExplorer

open KeepLast KeyedFold Persist Text

/-- What a pool holds. -/
structure PoolAmounts where
  reserveA : Int64
  reserveB : Int64
  totalShares : Int64
  deriving DecidableEq

/-- The pool a change is about and what it leaves of it. -/
def LedgerEntryChange.poolLeft : LedgerEntryChange → Option (Hash × PoolAmounts)
  | .created ⟨_, .liquidityPool entry⟩ | .updated ⟨_, .liquidityPool entry⟩
  | .restored ⟨_, .liquidityPool entry⟩ =>
      some (entry.liquidityPoolId, ⟨entry.reserveA, entry.reserveB, entry.totalPoolShares⟩)
  | .removed (.liquidityPool pool) => some (pool, ⟨0, 0, 0⟩)
  | _ => none

/-- What the changes leave of a pool; nothing if none is about it. -/
def lastPoolAmounts (pool : Hash) (changes : List LedgerEntryChange) : Option PoolAmounts :=
  lastOf pool (changes.filterMap LedgerEntryChange.poolLeft)

/-- The snapshot of amounts. -/
def PoolAmounts.snapshot (ledgerSequence : UInt32) (createdAt : ℤ) (left : Hash × PoolAmounts) :
    ExtractedLiquidityPoolSnapshot where
  poolId := hexEncode left.1.bytes
  ledgerSequence
  createdAt
  reserves := reservesJson left.2.reserveA.toInt left.2.reserveB.toInt
  totalShares := toString left.2.totalShares.toInt

/-- The row a pool should have once the ledger left it so. -/
def PoolAmounts.row (ledgerSequence : UInt32) (grossVolumeByPool : Table Bytes ℤ)
    (left : Hash × PoolAmounts) : LiquidityPoolSnapshotRow where
  poolId := left.1.bytes
  ledgerSequence := ledgerSequence.toNat
  reserveA := left.2.reserveA.toInt
  reserveB := left.2.reserveB.toInt
  totalShares := left.2.totalShares.toInt
  grossVolumeA := grossVolumeByPool.lookup left.1.bytes

variable [Crates]

/-- The snapshots of a ledger, from its transactions' hashes and metas. -/
def poolSnapshotsOf (ledgerSequence : UInt32) (createdAt : ℤ)
    (txs : List (String × TransactionMeta)) : List ExtractedLiquidityPoolSnapshot :=
  (ledgerLiquidityPools (txs.map fun tx =>
    extractLedgerEntryChanges tx.2 tx.1 ledgerSequence createdAt)).2

omit [Crates] in
theorem asI64_toInt (amount : Int64) : (Json.num amount.toInt).asI64 = some amount.toInt :=
  Json.asI64_num amount.le_toInt amount.toInt_lt

theorem snapshot_poolRow (entry : LiquidityPoolEntry) {change : ExtractedLedgerEntryChange}
    (hkept : change.changeType ≠ "removed") (isCreation : Bool) :
    (poolRow (hexEncode entry.liquidityPoolId.bytes) (liquidityPoolData entry) change
      isCreation).snapshot = PoolAmounts.snapshot change.ledgerSequence change.createdAt
        (entry.liquidityPoolId, ⟨entry.reserveA, entry.reserveB, entry.totalPoolShares⟩) := by
  simp [poolRow, ExtractedLiquidityPool.snapshot, PoolAmounts.snapshot, hkept, Json.i64Field,
    liquidityPoolData, asI64_toInt]

/-- The snapshot of an extracted change is that of what the change leaves. -/
theorem poolSnapshot_extractSingleChange (change : LedgerEntryChange)
    (operationIndex : Option ℕ) (transactionHash : String) (ledgerSequence : UInt32)
    (createdAt : ℤ) (changeIndex : ℕ) :
    poolSnapshot (extractSingleChange change operationIndex transactionHash ledgerSequence
      createdAt changeIndex) =
      change.poolLeft.map (PoolAmounts.snapshot ledgerSequence createdAt) := by
  -- an image that a write leaves is read alike, however it was written
  have hwritten : ∀ {changeType : String} (entry : LedgerEntry),
      changeType ∈ ["created", "updated", "restored"] →
      changeInfo change = changeInfo.imageInfo changeType entry →
      poolSnapshot (extractSingleChange change operationIndex transactionHash ledgerSequence
        createdAt changeIndex) =
        (LedgerEntryChange.created entry).poolLeft.map
          (PoolAmounts.snapshot ledgerSequence createdAt) := by
    intro changeType entry hmem hinfo
    have hkept : changeType ≠ "removed" := by
      rintro rfl
      revert hmem
      decide
    obtain ⟨_, data⟩ := entry
    cases data with
    | liquidityPool pool =>
        have hid : poolIdOfData (extractSingleChange change operationIndex transactionHash
            ledgerSequence createdAt changeIndex) =
            some (hexEncode pool.liquidityPoolId.bytes, liquidityPoolData pool) := by
          simp [poolIdOfData, extractSingleChange, hinfo, changeInfo.imageInfo, extractEntryInfo,
            liquidityPoolData]
        simp only [poolSnapshot, hid]
        simp only [extractSingleChange, hinfo, changeInfo.imageInfo, extractEntryInfo, hkept, hmem]
        simp only [ne_eq, not_true_eq_false, if_false, if_true, Option.map_some]
        exact congrArg some (snapshot_poolRow pool hkept _)
    | _ =>
        simp [poolSnapshot, extractSingleChange, hinfo, changeInfo.imageInfo, extractEntryInfo,
          LedgerEntryChange.poolLeft]
  cases change with
  | created entry => exact hwritten entry (by decide) rfl
  | updated entry =>
      rw [hwritten entry (by decide) rfl]
      obtain ⟨_, data⟩ := entry
      cases data <;> rfl
  | restored entry =>
      rw [hwritten entry (by decide) rfl]
      obtain ⟨_, data⟩ := entry
      cases data <;> rfl
  | state entry =>
      obtain ⟨_, data⟩ := entry
      cases data <;> simp [poolSnapshot, extractSingleChange, changeInfo, changeInfo.imageInfo,
        LedgerEntryChange.poolLeft]
  | removed key =>
      cases key <;> simp [poolSnapshot, extractSingleChange, changeInfo, extractKeyInfo,
        LedgerEntryChange.poolLeft, liquidityPoolKey, zeroSnapshot, PoolAmounts.snapshot]
      rfl

/-- The snapshots of a transaction are those of its changes. -/
theorem snapshots_extractLedgerEntryChanges (txMeta : TransactionMeta) (transactionHash : String)
    (ledgerSequence : UInt32) (createdAt : ℤ) :
    (extractLiquidityPools
      (extractLedgerEntryChanges txMeta transactionHash ledgerSequence createdAt)).2 =
      ((ledgerChanges txMeta).filterMap LedgerEntryChange.poolLeft).map
        (PoolAmounts.snapshot ledgerSequence createdAt) := by
  rw [snapshots_extractLiquidityPools, extractLedgerEntryChanges, List.filterMap_map,
    ← indexedChanges_change, List.filterMap_map, List.map_filterMap]
  apply List.filterMap_congr
  intro indexed _
  exact poolSnapshot_extractSingleChange indexed.1.2 indexed.1.1 transactionHash ledgerSequence
    createdAt indexed.2

theorem snapshotRow_snapshot (ledgerSequence : UInt32) (createdAt : ℤ)
    (grossVolumeByPool : Table Bytes ℤ) (left : Hash × PoolAmounts) :
    snapshotRow grossVolumeByPool (PoolAmounts.snapshot ledgerSequence createdAt left) =
      .ok (PoolAmounts.row ledgerSequence grossVolumeByPool left) := by
  have hshares : decimal7StringToI128 (toString left.2.totalShares.toInt) =
      .ok left.2.totalShares.toInt :=
    decimal7StringToI128_toString left.2.totalShares.le_toInt left.2.totalShares.toInt_lt
  unfold snapshotRow PoolAmounts.snapshot
  rw [decodeHash_hexEncode, hshares]
  simp [PoolAmounts.row, Json.i64Field, reservesJson, asI64_toInt, bind, Except.bind]

/-- Every pool the read changes are about has exactly one snapshot row, of the
amounts its last change left, and there is no other row. -/
theorem snapshotRows_of_lastChange (ledgerSequence : UInt32) (createdAt : ℤ)
    (txs : List (String × TransactionMeta)) (grossVolumeByPool : Table Bytes ℤ) :
    ∃ rows, buildSnapshotRows (poolSnapshotsOf ledgerSequence createdAt txs) grossVolumeByPool =
        .ok rows ∧
      (∀ pool : Hash, rows.filter (·.poolId = pool.bytes) =
        ((lastPoolAmounts pool (txs.flatMap fun tx => ledgerChanges tx.2)).map fun amounts =>
          PoolAmounts.row ledgerSequence grossVolumeByPool (pool, amounts)).toList) ∧
      ∀ row ∈ rows, ∃ pool : Hash, row.poolId = pool.bytes := by
  let left := (txs.flatMap fun tx => ledgerChanges tx.2).filterMap LedgerEntryChange.poolLeft
  let key := fun snapshot : ExtractedLiquidityPoolSnapshot =>
    (snapshot.poolId, snapshot.ledgerSequence)
  let kept := keepLastByKey (key ∘ PoolAmounts.snapshot ledgerSequence createdAt) left
  have hsnapshots : poolSnapshotsOf ledgerSequence createdAt txs =
      kept.map (PoolAmounts.snapshot ledgerSequence createdAt) := by
    -- the reader sees the changes that leave amounts, in their order
    have hall : (txs.flatMap fun tx => (extractLiquidityPools
        (extractLedgerEntryChanges tx.2 tx.1 ledgerSequence createdAt)).2) =
        left.map (PoolAmounts.snapshot ledgerSequence createdAt) := by
      simp only [snapshots_extractLedgerEntryChanges, left, List.filterMap_flatMap,
        List.map_flatMap]
    show keepLastByKey key (List.flatMap _ (txs.map _)) = _
    rw [List.flatMap_map, hall, keepLastByKey_map]
  refine ⟨kept.map (PoolAmounts.row ledgerSequence grossVolumeByPool), ?_, ?_, ?_⟩
  · rw [hsnapshots]
    exact Traverse.mapM_map_eq_pure fun left _ =>
      snapshotRow_snapshot ledgerSequence createdAt grossVolumeByPool left
  · intro pool
    -- in one ledger a pool's id is the whole key
    have hkey : ∀ x ∈ left, decide (x.1 = pool) = true ↔
        (key ∘ PoolAmounts.snapshot ledgerSequence createdAt) x =
          (hexEncode pool.bytes, ledgerSequence) := by
      intro x _
      simp [key, PoolAmounts.snapshot, Hash.hexEncode_inj]
    have hfilter : (kept.map (PoolAmounts.row ledgerSequence grossVolumeByPool)).filter
        (·.poolId = pool.bytes) =
        (kept.filter (·.1 = pool)).map (PoolAmounts.row ledgerSequence grossVolumeByPool) := by
      rw [List.filter_map]
      congr 1
      apply List.filter_congr
      intro x _
      simp [PoolAmounts.row, Hash.bytes_injective.eq_iff]
    calc (kept.map (PoolAmounts.row ledgerSequence grossVolumeByPool)).filter
          (·.poolId = pool.bytes)
        = (kept.filter (·.1 = pool)).map (PoolAmounts.row ledgerSequence grossVolumeByPool) :=
          hfilter
      _ = ((left.filter (·.1 = pool)).getLast?.toList).map
            (PoolAmounts.row ledgerSequence grossVolumeByPool) := by
          rw [filter_keepLastByKey_of_iff hkey]
      _ = ((lastOf pool left).map fun amounts =>
            PoolAmounts.row ledgerSequence grossVolumeByPool (pool, amounts)).toList := by
          rw [getLast?_filter_fst]
          cases lastOf pool left <;> rfl
  · intro row hrow
    obtain ⟨x, -, rfl⟩ := List.mem_map.mp hrow
    exact ⟨x.1, rfl⟩

end SorobanExplorer
