import SorobanExplorer.Lib.KeepLast
import SorobanExplorer.Persist.SorobanPools

/-!
# Rows of pool state

What a pool holds at the close of a ledger, and what it says of itself.  A router's pool
has both in its instance, a pair too, and a configured pool in entries of its own; the rows
of a ledger are collapsed to the last of each key.
-/

namespace SorobanExplorer

open KeepLast Text

structure PoolStateChangeRow where
  poolId : Hash
  ledgerSequence : ℤ
  reserves : List ℤ
  /-- The plane the pool declares; a pool of another family stands here itself. -/
  planeId : Int64
  deriving DecidableEq

structure PoolInstanceStateRow where
  poolId : Hash
  planeId : Int64
  /-- 0 for a pool without a share token. -/
  shareTokenId : Int64
  /-- 0 without the key. -/
  totalShares : ℤ
  derivedAtLedger : ℤ
  deriving DecidableEq

/-- `parse::<i128>().ok()`. -/
def parseAmount (raw : String) : Option ℤ :=
  (parseI128 raw.toList).toOption

/-- All of the reserves, or none. -/
def parseReserves (raw : List String) : Option (List ℤ) :=
  raw.mapM parseAmount

def parseReservePair (a b : String) : Option (List ℤ) := do
  return [← parseAmount a, ← parseAmount b]

/-- 0 for a key that was not written; none for a value that is not a number. -/
def parseSupply (raw : Option String) : Option ℤ :=
  match raw with
  | none => some 0
  | some raw => parseAmount raw

variable [Crates]

/-! ## Routers -/

/-- A row for a write that moved the reserves, with a plane. -/
def routerStateRow (inst : ExtractedPoolInstance) : Option PoolStateChangeRow := do
  guard (inst.state.reserves ≠ [] ∧ inst.reservesChanged)
  let poolId ← Ids.contractPayload inst.state.pool
  let reserves ← parseReserves inst.state.reserves
  let plane ← inst.state.plane
  return ⟨poolId, inst.ledgerSequence.toNat, reserves, Ids.contractId plane⟩

def routerInstanceRow (inst : ExtractedPoolInstance) : Option PoolInstanceStateRow := do
  let poolId ← Ids.contractPayload inst.state.pool
  let plane ← inst.state.plane
  let totalShares ← parseSupply inst.state.totalShares
  return ⟨poolId, Ids.contractId plane, (inst.state.tokenShare.map Ids.contractId).getD 0,
    totalShares, inst.ledgerSequence.toNat⟩

/-! ## Pairs -/

def pairStateRow (write : ExtractedFactoryPair) : Option PoolStateChangeRow := do
  let poolId ← Ids.contractPayload write.state.pair
  let (reserve0, reserve1) ← write.state.reserves
  let reserves ← parseReservePair reserve0 reserve1
  return ⟨poolId, write.ledgerSequence.toNat, reserves, Ids.contractId write.state.pair⟩

def pairInstanceRow (write : ExtractedFactoryPair) : Option PoolInstanceStateRow := do
  let poolId ← Ids.contractPayload write.state.pair
  let totalShares ← parseSupply write.state.totalSupply
  return ⟨poolId, Ids.contractId write.state.pair, Ids.contractId write.state.pair, totalShares,
    write.ledgerSequence.toNat⟩

/-! ## Configured pools -/

def configStateRow (write : ExtractedConfigPool) : Option PoolStateChangeRow := do
  let poolId ← Ids.contractPayload write.state.pool
  let (reserveA, reserveB) ← write.state.reserves
  let reserves ← parseReservePair reserveA reserveB
  return ⟨poolId, write.ledgerSequence.toNat, reserves, Ids.contractId write.state.pool⟩

/-- Only where the configuration was written. -/
def configInstanceRow (write : ExtractedConfigPool) : Option PoolInstanceStateRow := do
  let poolId ← Ids.contractPayload write.state.pool
  let config ← write.state.config
  let totalShares ← parseSupply write.state.totalShares
  return ⟨poolId, Ids.contractId write.state.pool, Ids.contractId config.shareToken, totalShares,
    write.ledgerSequence.toNat⟩

/-! ## One row a key -/

def foldPoolStateChanges (rows : List PoolStateChangeRow) : List PoolStateChangeRow :=
  keepLastByKey (fun row => (row.poolId, row.planeId, row.ledgerSequence)) rows

def foldPoolInstanceState (rows : List PoolInstanceStateRow) : List PoolInstanceStateRow :=
  keepLastByKey (fun row => (row.poolId, row.derivedAtLedger)) rows

def PoolLedger.poolStateChangeRows (ledger : PoolLedger) : List PoolStateChangeRow :=
  foldPoolStateChanges (ledger.poolInstances.filterMap routerStateRow ++
    ledger.factoryPairs.filterMap pairStateRow ++ ledger.configPools.filterMap configStateRow)

def PoolLedger.poolInstanceStateRows (ledger : PoolLedger) : List PoolInstanceStateRow :=
  foldPoolInstanceState (ledger.poolInstances.filterMap routerInstanceRow ++
    ledger.factoryPairs.filterMap pairInstanceRow ++ ledger.configPools.filterMap configInstanceRow)

end SorobanExplorer
