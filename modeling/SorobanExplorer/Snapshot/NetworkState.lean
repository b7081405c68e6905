import SorobanExplorer.Lib.KeyedFold
import SorobanExplorer.Parser.Holdings
import SorobanExplorer.Persist.Ids

/-!
# The network's state

The records of a checkpoint's bucket list, folded into one state keyed the way our
tables key it.  The records come newest first, so the first one of a key counts and
any later one is history.
-/

namespace SorobanExplorer

open KeyedFold

def CHECKPOINT_FREQUENCY : UInt32 := 64

/-- The archive publishes a checkpoint every 64 ledgers; a manifest with any other
ledger is refused. -/
def isCheckpoint (ledger : UInt32) : Bool :=
  ledger % CHECKPOINT_FREQUENCY = CHECKPOINT_FREQUENCY - 1

/-- A record of a bucket; a dead one is a tombstone. -/
inductive SnapshotRecord
  | live (entry : LedgerEntry)
  | dead (key : LedgerKey)

structure HoldingKey where
  holderId : Int64
  assetId : Int64
  deriving DecidableEq

structure NetHolding where
  /-- False if the newest record of the key is a tombstone. -/
  live : Bool
  /-- The entry's own last-modified ledger. -/
  ledger : UInt32
  balance : Int64
  /-- Set once a row of ours has claimed the entry. -/
  matched : Bool
  deriving DecidableEq

def liveHolding (ledger : UInt32) (balance : Int64) : NetHolding :=
  ⟨true, ledger, balance, false⟩

def deadHolding : NetHolding :=
  ⟨false, 0, 0, false⟩

/-- A record in our key space. -/
inductive NetFact
  | account (holderId : Int64) (entry : NetHolding)
  | trustline (key : HoldingKey) (entry : NetHolding)
  | poolShare (holderId : Int64) (poolId : Hash) (entry : NetHolding)
  /-- A dead balance has no asset. -/
  | claimableBalance (holderId : Int64) (assetId : Option Int64) (entry : NetHolding)
  | pool (poolId : Hash) (entry : Option LedgerEntry)

structure NetworkState where
  accounts : Table Int64 NetHolding
  trustlines : Table HoldingKey NetHolding
  poolShares : Table (Int64 × Hash) NetHolding
  claimableBalances : Table Int64 (NetHolding × Option Int64)
  pools : Table Hash (Option LedgerEntry)
  unmodelled : ℕ
  nativeTrustlines : ℕ
  superseded : ℕ

def NetworkState.default : NetworkState :=
  ⟨∅, ∅, ∅, ∅, ∅, 0, 0, 0⟩

/-- Keeps the first value of a key and counts every later one. -/
def firstWins {κ α : Type} [DecidableEq κ] (table : Table κ α) (key : κ) (value : α)
    (superseded : ℕ) : Table κ α × ℕ :=
  match table.lookup key with
  | none => (table.insert key value, superseded)
  | some _ => (table, superseded + 1)

def NetworkState.absorb (state : NetworkState) : NetFact → NetworkState
  | .account holderId entry =>
      let (accounts, superseded) := firstWins state.accounts holderId entry state.superseded
      { state with accounts, superseded }
  | .trustline key entry =>
      let (trustlines, superseded) := firstWins state.trustlines key entry state.superseded
      { state with trustlines, superseded }
  | .poolShare holderId poolId entry =>
      let (poolShares, superseded) :=
        firstWins state.poolShares (holderId, poolId) entry state.superseded
      { state with poolShares, superseded }
  | .claimableBalance holderId assetId entry =>
      let (claimableBalances, superseded) :=
        firstWins state.claimableBalances holderId (entry, assetId) state.superseded
      { state with claimableBalances, superseded }
  | .pool poolId entry =>
      let (pools, superseded) := firstWins state.pools poolId entry state.superseded
      { state with pools, superseded }

def isNativeTrustline : SnapshotRecord → Bool
  | .live ⟨_, .trustline entry⟩ => entry.asset = .native
  | .dead (.trustline _ asset) => asset = .native
  | _ => false

section

variable [Crates]

def NetworkState.classicAsset : Asset → Int64
  | .native => Ids.nativeAssetId
  | .creditAlphanum4 code issuer =>
      Ids.creditAssetId (assetCodeStr code.bytes) (Crates.accountStrkey issuer)
  | .creditAlphanum12 code issuer =>
      Ids.creditAssetId (assetCodeStr code.bytes) (Crates.accountStrkey issuer)

/-- Native has no trustline, and a pool share is no asset. -/
def trustlineAssetId : TrustLineAsset → Option Int64
  | .native | .poolShare _ => none
  | .creditAlphanum4 code issuer =>
      some (Ids.creditAssetId (assetCodeStr code.bytes) (Crates.accountStrkey issuer))
  | .creditAlphanum12 code issuer =>
      some (Ids.creditAssetId (assetCodeStr code.bytes) (Crates.accountStrkey issuer))

/-- The fact of a trustline, live or dead. -/
def trustlineFact (accountId : AccountId) (asset : TrustLineAsset) (entry : NetHolding) :
    Option NetFact :=
  let holderId := Ids.addressId (Crates.accountStrkey accountId)
  match asset, trustlineAssetId asset with
  | .poolShare pool, _ => some (.poolShare holderId pool entry)
  | _, some assetId => some (.trustline ⟨holderId, assetId⟩ entry)
  | _, none => none

/-- Nothing for an entry type that is not compared. -/
def classify : SnapshotRecord → Option NetFact
  | .live entry =>
      match entry.data with
      | .account account => some (.account (Ids.addressId (Crates.accountStrkey account.accountId))
          (liveHolding entry.lastModifiedLedgerSeq account.balance))
      | .trustline trustline => trustlineFact trustline.accountId trustline.asset
          (liveHolding entry.lastModifiedLedgerSeq trustline.balance)
      | .claimableBalance balance => some (.claimableBalance
          (Ids.addressId (Crates.scAddressStrkey (.claimableBalance balance.balanceId)))
          (some (NetworkState.classicAsset balance.asset))
          (liveHolding entry.lastModifiedLedgerSeq balance.amount))
      | .liquidityPool pool => some (.pool pool.liquidityPoolId (some entry))
      | _ => none
  | .dead key =>
      match key with
      | .account accountId =>
          some (.account (Ids.addressId (Crates.accountStrkey accountId)) deadHolding)
      | .trustline accountId asset => trustlineFact accountId asset deadHolding
      | .claimableBalance balanceId => some (.claimableBalance
          (Ids.addressId (Crates.scAddressStrkey (.claimableBalance balanceId))) none deadHolding)
      | .liquidityPool poolId => some (.pool poolId none)
      | _ => none

def NetworkState.absorbRecord (state : NetworkState) (record : SnapshotRecord) : NetworkState :=
  match classify record with
  | some fact => state.absorb fact
  | none =>
      if isNativeTrustline record then
        { state with nativeTrustlines := state.nativeTrustlines + 1 }
      else { state with unmodelled := state.unmodelled + 1 }

/-- The state of a snapshot, its records newest first. -/
def loadNetworkState (records : List SnapshotRecord) : NetworkState :=
  records.foldl NetworkState.absorbRecord .default

end

end SorobanExplorer
