import SorobanExplorer.Parser.EventFilters
import SorobanExplorer.Persist.Contracts
import SorobanExplorer.Persist.PoolFills

/-!
# Operation rows

One walk over the operations of a ledger fills three tables: the operations, those of one
transaction that look alike folded into one row, the assets each transaction touched, and
the pool fills.
-/

namespace SorobanExplorer

open KeyedFold Persist Text

/-- The code an operation type is stored with. -/
def OperationType.toI16 (opType : OperationType) : Int16 :=
  .ofNat (OperationType.VARIANTS.idxOf opType)

/-- An asset an operation touches. -/
inductive AssetRef
  | native
  | credit (code issuer : String)

/-- An extracted operation with the assets it touches. -/
structure StagedOperation extends ExtractedOperation where
  assetAppearances : List AssetRef

/-! ## The identity of an operation -/

/-- A text field that is not empty. -/
def strField (obj : Json) (field : String) : Option String :=
  ((obj.get? field).bind Json.asStr).filter (· ≠ "")

/-- The code and the issuer of an asset; neither for the native one. -/
def splitAssetRef (asset : Json) : Option String × Option String :=
  match asset.asStr with
  | none => (none, none)
  | some text =>
      if text = "native" then (none, none)
      else match splitOnceColon text with
        | some (code, issuer) =>
            if code ≠ "" ∧ issuer ≠ "" then (some code, some issuer) else (none, none)
        | none => (none, none)

structure OpTyped where
  destination : Option String
  contractId : Option String
  assetCode : Option String
  assetIssuer : Option String
  /-- The pools the operation touches. -/
  poolIdsHex : List String

namespace OpTyped

def empty : OpTyped := ⟨none, none, none, none, []⟩

/-- With the asset of a field, if the field is there. -/
def withAsset (typed : OpTyped) (asset : Option Json) : OpTyped :=
  match asset with
  | none => typed
  | some asset =>
      { typed with assetCode := (splitAssetRef asset).1, assetIssuer := (splitAssetRef asset).2 }

/-- What the operation's own fields say. -/
def ofBody (opType : OperationType) (details : Json) : OpTyped :=
  match opType with
  | .createAccount | .accountMerge => { empty with destination := strField details "destination" }
  | .payment =>
      { empty with destination := strField details "destination" }.withAsset (details.get? "asset")
  | .pathPaymentStrictReceive | .pathPaymentStrictSend =>
      { empty with destination := strField details "destination" }.withAsset
        (details.get? "destAsset")
  | .clawback =>
      { empty with destination := strField details "from" }.withAsset (details.get? "asset")
  | .liquidityPoolDeposit | .liquidityPoolWithdraw =>
      { empty with poolIdsHex := (strField details "liquidityPoolId").toList }
  | .invokeHostFunction => { empty with contractId := strField details "contractId" }
  | .changeTrust => empty.withAsset (details.get? "asset")
  | .setTrustLineFlags =>
      { empty with destination := strField details "trustor" }.withAsset (details.get? "asset")
  | .allowTrust =>
      { empty with
        destination := strField details "trustor"
        assetCode := (details.get? "asset").bind Json.asStr }
  | .beginSponsoringFutureReserves =>
      { empty with destination := strField details "sponsoredId" }
  -- Nothing beyond the source; the assets and participants have tables of their own.
  | .manageSellOffer | .createPassiveSellOffer | .setOptions | .inflation | .manageData
  | .bumpSequence | .manageBuyOffer | .createClaimableBalance | .claimClaimableBalance
  | .endSponsoringFutureReserves | .revokeSponsorship | .clawbackClaimableBalance
  | .extendFootprintTtl | .restoreFootprint => empty

def fromDetails (opType : OperationType) (details : Json) : OpTyped :=
  let out := ofBody opType details
  match out.poolIdsHex, (details.get? "poolIds").bind Json.asArray with
  | [], some ids => { out with poolIdsHex := (ids.filterMap Json.asStr).filter (· ≠ "") }
  | _, _ => out

end OpTyped

/-- What operations of a ledger are told apart by. -/
structure OpKey where
  txHashHex : String
  opType : Int16
  sourceAccount : Option String
  destinationAccount : Option String
  contractStrkey : Option String
  assetCode : String
  assetIssuerAccount : Option String
  /-- Sorted, each once. -/
  poolIds : List Bytes
  deriving DecidableEq

/-- Sorted, each once. -/
def canonicalPoolIds (poolIds : List Bytes) : List Bytes :=
  (poolIds.mergeSort fun a b => a ≤ b).eraseReps

def OpKey.of (txHash : String) (op : StagedOperation) (poolIds : List Bytes) : OpKey :=
  let typed := OpTyped.fromDetails op.opType op.details
  { txHashHex := txHash
    opType := op.opType.toI16
    sourceAccount := op.sourceAccount
    destinationAccount := typed.destination
    contractStrkey := typed.contractId
    assetCode := typed.assetCode.getD ""
    assetIssuerAccount := typed.assetIssuer
    poolIds }

/-! ## Rows -/

namespace Operations

structure TransactionOperationRow where
  ledgerSequence : ℤ
  applicationOrder : Int16
  operationIndex : Int16
  opType : Int16
  sourceId : Option Int64
  destinationId : Option Int64
  contractId : Option Int64
  assetCode : String
  assetIssuerId : Option Int64
  poolIds : List Bytes

structure OperationAssetAppearanceRow where
  assetId : Int64
  ledgerSequence : ℤ
  applicationOrder : Int16

structure PoolOperationAmountRow where
  poolId : Bytes
  ledgerSequence : ℤ
  applicationOrder : Int16
  operationIndex : Int16
  assetId : Int64
  amount : ℤ

structure OperationRows where
  opAssetRows : List OperationAssetAppearanceRow
  poolAmountRows : List PoolOperationAmountRow
  txOperationRows : List TransactionOperationRow

/-- `i16::try_from`. -/
def i16TryFrom (n : ℕ) (message : String) : Except SchemaError Int16 :=
  if n < 2 ^ 15 then .ok (.ofNat n) else .error (.staging message)

/-- The position of each transaction, from 1. -/
def appOrderByHash (hashes : List String) : Except SchemaError (Table String Int16) := do
  let positions ← hashes.zipIdx.mapM fun (hash, idx) => do
    let order ← i16TryFrom (idx + 1) "application_order overflow (>i16)"
    return (hash, order)
  return collect positions

variable [Crates]

def assetId : AssetRef → Int64
  | .native => Ids.nativeAssetId
  | .credit code issuer => Ids.creditAssetId code issuer

/-! ## The walk -/

/-- What the walk has gathered, and the assets seen in the transaction at hand. -/
structure Walk where
  opAssetRows : List OperationAssetAppearanceRow
  poolAmountRows : List PoolOperationAmountRow
  /-- The smallest index of each identity. -/
  opAgg : Table OpKey UInt32
  seenTxAssetIds : List Int64

/-- An asset, if the transaction has not touched it before. -/
def Walk.touch (ledgerSequence : ℤ) (applicationOrder : Int16) (walk : Walk)
    (asset : AssetRef) : Walk :=
  if assetId asset ∈ walk.seenTxAssetIds then walk
  else { walk with
    opAssetRows := walk.opAssetRows ++ [⟨assetId asset, ledgerSequence, applicationOrder⟩]
    seenTxAssetIds := assetId asset :: walk.seenTxAssetIds }

def minIndex (key : OpKey) (index : UInt32) : Update OpKey UInt32 :=
  ⟨key, fun least => least.elim index fun least => min least index⟩

def walkOperation (ledgerSequence : ℤ) (txHash : String) (applicationOrder : Int16)
    (walk : Walk) (op : StagedOperation) : Except SchemaError Walk := do
  let walk := op.assetAppearances.foldl (Walk.touch ledgerSequence applicationOrder) walk
  let typed := OpTyped.fromDetails op.opType op.details
  let poolIds ← typed.poolIdsHex.mapM (decodeHash · "op.pool_ids")
  let operationIndex ← i16TryFrom op.operationIndex.toNat "operation position (>i16)"
  return { walk with
    poolAmountRows := walk.poolAmountRows ++ (poolFillAmounts op.details).map fun fill =>
      ⟨fill.1.1, ledgerSequence, applicationOrder, operationIndex, fill.1.2, fill.2⟩
    opAgg := (minIndex (.of txHash op (canonicalPoolIds poolIds)) op.operationIndex).run walk.opAgg }

/-- The operations of one transaction, if the ledger has it. -/
def walkTransaction (ledgerSequence : ℤ) (orders : Table String Int16) (walk : Walk)
    (tx : String × List StagedOperation) : Except SchemaError Walk :=
  match orders.lookup tx.1 with
  | none => .ok walk
  | some applicationOrder =>
      tx.2.foldlM (walkOperation ledgerSequence tx.1 applicationOrder)
        { walk with seenTxAssetIds := [] }

/-- The row of an identity. -/
def identityRow (ledgerSequence : ℤ) (applicationOrder operationIndex : Int16) (key : OpKey) :
    TransactionOperationRow where
  ledgerSequence
  applicationOrder
  operationIndex
  opType := key.opType
  sourceId := key.sourceAccount.map Ids.accountId
  destinationId := key.destinationAccount.map Ids.accountId
  contractId := key.contractStrkey.map Ids.contractId
  assetCode := key.assetCode
  assetIssuerId := key.assetIssuerAccount.map Ids.accountId
  poolIds := key.poolIds

/-- The row of an identity at its smallest index. -/
def groupRow (ledgerSequence : ℤ) (orders : Table String Int16) (group : OpKey × UInt32) :
    Except SchemaError (Option TransactionOperationRow) :=
  match orders.lookup group.1.txHashHex with
  | none => .ok none
  | some applicationOrder => do
      let operationIndex ← i16TryFrom group.2.toNat "operation_index >i16 — protocol violation"
      return some (identityRow ledgerSequence applicationOrder operationIndex group.1)

def operationRows (operations : List (String × List StagedOperation))
    (orders : Table String Int16) (drain : DrainOrder (OpKey × UInt32)) (ledgerSequence : ℤ) :
    Except SchemaError OperationRows := do
  let walk ← operations.foldlM (walkTransaction ledgerSequence orders) ⟨[], [], ∅, []⟩
  let rows ← (drain.drain (pairs walk.opAgg)).mapM (groupRow ledgerSequence orders)
  return ⟨walk.opAssetRows, walk.poolAmountRows, rows.reduceOption⟩

end Operations

end SorobanExplorer
