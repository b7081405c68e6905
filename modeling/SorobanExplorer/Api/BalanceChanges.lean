import SorobanExplorer.Api.AssetList
import SorobanExplorer.Api.NftTransfers
import SorobanExplorer.Lib.GroupBy
import SorobanExplorer.Persist.ValueFlow
import Mathlib.Data.String.Basic

/-!
# Balance changes of an account

What an account received and spent in each transaction of a page, asset by asset.  One
statement nets the account's movements and groups the non-fungible ones by the new owner
of the piece; a second one reads which pieces came to these owners.  The ids are shown
when there are as many of them as the account's movements.
-/

namespace SorobanExplorer

open Ranked KeyedFold GroupBy
open TransactionList (AccountsRow SorobanContractsRow nonEmpty)
open AssetList (AssetsRow)
open NftTransfers (NftOwnershipChangesRow)

namespace BalanceChanges

/-! ## Tables -/

/-- A transaction of the page, by its position. -/
structure TxKey where
  ledgerSequence : ℤ
  applicationOrder : Int16
  deriving DecidableEq

/-- The metadata of a contract, merged. -/
structure SorobanContractMetadataRow where
  contractId : String
  symbol : Option String
  decimals : Option UInt32

/-- The tables the changes are read from; any may hold a row twice. -/
structure Database where
  assetTransfers : List AssetTransferRow
  nftOwnershipChanges : List NftOwnershipChangesRow
  assets : List AssetsRow
  sorobanContracts : List SorobanContractsRow
  sorobanContractMetadata : List SorobanContractMetadataRow
  accounts : List AccountsRow

/-- The location of a movement, and the asset. -/
structure EdgePosition where
  tx : TxKey
  opIndex : Int16
  eventPosInOp : Int16
  assetId : Int64
  deriving DecidableEq

end BalanceChanges

namespace AssetTransferRow

open BalanceChanges

def tx (row : AssetTransferRow) : TxKey :=
  ⟨row.ledgerSequence, row.applicationOrder⟩

def edgePosition (row : AssetTransferRow) : EdgePosition :=
  ⟨row.tx, row.opIndex, row.eventPosInOp, row.assetId⟩

end AssetTransferRow

namespace BalanceChanges

def partitionOf (ledgerSequence : ℤ) : ℤ :=
  ledgerSequence.tdiv 500000

/-! ## The netting statement -/

/-- A number in the 128 bits of a column. -/
def wrapI128 (n : ℤ) : ℤ :=
  n.bmod (2 ^ 128)

/-- `any` over the copies of a row: the first value that is not null. -/
def anyOf {α β : Type} (copies : List α) (value : α → Option β) : Option β :=
  copies.findSome? value

/-- `sum` over a nullable column: nulls are passed over, and a sum of nothing is null. -/
def sumNullable (values : List (Option ℤ)) : Option ℤ :=
  match values.filterMap id with
  | [] => none
  | known => some (wrapI128 known.sum)

/-- One movement of the account, with its signed amount or count. -/
structure EdgeRow where
  position : EdgePosition
  isNonFungible : Bool
  nftOwner : Option Int64
  signed : Option ℤ
  nft : ℤ

section

variable (accountId : Int64)

/-- What the account received less what it sent; null without an amount. -/
def signedAmount (row : AssetTransferRow) : Option ℤ := do
  let received ← if row.recipientId = some accountId then row.amount else some 0
  let sent ← if row.senderId = some accountId then row.amount else some 0
  return wrapI128 (received - sent)

/-- The pieces the account received less those it sent. -/
def signedPieces (row : AssetTransferRow) : ℤ :=
  if row.amount.isNone then
    (if row.recipientId = some accountId then 1 else 0) -
      (if row.senderId = some accountId then 1 else 0)
  else 0

/-- The new owner of a piece. -/
def newOwner (row : AssetTransferRow) : Option Int64 :=
  if row.amount.isNone then row.recipientId else none

/-- The copies of a movement as one row. -/
def edgeRow (copies : EdgePosition × List AssetTransferRow) : EdgeRow where
  position := copies.1
  isNonFungible := (anyOf copies.2 fun row => some row.amount.isNone).getD false
  nftOwner := anyOf copies.2 newOwner
  signed := anyOf copies.2 (signedAmount accountId)
  nft := (anyOf copies.2 fun row => some (signedPieces accountId row)).getD 0

/-- The account's stored movements in some transactions. -/
def readTransfers (db : Database) (keys : List TxKey) : List AssetTransferRow :=
  db.assetTransfers.filter fun row =>
    row.tx ∈ keys ∧ partitionOf row.ledgerSequence ∈ keys.map (partitionOf ·.ledgerSequence) ∧
      (row.senderId = some accountId ∨ row.recipientId = some accountId)

def edges (db : Database) (keys : List TxKey) : List EdgeRow :=
  (groupBy AssetTransferRow.edgePosition (readTransfers accountId db keys)).map (edgeRow accountId)

/-- What movements are netted together. -/
structure DeltaKey where
  tx : TxKey
  assetId : Int64
  isNonFungible : Bool
  nftOwner : Option Int64
  deriving DecidableEq

def EdgeRow.deltaKey (edge : EdgeRow) : DeltaKey :=
  ⟨edge.position.tx, edge.position.assetId, edge.isNonFungible, edge.nftOwner⟩

structure DeltaChRow where
  tx : TxKey
  assetId : Int64
  delta : Option String
  nftDelta : ℤ
  nftOwner : Option Int64

def deltaRow (group : DeltaKey × List EdgeRow) : DeltaChRow where
  tx := group.1.tx
  assetId := group.1.assetId
  delta := (sumNullable (group.2.map (·.signed))).map toString
  nftDelta := (group.2.map (·.nft)).sum
  nftOwner := group.1.nftOwner

/-- A balance that did not change has no row. -/
def DeltaChRow.changed (row : DeltaChRow) : Bool :=
  (row.delta.isSome && row.delta ≠ some "0") || row.nftDelta ≠ 0

/-- The transaction, and the first movement in it. -/
def groupOrder (group : DeltaKey × List EdgeRow) : ℤ ×ₗ ℤ ×ₗ ℤ ×ₗ ℤ :=
  let movements := group.2.map fun edge =>
    toLex (edge.position.opIndex.toInt, edge.position.eventPosInOp.toInt)
  toLex (group.1.tx.ledgerSequence, toLex (group.1.tx.applicationOrder.toInt,
    movements.min?.getD (toLex (0, 0))))

def balanceChangeDeltas (db : Database) (keys : List TxKey) : List DeltaChRow :=
  let groups := (groupBy EdgeRow.deltaKey (edges accountId db keys)).filter
    fun group => (deltaRow group).changed
  (sortBy groupOrder groups).map deltaRow

end

/-! ## The pieces -/

/-- A collection, a transaction and a new owner. -/
structure PieceKey where
  contractId : Int64
  tx : TxKey
  ownerId : Option Int64
  deriving DecidableEq

def changeTx (change : NftOwnershipChangesRow) : TxKey :=
  ⟨change.ledgerSequence.toInt, change.applicationOrder⟩

def pieceKey (change : NftOwnershipChangesRow) : PieceKey :=
  ⟨change.contractId, changeTx change, change.ownerId⟩

/-- The token ids of a group, each once and in order. -/
def tokenIds (changes : List NftOwnershipChangesRow) : List String :=
  sortBy id (firstBy id (changes.map (·.tokenId)))

/-- The pieces that came to each owner, from whomever. -/
def resolveMovedPieces (db : Database) (lookups : List (Int64 × TxKey)) :
    Table PieceKey (List String) :=
  let rows := db.nftOwnershipChanges.filter fun change =>
    change.contractId ∈ lookups.map Prod.fst ∧ changeTx change ∈ lookups.map Prod.snd
  collect ((groupBy pieceKey rows).map fun group => (group.1, tokenIds group.2))

/-! ## Identities -/

structure AssetIdentityChRow where
  id : Int64
  known : Bool
  assetType : Int16
  assetCode : Option String
  issuerId : Int64
  contractStrkey : Option String
  symbol : Option String
  publishedDecimals : Option UInt32

structure ResolvedAsset where
  known : Bool
  assetType : Int16
  assetCode : Option String
  issuer : Option String
  contractStrkey : Option String
  symbol : Option String
  decimals : Option UInt32

/-- The display scale of an asset, where it is known. -/
def knownDecimals (family : Option Int16) (published : Option UInt32) : Option UInt32 :=
  if family = some 0 ∨ family = some 1 then some 7 else published.filter (· ≤ 38)

section

variable (db : Database)

/-- The row of an id: its asset, and the contract with that id. -/
def identityRow (id : Int64) : AssetIdentityChRow :=
  let asset := db.assets.find? (·.id = id)
  let contract := db.sorobanContracts.find? (·.id = id)
  let contractId := (contract.map (·.contractId)).getD ""
  let metadata := db.sorobanContractMetadata.find? (·.contractId = contractId)
  { id
    known := (asset.map (·.id)).getD 0 ≠ 0
    assetType := (asset.map (·.assetType)).getD 0
    assetCode := nonEmpty (asset.map (·.assetCode))
    issuerId := (asset.map (·.issuerId)).getD 0
    contractStrkey := nonEmpty (contract.map (·.contractId))
    symbol := nonEmpty (metadata.bind (·.symbol))
    publishedDecimals := metadata.bind (·.decimals) }

/-- The StrKeys of the issuers of classic assets. -/
def resolveIssuers (rows : List AssetIdentityChRow) : Table Int64 String :=
  let ids := (rows.filter fun row => row.known ∧ row.assetType = 1 ∧ row.issuerId ≠ 0).map
    (·.issuerId)
  collect ((firstBy (·.id) (db.accounts.filter (·.id ∈ ids))).map fun row => (row.id, row.accountId))

def assemble (row : AssetIdentityChRow) (issuers : Table Int64 String) : ResolvedAsset where
  known := row.known
  assetType := row.assetType
  assetCode := row.assetCode
  issuer := nonEmpty (issuers.lookup row.issuerId)
  contractStrkey := row.contractStrkey
  symbol := row.symbol
  decimals := knownDecimals (if row.known then some row.assetType else none) row.publishedDecimals

def resolveAssetIdentities (ids : List Int64) : Table Int64 ResolvedAsset :=
  let rows := (firstBy id ids).map (identityRow db)
  let issuers := resolveIssuers db rows
  collect (rows.map fun row => (row.id, assemble row issuers))

end

/-- What a cell shows of an asset. -/
structure AssetIdentity where
  asset : String
  assetCode : Option String
  decimals : Option UInt32
  resolvesOnAssetPage : Bool

/-- The text that names an asset, and its code. -/
def assetNames (r : ResolvedAsset) : String × Option String :=
  if r.known ∧ r.assetType = 0 then ("native", none)
  else if r.known ∧ r.assetType = 1 then
    (match r.assetCode, r.issuer with
      | some code, some issuer => code ++ "-" ++ issuer
      | _, _ => "",
      r.assetCode)
  else (r.contractStrkey.getD "", r.symbol.or r.assetCode)

def balanceChangeIdentity (r : ResolvedAsset) : AssetIdentity where
  asset := (assetNames r).1
  assetCode := (assetNames r).2
  decimals := r.decimals
  resolvesOnAssetPage := r.known

/-! ## The changes -/

structure BalanceChange where
  asset : String
  assetCode : Option String
  decimals : Option UInt32
  /-- None for a non-fungible movement. -/
  amount : Option String
  /-- 0 for an amount. -/
  nftDelta : ℤ
  tokenId : Option String
  deriving DecidableEq

/-- The pieces of a row, if there are as many as movements. -/
def piecesHere (pieces : Table PieceKey (List String)) (row : DeltaChRow) : List String :=
  if row.nftDelta ≠ 0 then
    ((pieces.lookup ⟨row.assetId, row.tx, row.nftOwner⟩).filter
      fun tokens => tokens.length = row.nftDelta.natAbs).getD []
  else []

/-- One entry, without an identity for an asset that is not resolved.  An amount is linked
only if the asset has a page. -/
def entry (identity : Option ResolvedAsset) (row : DeltaChRow) (amount : Option String)
    (nftDelta : ℤ) (tokenId : Option String) : BalanceChange :=
  match identity.map balanceChangeIdentity with
  | none => ⟨"", none, none, amount, nftDelta, tokenId⟩
  | some i =>
      ⟨if row.nftDelta ≠ 0 ∨ i.resolvesOnAssetPage then i.asset else "", i.assetCode, i.decimals,
        amount, nftDelta, tokenId⟩

/-- The entries of a row: one, or one for each piece that can be named. -/
def rowChanges (identities : Table Int64 ResolvedAsset) (pieces : Table PieceKey (List String))
    (row : DeltaChRow) : List BalanceChange :=
  let entry := entry (identities.lookup row.assetId) row
  match piecesHere pieces row with
  | [] => [entry row.delta row.nftDelta none]
  | tokens => tokens.map fun token => entry none row.nftDelta.sign (some token)

/-- The rows whose pieces are looked up. -/
def nftLookups (rows : List DeltaChRow) : List (Int64 × TxKey) :=
  (rows.filter (·.nftDelta ≠ 0)).map fun row => (row.assetId, row.tx)

/-- The changes of each transaction, in the order of the rows. -/
def fetchBalanceChanges (db : Database) (accountId : Int64) (keys : List TxKey) :
    Table TxKey (List BalanceChange) :=
  let rows := balanceChangeDeltas accountId db keys
  let identities := resolveAssetIdentities db (rows.map (·.assetId))
  let pieces := resolveMovedPieces db (nftLookups rows)
  runAll (rows.map fun row =>
    ⟨row.tx, fun slot => slot.getD [] ++ rowChanges identities pieces row⟩) ∅

end BalanceChanges

end SorobanExplorer
