import SorobanExplorer.Parser.Event
import SorobanExplorer.Persist.Contracts

/-!
# NFT rows

The token rows and the ownership changes of a ledger.  A contract known to be an NFT
contract has its rows in the tables that are read; one known to be something else has
none; and the rows of a contract not classified yet are quarantined.
-/

namespace SorobanExplorer

open KeyedFold

structure ExtractedNft where
  contractId : String
  tokenId : String
  collectionName : Option String
  owner : Option String
  name : Option String
  mediaUrl : Option String
  /-- Set for a mint only. -/
  mintedAtLedger : Option UInt32
  lastSeenLedger : UInt32

inductive NftEventType
  | mint
  | transfer
  | burn
  deriving DecidableEq

def NftEventType.toI16 : NftEventType → Int16
  | .mint => 0
  | .transfer => 1
  | .burn => 2

structure ExtractedNftEvent where
  transactionHash : String
  contractId : String
  tokenId : String
  eventType : NftEventType
  /-- Nothing for a burn. -/
  owner : Option String
  eventId : EventId

/-- A row of `nfts`, and of `nfts_pending`. -/
structure NftRow where
  contractId : Int64
  tokenId : String
  collectionName : Option String
  name : Option String
  mediaUrl : Option String
  currentOwnerId : Option Int64
  currentOwnerLedger : ℤ
  deriving DecidableEq

/-- A row of `nft_ownership_changes`, and of `nft_ownership_changes_pending`. -/
structure NftOwnershipChangeRow where
  contractId : Int64
  tokenId : String
  ledgerSequence : ℤ
  applicationOrder : Int16
  operationIndex : UInt16
  eventIndex : UInt32
  ownerId : Option Int64
  eventType : Int16
  deriving DecidableEq

def ContractType.ofI16 (value : Int16) : Option ContractType :=
  if value = 0 then some .token
  else if value = 1 then some .other
  else if value = 2 then some .nft
  else if value = 3 then some .fungible
  else none

inductive NftRoute
  | hot
  | pending
  | drop
  deriving DecidableEq

/-- The type a ledger's own contract rows give a contract, the last if several do. -/
def verdictByContract (contractRows : List SorobanContractRow) (strkey : String) :
    Option ContractType :=
  lastOf strkey (contractRows.filterMap fun row =>
    (row.contractType.bind ContractType.ofI16).map fun type => (row.contractId, type))

/-- Where the rows of a contract go, by its type in this ledger, else the one known before. -/
def routeFor (contractRows : List SorobanContractRow)
    (priorContractVerdicts : String → Option ContractType) (strkey : String) : NftRoute :=
  match (verdictByContract contractRows strkey).or (priorContractVerdicts strkey) with
  | some .token | some .fungible => .drop
  | some .nft => .hot
  | _ => .pending

section

variable [Crates]

def nftRow (nft : ExtractedNft) : NftRow where
  contractId := Ids.contractId nft.contractId
  tokenId := nft.tokenId
  collectionName := nft.collectionName
  name := nft.name
  mediaUrl := nft.mediaUrl
  currentOwnerId := nft.owner.map Ids.accountId
  currentOwnerLedger := nft.lastSeenLedger.toNat

/-- A row already staged, with what a later row of its token adds. -/
def NftRow.absorb (existing later : NftRow) : NftRow :=
  let newer := existing.currentOwnerLedger ≤ later.currentOwnerLedger
  { existing with
    currentOwnerId := if newer then later.currentOwnerId else existing.currentOwnerId
    currentOwnerLedger := if newer then later.currentOwnerLedger else existing.currentOwnerLedger
    collectionName := existing.collectionName.or later.collectionName
    name := existing.name.or later.name
    mediaUrl := existing.mediaUrl.or later.mediaUrl }

/-- The rows staged so far with one more, in the place of its token's if there is one. -/
def stageNft : List NftRow → NftRow → List NftRow
  | [], row => [row]
  | existing :: rest, row =>
      if (existing.contractId, existing.tokenId) = (row.contractId, row.tokenId) then
        existing.absorb row :: rest
      else existing :: stageNft rest row

/-- An ownership change, if its transaction has a place in the ledger. -/
def nftOwnershipChangeRow (appOrderByHash : String → Option Int16) (ev : ExtractedNftEvent) :
    Option NftOwnershipChangeRow :=
  (appOrderByHash ev.transactionHash).map fun applicationOrder =>
    { contractId := Ids.contractId ev.contractId
      tokenId := ev.tokenId
      ledgerSequence := ev.eventId.ledgerSequence.toNat
      applicationOrder
      operationIndex := ev.eventId.operationIndex
      eventIndex := ev.eventId.eventIndex
      ownerId := ev.owner.map Ids.accountId
      eventType := ev.eventType.toI16 }

structure StagedNfts where
  nftRows : List NftRow
  nftPendingRows : List NftRow
  nftOwnershipChangeRows : List NftOwnershipChangeRow
  nftOwnershipChangePendingRows : List NftOwnershipChangeRow

def nftRows (contractRows : List SorobanContractRow) (nfts : List ExtractedNft)
    (nftEvents : List ExtractedNftEvent) (priorContractVerdicts : String → Option ContractType)
    (appOrderByHash : String → Option Int16) : StagedNfts :=
  let route := routeFor contractRows priorContractVerdicts
  let tokens (at_ : NftRoute) :=
    ((nfts.filter (route ·.contractId = at_)).map nftRow).foldl stageNft []
  let changes (at_ : NftRoute) :=
    (nftEvents.filter (route ·.contractId = at_)).filterMap (nftOwnershipChangeRow appOrderByHash)
  { nftRows := tokens .hot
    nftPendingRows := tokens .pending
    nftOwnershipChangeRows := changes .hot
    nftOwnershipChangePendingRows := changes .pending }

end

end SorobanExplorer
