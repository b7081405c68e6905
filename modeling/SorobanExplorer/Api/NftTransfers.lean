import SorobanExplorer.Api.KeysetPage
import SorobanExplorer.Api.TransactionList

/-!
# The transfers of an NFT

The list of a token's ownership changes, newest first.  The table stores the owner
after each change; the owner before it is read off the next row of the fetched page,
over which a window runs newest first in either direction of the walk.
-/

namespace SorobanExplorer.NftTransfers

open Ranked KeyedFold Text TransactionList

/-! ## Tables -/

/-- Where a change happened: its event's location. -/
structure NftTransferCursor where
  ledgerSequence : Int64
  applicationOrder : Int16
  operationIndex : UInt16
  eventIndex : UInt32
  deriving DecidableEq

namespace NftTransferCursor

/-- The location as a tuple, compared ledger first. -/
def tuple (position : NftTransferCursor) : ℤ ×ₗ ℤ ×ₗ ℕ ×ₗ ℕ :=
  toLex (position.ledgerSequence.toInt, toLex (position.applicationOrder.toInt,
    toLex (position.operationIndex.toNat, position.eventIndex.toNat)))

theorem tuple_injective : Function.Injective tuple := by
  intro a b h
  obtain ⟨hledger, h⟩ := Prod.mk.inj (toLex.injective h)
  obtain ⟨horder, h⟩ := Prod.mk.inj (toLex.injective h)
  obtain ⟨hoperation, hevent⟩ := Prod.mk.inj (toLex.injective h)
  cases a
  cases b
  rw [Int64.toInt_inj] at hledger
  rw [Int16.toInt_inj] at horder
  rw [UInt16.toNat_inj] at hoperation
  rw [UInt32.toNat_inj] at hevent
  simp_all

instance : LinearOrder NftTransferCursor :=
  LinearOrder.lift' tuple tuple_injective

end NftTransferCursor

structure NftOwnershipChangesRow where
  contractId : Int64
  tokenId : String
  ledgerSequence : Int64
  applicationOrder : Int16
  operationIndex : UInt16
  eventIndex : UInt32
  ownerId : Option Int64
  eventType : Int16
  deriving DecidableEq

def NftOwnershipChangesRow.position (row : NftOwnershipChangesRow) : NftTransferCursor :=
  ⟨row.ledgerSequence, row.applicationOrder, row.operationIndex, row.eventIndex⟩

structure NftsRow where
  contractId : Int64
  tokenId : String

/-- The tables the list reads; any may hold a row twice. -/
structure Database where
  nfts : List NftsRow
  nftOwnershipChanges : List NftOwnershipChangesRow
  sorobanContracts : List SorobanContractsRow
  accounts : List AccountsRow
  transactions : List TransactionsRow
  ledgers : List LedgersRow

/-! ## One page -/

structure NftTransferItem where
  transactionHash : String
  ledgerSequence : Int64
  eventTypeName : Option String
  eventType : Int16
  fromAccount : Option String
  toAccount : Option String
  /-- In milliseconds. -/
  createdAt : Int64
  applicationOrder : Int16
  operationIndex : UInt16
  eventIndex : UInt32

def NftTransferItem.position (item : NftTransferItem) : NftTransferCursor :=
  ⟨item.ledgerSequence, item.applicationOrder, item.operationIndex, item.eventIndex⟩

def nftEventTypeName (eventType : Int16) : Option String :=
  if eventType = 0 then some "mint"
  else if eventType = 1 then some "transfer"
  else if eventType = 2 then some "burn"
  else none

section

variable (db : Database) (contractId tokenId : String)

def contractSurrogate : Option Int64 :=
  (db.sorobanContracts.find? (·.contractId = contractId)).map (·.id)

def nftExists : Bool :=
  db.nfts.any fun row => some row.contractId = contractSurrogate db contractId ∧
    row.tokenId = tokenId

/-- The stored changes of a token. -/
def changesOf : List NftOwnershipChangesRow :=
  db.nftOwnershipChanges.filter fun row =>
    some row.contractId = contractSurrogate db contractId ∧ row.tokenId = tokenId

/-- The address of an owner, an account's before a contract's. -/
def ownerAddress (ownerId : Option Int64) : Option String := do
  let id ← ownerId
  (nonEmpty ((db.accounts.find? (·.id = id)).map (·.accountId))).or
    (nonEmpty ((db.sorobanContracts.find? (·.id = id)).map (·.contractId)))

def closedAt (ledgerSequence : Int64) : Option Int64 :=
  (db.ledgers.find? (·.sequence = ledgerSequence)).map (·.closedAt)

def transactionHash (change : NftOwnershipChangesRow) : Option String :=
  nonEmpty ((db.transactions.find? fun row => row.ledgerSequence = change.ledgerSequence ∧
    row.applicationOrder = change.applicationOrder).map (hexEncode ·.hash))

/-- A change with its ledger's time, once the ledger is written. -/
def joinLedger (change : NftOwnershipChangesRow) : Option (NftOwnershipChangesRow × Int64) :=
  (closedAt db change.ledgerSequence).map (change, ·)

/-- A row of the page, with the row the window reads the owner before from. -/
def mapTransferRow (row : NftOwnershipChangesRow × Int64)
    (following : Option (NftOwnershipChangesRow × Int64)) : NftTransferItem where
  transactionHash := (transactionHash db row.1).getD ""
  ledgerSequence := row.1.ledgerSequence
  eventTypeName := nftEventTypeName row.1.eventType
  eventType := row.1.eventType
  fromAccount := following.bind fun following => ownerAddress db following.1.ownerId
  toAccount := ownerAddress db row.1.ownerId
  createdAt := row.2
  applicationOrder := row.1.applicationOrder
  operationIndex := row.1.operationIndex
  eventIndex := row.1.eventIndex

def fetchTransfers (cursor : Option NftTransferCursor) (limit : ℕ) (direction : Direction) :
    List NftTransferItem :=
  let page := (rowsPast NftOwnershipChangesRow.position .desc direction
    (changesOf db contractId tokenId) cursor).take limit
  -- the window runs newest first, whatever the direction
  let window := withNext (FetchOrder.desc.sorted (·.1.position) (page.filterMap (joinLedger db)))
  (keysetSqlDesc direction).2.sorted NftTransferItem.position
    (window.map fun (row, following) => mapTransferRow db row following)

/-- The page a request gets, if there is such a token. -/
def listNftTransfers (cursor : Option NftTransferCursor) (limit : ℕ) (direction : Direction)
    (cursorOf : Direction → NftTransferItem → String) : Option (Page NftTransferItem) :=
  if nftExists db contractId tokenId then
    some (finalizePage (fetchTransfers db contractId tokenId cursor (limit + 1) direction) limit
      direction cursor.isSome cursorOf)
  else none

/-! ## The owner before -/

/-- The changes of a token that can be listed: those of written ledgers. -/
def listedChanges : List NftOwnershipChangesRow :=
  (changesOf db contractId tokenId).filter fun change =>
    (closedAt db change.ledgerSequence).isSome

/-- The address a token was with before a change, none before its first. -/
def previousOwner (position : NftTransferCursor) : Option String :=
  (previousOf NftOwnershipChangesRow.position (listedChanges db contractId tokenId) position).bind
    fun previous => ownerAddress db previous.ownerId

/-- Every change on the page shows the owner before it. -/
def ShowsPreviousOwners (cursor : Option NftTransferCursor) (limit : ℕ) (direction : Direction)
    (cursorOf : Direction → NftTransferItem → String) : Prop :=
  ∀ page ∈ listNftTransfers db contractId tokenId cursor limit direction cursorOf,
    ∀ item ∈ page.rows, item.fromAccount = previousOwner db contractId tokenId item.position

/-- The changes fetched for a page, in written ledgers, newest first. -/
def fetchedChanges (cursor : Option NftTransferCursor) (limit : ℕ) (direction : Direction) :
    List NftOwnershipChangesRow :=
  let past := (newestFirst NftOwnershipChangesRow.position
    (changesOf db contractId tokenId)).filter fun change => cursor.all fun cursor =>
      match direction with
      | .next => change.position < cursor
      | .prev => cursor < change.position
  let fetched := match direction with
    | .next => past.take (limit + 1)
    | .prev => past.drop (past.length - (limit + 1))
  fetched.filter fun change => (closedAt db change.ledgerSequence).isSome

/-- The oldest change fetched is the extra row of a forward page, or nobody with an
address had the token before it. -/
def OldestSeen (cursor : Option NftTransferCursor) (limit : ℕ) (direction : Direction) : Prop :=
  (direction = .next ∧ limit < (fetchedChanges db contractId tokenId cursor limit direction).length) ∨
    ∀ oldest ∈ (fetchedChanges db contractId tokenId cursor limit direction).getLast?,
      previousOwner db contractId tokenId oldest.position = none

end

end SorobanExplorer.NftTransfers
