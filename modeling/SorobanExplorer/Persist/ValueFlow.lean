import SorobanExplorer.Lib.KeyedFold
import SorobanExplorer.Parser.AssetTransfers
import SorobanExplorer.Parser.Transaction
import SorobanExplorer.Persist.Error
import SorobanExplorer.Persist.Ids

/-!
# Transfer and memo rows

The parser has decided what moved and between whom.  Staging turns addresses
into ids and places every transfer at its transaction's position in the ledger;
a position that does not fit its column fails the ledger.
-/

namespace SorobanExplorer

open KeyedFold Persist

structure AssetTransferRow where
  ledgerSequence : ℤ
  applicationOrder : Int16
  opIndex : Int16
  eventPosInOp : Int16
  assetId : Int64
  amount : Option ℤ
  senderId : Option Int64
  senderKind : String
  senderMuxedId : Option UInt64
  recipientId : Option Int64
  recipientKind : String
  recipientMuxedId : Option UInt64
  verb : String
  deriving DecidableEq

structure TransactionMemoRow where
  ledgerSequence : ℤ
  applicationOrder : Int16
  memoType : String
  memo : String
  deriving DecidableEq

structure ValueFlowRows where
  transfers : List AssetTransferRow
  memos : List TransactionMemoRow

/-- A position as a 16-bit column. -/
def i16TryFrom (n : ℕ) : Option Int16 :=
  if n < 2 ^ 15 then some (Int16.ofNat n) else none

def narrow (v : UInt32) (what : String) : Except SchemaError Int16 :=
  match i16TryFrom v.toNat with
  | some v => .ok v
  | none => .error (.staging s!"{what} overflow (>i16): {v.toNat}")

def verb : TokenEventKind → String
  | .transfer => "transfer"
  | .mint => "mint"
  | .burn => "burn"
  | .clawback => "clawback"

/-- The position of a transaction, counted from 1. -/
def applicationOrder (idx : ℕ) : Except SchemaError Int16 :=
  match i16TryFrom (idx + 1) with
  | some order => .ok order
  | none => .error (.staging "application_order overflow (>i16)")

/-- One transaction's position noted under its hash. -/
def noteOrder (orders : Table String Int16) (entry : ExtractedTransaction × ℕ) :
    Except SchemaError (Table String Int16) :=
  (applicationOrder entry.2).map fun order => orders.insert entry.1.hash order

/-- Every transaction's position by its hash; a hash that comes twice keeps its
last position. -/
def orderByHash (transactions : List ExtractedTransaction) :
    Except SchemaError (Table String Int16) :=
  transactions.zipIdx.foldlM noteOrder ∅

def memoRow (ledgerSequence : ℤ) (transaction : ExtractedTransaction) (idx : ℕ) :
    Option TransactionMemoRow := do
  let memoType ← transaction.memoType
  let memo ← transaction.memo
  let applicationOrder ← i16TryFrom (idx + 1)
  some { ledgerSequence, applicationOrder, memoType, memo }

variable [Crates]

/-- The asset an event moves: a bespoke token is its emitting contract. -/
def eventAssetSurrogate (asset : EventAsset) (emittingContractId : Option Int64) : Option Int64 :=
  match asset with
  | .native => some Ids.nativeAssetId
  | .credit code issuer => some (Ids.creditAssetId code issuer)
  | .bespoke => emittingContractId

/-- One end of a transfer: its id, and the first letter of its address. -/
def rowEnd (strkey : Option String) : Option Int64 × String :=
  match strkey with
  | none => (none, "")
  | some strkey => (some (Ids.addressId strkey), (strkey.toList.head?.map (.ofList [·])).getD "")

/-- The row of one transfer, given the positions of the ledger's transactions. -/
def assetTransferRow (ledgerSequence : ℤ) (orders : Table String Int16)
    (transfer : ExtractedAssetTransfer) : Except SchemaError AssetTransferRow := do
  let applicationOrder ← match orders.lookup transfer.transactionHash with
    | some order => .ok order
    | none => .error (.staging
        s!"asset transfer for unknown transaction {transfer.transactionHash}")
  let (senderId, senderKind) := rowEnd transfer.sender
  let (recipientId, recipientKind) := rowEnd transfer.recipient
  let assetId ← match eventAssetSurrogate transfer.asset (some (Ids.contractId transfer.emitter)) with
    | some assetId => .ok assetId
    | none => .error (.staging
        (s!"asset transfer without a resolvable asset (tx {transfer.transactionHash}, " ++
          s!"op {transfer.opIndex.toNat}, event {transfer.eventPosInOp.toNat})"))
  let opIndex ← narrow transfer.opIndex "op_index"
  let eventPosInOp ← narrow transfer.eventPosInOp "event_pos_in_op"
  .ok { ledgerSequence, applicationOrder, opIndex, eventPosInOp, assetId
        amount := transfer.amount
        senderId, senderKind, senderMuxedId := transfer.senderMuxedId
        recipientId, recipientKind, recipientMuxedId := transfer.recipientMuxedId
        verb := verb transfer.kind }

def buildValueFlowRows (ledgerSequence : ℤ) (transactions : List ExtractedTransaction)
    (transfers : List ExtractedAssetTransfer) : Except SchemaError ValueFlowRows := do
  let orders ← orderByHash transactions
  let rows ← transfers.mapM (assetTransferRow ledgerSequence orders)
  .ok ⟨rows, transactions.zipIdx.filterMap fun (transaction, idx) =>
    memoRow ledgerSequence transaction idx⟩

end SorobanExplorer
