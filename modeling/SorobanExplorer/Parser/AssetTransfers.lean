import SorobanExplorer.Parser.Event
import SorobanExplorer.Parser.Operation
import SorobanExplorer.Parser.Sac

/-!
# Token movements

One pass over a transaction's events.  An event whose first topic is a token
verb becomes a transfer or a counted reject; every other event is skipped.  A
labelled asset counts only from its own contract, and each end of a movement
leaves with its sub-account id resolved.
-/

namespace SorobanExplorer

open Text

/-! ## Amounts -/

inductive TokenAmount
  | fungible (amount : ℤ)
  | nonFungible
  | unrecognised
  deriving DecidableEq

/-- A well-formed unsigned token id. -/
def unsignedTokenId (value : Json) : Bool :=
  match (value.get? "type").bind Json.asStr with
  | some "u32" => ((typed value "u32").bind Json.asU64).any (· < 2 ^ 32)
  | some "u64" => ((typed value "u64").bind Json.asU64).isSome
  | some "u128" => (typedStr value "u128").any fun text => (parseU128 text.toList).toBool
  | some "u256" => (typedStr value "u256").any fun text =>
      text.toList.length == 64 && text.toList.all isAsciiHexdigit
  | _ => false

/-- A 128-bit scalar that fits a signed amount. -/
def scalarI128 (value : Json) : Option ℤ :=
  match typedStr value "i128" with
  | some text => (parseI128 text.toList).toOption
  | none => do
      let amount ← (parseU128 (← typedStr value "u128").toList).toOption
      if amount < 2 ^ 127 then some amount else none

/-- What an event's data says about the amount, read by key, never by position. -/
def tokenEventAmount (data : Json) : TokenAmount :=
  match (typedStr data "i128").bind fun text => (parseI128 text.toList).toOption with
  | some amount => .fungible amount
  | none =>
      if unsignedTokenId data then .nonFungible
      else match mapGet data "token_id", mapGet data "amount" with
        | some tokenId, amount =>
            if amount.isNone && unsignedTokenId tokenId then .nonFungible else .unrecognised
        | none, some amount =>
            match scalarI128 amount with
            | some amount => .fungible amount
            | none => .unrecognised
        | none, none => .unrecognised

/-- The `to_muxed_id` of the data when it is an id; text or bytes are a memo. -/
def eventToMuxedId (data : Json) : Option UInt64 := do
  let id ← mapGet data "to_muxed_id"
  let value ← (← typed id "u64").asU64
  some (.ofNat value)

/-! ## Sub-account ids -/

/-- The sender's id: of the operation's own source if it names one, else of the
transaction's. -/
def senderId (op : Option ExtractedOperation) (txSourceAccount : String)
    (txSourceMuxedId : Option UInt64) (address : String) : Option UInt64 :=
  match op.bind fun op => op.sourceAccount.map fun source => (source, op.sourceMuxedId) with
  | some (source, sourceMuxedId) => if source = address then sourceMuxedId else none
  | none => if txSourceAccount = address then txSourceMuxedId else none

/-- Whether the operation delivers the asset to its destination. -/
def opDelivers (op : ExtractedOperation) (asset : EventAsset) : Bool :=
  let delivered := ((op.details.get? "destAsset").or (op.details.get? "asset")).bind Json.asStr
  match delivered, asset with
  | none, .native => true
  | some "native", .native => true
  | some text, .credit code issuer => splitOnceColon text == some (code, issuer)
  | _, _ => false

/-- The recipient's id, when its topic is a plain address: the event's in a
contract call, the operation's destination's otherwise. -/
def recipientId (op : Option ExtractedOperation) (asset : EventAsset)
    (eventToMuxedId : Option UInt64) (address : String) : Option UInt64 :=
  if op.any (·.opType = .invokeHostFunction) then eventToMuxedId
  else do
    let op ← op.filter fun op =>
      (op.details.get? "destination").bind Json.asStr = some address
    if opDelivers op asset then op.destinationMuxedId else none

variable [Crates]

/-- A muxed address as the address under it and its id; any other unchanged. -/
def splitMuxed (strkey : String) : String × Option UInt64 :=
  if strkey.toList.head? ≠ some 'M' ∧ strkey.toList.head? ≠ some 'W' then (strkey, none)
  else match Crates.strkeyFromString strkey with
    | some (.muxedAccountEd25519 key id) => (Crates.accountStrkey key, some id)
    | some (.muxedContract contract id) =>
        (Crates.scAddressStrkey (.contract contract), some id)
    | _ => (strkey, none)

/-- One end of a transfer: its address and its sub-account id. -/
def transferEnd (strkey : Option String) (idOutsideTopic : String → Option UInt64) :
    Option String × Option UInt64 :=
  match strkey with
  | none => (none, none)
  | some strkey =>
      let (address, topicMuxedId) := splitMuxed strkey
      (some address, topicMuxedId.or (idOutsideTopic address))

/-! ## Extraction -/

structure ExtractedAssetTransfer where
  transactionHash : String
  opIndex : UInt32
  eventPosInOp : UInt32
  kind : TokenEventKind
  sender : Option String
  recipient : Option String
  asset : EventAsset
  emitter : String
  /-- Nothing for a non-fungible movement only. -/
  amount : Option ℤ
  senderMuxedId : Option UInt64
  recipientMuxedId : Option UInt64
  deriving DecidableEq

inductive RejectKind
  | emitterNotSac (asset : String)
  | unrecognisedPayload (verb : TokenEventKind) (dataType : String)
  | noOperation
  | unrecognisedTopics (verb : TokenEventKind) (topicCount : ℕ)
  | noEmitter
  deriving DecidableEq

structure TransferReject where
  transactionHash : String
  eventId : EventId
  emitter : Option String
  kind : RejectKind
  deriving DecidableEq

structure RejectCounts where
  emitterNotSac : ℕ := 0
  unrecognisedPayload : ℕ := 0
  noOperation : ℕ := 0
  unrecognisedTopics : ℕ := 0
  noEmitter : ℕ := 0
  deriving DecidableEq

namespace RejectCounts

def total (counts : RejectCounts) : ℕ :=
  counts.emitterNotSac + counts.unrecognisedPayload + counts.noOperation +
    counts.unrecognisedTopics + counts.noEmitter

def add (counts : RejectCounts) (reject : TransferReject) : RejectCounts :=
  match reject.kind with
  | .emitterNotSac _ => { counts with emitterNotSac := counts.emitterNotSac + 1 }
  | .unrecognisedPayload _ _ =>
      { counts with unrecognisedPayload := counts.unrecognisedPayload + 1 }
  | .noOperation => { counts with noOperation := counts.noOperation + 1 }
  | .unrecognisedTopics _ _ => { counts with unrecognisedTopics := counts.unrecognisedTopics + 1 }
  | .noEmitter => { counts with noEmitter := counts.noEmitter + 1 }

def absorb (counts other : RejectCounts) : RejectCounts where
  emitterNotSac := counts.emitterNotSac + other.emitterNotSac
  unrecognisedPayload := counts.unrecognisedPayload + other.unrecognisedPayload
  noOperation := counts.noOperation + other.noOperation
  unrecognisedTopics := counts.unrecognisedTopics + other.unrecognisedTopics
  noEmitter := counts.noEmitter + other.noEmitter

end RejectCounts

structure AssetTransferExtraction where
  transfers : List ExtractedAssetTransfer
  rejects : List TransferReject

def AssetTransferExtraction.rejectCounts (extraction : AssetTransferExtraction) : RejectCounts :=
  extraction.rejects.foldl RejectCounts.add {}

/-- Whether a labelled asset comes from its own contract; a bespoke one always
does. -/
def assetGate (asset : EventAsset) (emitter : String) (topics : Json) (netId : Hash) : Bool :=
  asset = .bespoke || (sacOverrideFromEventTopics emitter topics netId).isSome

/-- The label the last topic claims. -/
def claimedAsset (topics : Json) : String :=
  ((((topics.asArray.bind List.getLast?).bind (·.get? "value")).bind Json.asStr).getD "")

/-- The type of an event's data, for a reject. -/
def dataTypeOf (data : Json) : String :=
  ((data.get? "type").bind Json.asStr).getD "?"

/-- What a token event becomes once its topics are decoded. -/
def decodedTransfer (operations : List ExtractedOperation) (txSourceAccount : String)
    (txSourceMuxedId : Option UInt64) (netId : Hash) (event : ExtractedEvent) (emitter : String)
    (token : TokenEvent) : Except RejectKind ExtractedAssetTransfer :=
  match event.origin with
  | .transaction _ => .error .noOperation
  | .operation operationIndex =>
      if ¬ assetGate token.asset emitter event.body.topics netId then
        .error (.emitterNotSac (claimedAsset event.body.topics))
      else
        let transfer (amount : Option ℤ) : ExtractedAssetTransfer :=
          let op := operations[operationIndex.toNat]?.filter fun op =>
            op.operationIndex = operationIndex.toUInt32
          let (sender, senderMuxedId) := transferEnd token.sender
            (senderId op txSourceAccount txSourceMuxedId)
          let (recipient, recipientMuxedId) := transferEnd token.recipient
            (recipientId op token.asset (eventToMuxedId event.body.data))
          { transactionHash := event.transactionHash
            opIndex := operationIndex.toUInt32
            eventPosInOp := event.eventId.eventIndex
            kind := token.kind
            sender, recipient, asset := token.asset, emitter, amount
            senderMuxedId, recipientMuxedId }
        match tokenEventAmount event.body.data with
        | .fungible amount => .ok (transfer (some amount))
        | .nonFungible => .ok (transfer none)
        | .unrecognised =>
            .error (.unrecognisedPayload token.kind (dataTypeOf event.body.data))

/-- What one event becomes; nothing when it is not a token event. -/
def eventTransfer (operations : List ExtractedOperation) (txSourceAccount : String)
    (txSourceMuxedId : Option UInt64) (netId : Hash) (event : ExtractedEvent) :
    Option (Except TransferReject ExtractedAssetTransfer) :=
  (tokenVerb event.body.topics).map fun kind =>
    let reject (emitter : Option String) (kind : RejectKind) : TransferReject :=
      ⟨event.transactionHash, event.eventId, emitter, kind⟩
    match event.body.contractId with
    | none => .error (reject none .noEmitter)
    | some emitter =>
        match parseTokenEvent event.body.topics with
        | none => .error (reject (some emitter)
            (.unrecognisedTopics kind (event.body.topics.asArray.elim 0 List.length)))
        | some token =>
            (decodedTransfer operations txSourceAccount txSourceMuxedId netId event emitter
              token).mapError (reject (some emitter))

/-- One event added to what the events before it became. -/
def AssetTransferExtraction.push (extraction : AssetTransferExtraction) :
    Option (Except TransferReject ExtractedAssetTransfer) → AssetTransferExtraction
  | none => extraction
  | some (.ok transfer) => { extraction with transfers := extraction.transfers ++ [transfer] }
  | some (.error reject) => { extraction with rejects := extraction.rejects ++ [reject] }

/-- Every token movement in a transaction's events. -/
def extractAssetTransfers (events : List ExtractedEvent) (operations : List ExtractedOperation)
    (txSourceAccount : String) (txSourceMuxedId : Option UInt64) (netId : Hash) :
    AssetTransferExtraction :=
  events.foldl (fun extraction event => extraction.push
    (eventTransfer operations txSourceAccount txSourceMuxedId netId event)) ⟨[], []⟩

end SorobanExplorer
