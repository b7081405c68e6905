import SorobanExplorer.Parser.Envelope
import SorobanExplorer.Parser.TransferOutcomes

/-!
# Payments to sub-accounts

The operations whose destination may be a sub-account, as they are extracted, and the
token movements the network reports of one: both sides of every trade with an offer or a
pool on the way, and last the delivery to the destination.  The parser recognises the
delivery by its recipient and its asset (`recipientMuxedIds_iff`).
-/

namespace SorobanExplorer

open Text

variable [Crates]

/-! ## Operations -/

/-- The text of an asset, `native` or `CODE:ISSUER`. -/
def assetLabel : Asset → String
  | .native => "native"
  | .creditAlphanum4 code issuer => assetCodeStr code.bytes ++ ":" ++ Crates.accountStrkey issuer
  | .creditAlphanum12 code issuer => assetCodeStr code.bytes ++ ":" ++ Crates.accountStrkey issuer

def formatOperationAsset (asset : Asset) : Json := .str (assetLabel asset)

/-- The operations with a destination that may be a sub-account. -/
inductive PaymentBody
  | payment (destination : MuxedAccount) (asset : Asset) (amount : Int64)
  | pathPaymentStrictReceive (sendAsset : Asset) (sendMax : Int64) (destination : MuxedAccount)
      (destAsset : Asset) (destAmount : Int64) (path : List Asset)
  | pathPaymentStrictSend (sendAsset : Asset) (sendAmount : Int64) (destination : MuxedAccount)
      (destAsset : Asset) (destMin : Int64) (path : List Asset)
  | accountMerge (destination : MuxedAccount)

namespace PaymentBody

def destination : PaymentBody → MuxedAccount
  | .payment destination _ _ => destination
  | .pathPaymentStrictReceive _ _ destination _ _ _ => destination
  | .pathPaymentStrictSend _ _ destination _ _ _ => destination
  | .accountMerge destination => destination

/-- The asset the destination receives. -/
def delivered : PaymentBody → Asset
  | .payment _ asset _ => asset
  | .pathPaymentStrictReceive _ _ _ destAsset _ _ => destAsset
  | .pathPaymentStrictSend _ _ _ destAsset _ _ => destAsset
  | .accountMerge _ => .native

/-- Type and details of the operation. -/
def opDetails : PaymentBody → OperationType × List (String × Json)
  | .payment destination asset amount =>
      (.payment, [("destination", .str (muxedToGStrkey destination)),
        ("asset", formatOperationAsset asset), ("amount", .num amount.toInt)])
  | .pathPaymentStrictReceive sendAsset sendMax destination destAsset destAmount path =>
      (.pathPaymentStrictReceive, [("sendAsset", formatOperationAsset sendAsset),
        ("sendMax", .num sendMax.toInt), ("destination", .str (muxedToGStrkey destination)),
        ("destAsset", formatOperationAsset destAsset), ("destAmount", .num destAmount.toInt),
        ("path", .arr (path.map formatOperationAsset))])
  | .pathPaymentStrictSend sendAsset sendAmount destination destAsset destMin path =>
      (.pathPaymentStrictSend, [("sendAsset", formatOperationAsset sendAsset),
        ("sendAmount", .num sendAmount.toInt), ("destination", .str (muxedToGStrkey destination)),
        ("destAsset", formatOperationAsset destAsset), ("destMin", .num destMin.toInt),
        ("path", .arr (path.map formatOperationAsset))])
  | .accountMerge destination =>
      (.accountMerge, [("destination", .str (muxedToGStrkey destination))])

end PaymentBody

/-- The pools a result crossed, and what each paid. -/
structure PoolClaims where
  poolIds : List String
  claimedAtoms : List Json

/-- The details with the pools crossed, if any. -/
def appendPoolClaims (details : List (String × Json)) (claims : PoolClaims) : Json :=
  if claims.claimedAtoms = [] then .obj details
  else .obj (details ++ [("poolIds", .arr (claims.poolIds.map .str)),
    ("claimedAtoms", .arr claims.claimedAtoms)])

/-- The operation extracted from a payment at a position of its envelope. -/
def extractPayment (transactionHash : String) (index : UInt32) (source : Option MuxedAccount)
    (body : PaymentBody) (claims : PoolClaims) : ExtractedOperation where
  transactionHash
  operationIndex := index
  opType := body.opDetails.1
  sourceAccount := source.map muxedToGStrkey
  sourceMuxedId := source.bind muxedId
  destinationMuxedId := muxedId body.destination
  details := appendPoolClaims body.opDetails.2 claims

/-! ## What the network reports -/

/-- An asset moved between two addresses. -/
structure Movement where
  sender : String
  recipient : String
  asset : Asset

def issuerStrkey : Asset → Option String
  | .native => none
  | .creditAlphanum4 _ issuer | .creditAlphanum12 _ issuer => some (Crates.accountStrkey issuer)

/-- The asset a movement's event names. -/
def labelledAsset (asset : Asset) : EventAsset :=
  eventAsset (some (typedJson "string" (.str (assetLabel asset))))

namespace Movement

/-- A movement from the issuer is a mint, one to it a burn. -/
def kind (m : Movement) : TokenEventKind :=
  if issuerStrkey m.asset = some m.sender ∧ m.sender ≠ m.recipient then .mint
  else if issuerStrkey m.asset = some m.recipient ∧ m.sender ≠ m.recipient then .burn
  else .transfer

def topics (m : Movement) : Json :=
  let sender := typedJson "address" (.str m.sender)
  let recipient := typedJson "address" (.str m.recipient)
  let label := typedJson "string" (.str (assetLabel m.asset))
  match m.kind with
  | .mint => .arr [typedJson "sym" (.str "mint"), recipient, label]
  | .burn => .arr [typedJson "sym" (.str "burn"), sender, label]
  | _ => .arr [typedJson "sym" (.str "transfer"), sender, recipient, label]

end Movement

/-- A trade on the way: what the owner of an offer, or a pool, sold and bought. -/
structure Crossing where
  owner : String
  sold : Asset
  bought : Asset

/-- Both sides of a trade with the source of the operation. -/
def Crossing.movements (source : String) (crossing : Crossing) : List Movement :=
  [⟨source, crossing.owner, crossing.bought⟩, ⟨crossing.owner, source, crossing.sold⟩]

/-- The last movement of a payment, to its destination. -/
def PaymentBody.delivery (source : String) (body : PaymentBody) : Movement :=
  ⟨source, muxedToGStrkey body.destination, body.delivered⟩

/-- The movements of a payment. -/
def PaymentBody.movements (source : String) (body : PaymentBody) (crossings : List Crossing) :
    List Movement :=
  crossings.flatMap (Crossing.movements source) ++ [body.delivery source]

/-- An event of an operation that reports a movement: emitted by the asset's own contract,
with an amount. -/
structure Reports (netId : Hash) (index : UInt16) (event : ExtractedEvent) (m : Movement) : Prop where
  origin : event.origin = .operation index
  topics : event.body.topics = m.topics
  emitter : ∃ emitter, event.body.contractId = some emitter ∧
    (sacOverrideFromEventTopics emitter m.topics netId).isSome
  amount : tokenEventAmount event.body.data ≠ .unrecognised

end SorobanExplorer
