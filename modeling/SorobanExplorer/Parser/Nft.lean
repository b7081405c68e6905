import SorobanExplorer.Parser.Event
import SorobanExplorer.Parser.Sac

/-!
# NFT events

Mints, transfers and burns of non-fungible tokens.  The addresses and the token
id come in one of three layouts: addresses in the topics and the id as the data,
all of them packed in a data vector, or addresses in the topics and the id in a
data map.  Events proven to be an asset contract's are left out.
-/

namespace SorobanExplorer

open Text

inductive NftEventKind
  | mint
  | transfer
  | burn
  deriving DecidableEq

structure NftEvent where
  transactionHash : String
  contractId : String
  eventKind : NftEventKind
  tokenId : Json
  /-- Nothing for a mint. -/
  sender : Option String
  /-- Nothing for a burn. -/
  recipient : Option String
  createdAt : ℤ
  eventId : EventId
  deriving DecidableEq

def toAsciiLowercase (s : String) : String :=
  .ofList (s.toList.map Char.toLower)

/-! ## Operands -/

/-- A scalar, as far as its type tells. -/
def looksLikeTokenId (data : Json) : Bool :=
  ((data.get? "type").bind Json.asStr).getD "" ∉ ["void", "map", "vec", "error"]

/-- The elements of a data vector. -/
def dataVecElements (data : Json) : Option (List Json) :=
  if (data.get? "type").bind Json.asStr = some "vec" then
    (data.get? "value").bind Json.asArray
  else none

/-- A non-empty address topic's text. -/
def topicAddressValue (topic : Json) : Option String :=
  if (topic.get? "type").bind Json.asStr = some "address" then
    ((topic.get? "value").bind Json.asStr).filter (· ≠ "")
  else none

def collectAddresses (items : List Json) : Option (List String) :=
  items.mapM topicAddressValue

/-- Addresses in the topics, the token id as the data. -/
def argsInTopics (remainingTopics : List Json) (data : Json) (nAddrs : ℕ) :
    Option (List String × Json) :=
  if nAddrs ≤ remainingTopics.length ∧ looksLikeTokenId data then
    (collectAddresses (remainingTopics.take nAddrs)).map (·, data)
  else none

/-- Addresses and token id packed in a data vector. -/
def argsPacked (data : Json) (nAddrs : ℕ) : Option (List String × Json) := do
  let elems ← dataVecElements data
  if elems.length = nAddrs + 1 then
    let tokenId ← elems[nAddrs]?
    if looksLikeTokenId tokenId then
      (collectAddresses (elems.take nAddrs)).map (·, tokenId)
    else none
  else none

/-- Addresses in the topics, the token id in a data map. -/
def argsWithMap (remainingTopics : List Json) (data : Json) (nAddrs : ℕ) :
    Option (List String × Json) :=
  if nAddrs ≤ remainingTopics.length then
    (mapGet data "token_id").bind fun tokenId =>
      if looksLikeTokenId tokenId then
        (collectAddresses (remainingTopics.take nAddrs)).map (·, tokenId)
      else none
  else none

/-- The addresses and the token id of an event, in the first layout that fits. -/
def extractArgs (remainingTopics : List Json) (data : Json) (nAddrs : ℕ) :
    Option (List String × Json) :=
  (argsInTopics remainingTopics data nAddrs).or
    ((argsPacked data nAddrs).or (argsWithMap remainingTopics data nAddrs))

/-! ## One event -/

/-- The NFT event of given ends. -/
def nftEvent (contractId : String) (event : ExtractedEvent) (eventKind : NftEventKind)
    (tokenId : Json) (sender recipient : Option String) : NftEvent where
  transactionHash := event.transactionHash
  contractId
  eventKind
  tokenId
  sender
  recipient
  createdAt := event.createdAt
  eventId := event.eventId

def tryParseTransfer (contractId : String) (remainingTopics : List Json) (data : Json)
    (event : ExtractedEvent) : Option NftEvent := do
  let (addrs, tokenId) ← extractArgs remainingTopics data 2
  some (nftEvent contractId event .transfer tokenId addrs[0]? addrs[1]?)

def tryParseMint (contractId : String) (remainingTopics : List Json) (data : Json)
    (event : ExtractedEvent) : Option NftEvent := do
  let (addrs, tokenId) ← extractArgs remainingTopics data 1
  some (nftEvent contractId event .mint tokenId none addrs[0]?)

def tryParseBurn (contractId : String) (remainingTopics : List Json) (data : Json)
    (event : ExtractedEvent) : Option NftEvent := do
  let (addrs, tokenId) ← extractArgs remainingTopics data 1
  some (nftEvent contractId event .burn tokenId addrs[0]? none)

/-- Most tokens one `consecutive_mint` may stand for. -/
def maxConsecutiveRange : ℕ := 65535

/-- An unsigned bound of a range of token ids. -/
def rangeBound (value : Json) : Option ℕ := do
  let typeName ← (value.get? "type").bind Json.asStr
  if typeName = "u32" ∨ typeName = "u64" then (value.get? "value").bind Json.asU64 else none

/-- The bounds of a consecutive mint, from a vector or a map. -/
def consecutiveBounds (data : Json) : Option (Json × Json) :=
  match dataVecElements data with
  | some elems => do
      let low ← elems[0]?
      let high ← elems[1]?
      some (low, high)
  | none => do
      let low ← mapGet data "from_token_id"
      let high ← mapGet data "to_token_id"
      some (low, high)

/-- One mint for every token id of a range. -/
def tryParseConsecutiveMint (contractId : String) (remainingTopics : List Json) (data : Json)
    (event : ExtractedEvent) : Option (List NftEvent) := do
  let recipient ← remainingTopics.head?.bind topicAddressValue
  let (low, high) ← consecutiveBounds data
  let low ← rangeBound low
  let high ← rangeBound high
  if high < low ∨ maxConsecutiveRange ≤ high - low then none
  else some ((List.range' low (high - low + 1)).map fun id =>
    nftEvent contractId event .mint (typedJson "u64" (.num id)) none (some recipient))

variable [Crates]

/-- The NFT events of one event; empty if it is none or has no known layout. -/
def nftEventsOf (netId : Hash) (event : ExtractedEvent) : List NftEvent :=
  match event.body.contractId, event.body.topics.asArray with
  | some contractId, some (verb :: remaining) =>
      if event.body.eventType ≠ .contract ∨
          (sacOverrideFromEventTopics contractId event.body.topics netId).isSome then []
      else
        let kind := toAsciiLowercase (topicSymbolValue verb)
        let data := event.body.data
        if kind = "consecutive_mint" then
          (tryParseConsecutiveMint contractId remaining data event).getD []
        else if kind = "transfer" then (tryParseTransfer contractId remaining data event).toList
        else if kind = "mint" then (tryParseMint contractId remaining data event).toList
        else if kind = "burn" then (tryParseBurn contractId remaining data event).toList
        else []
  | _, _ => []

def detectNftEvents (events : List ExtractedEvent) (netId : Hash) : List NftEvent :=
  events.flatMap (nftEventsOf netId)

end SorobanExplorer
