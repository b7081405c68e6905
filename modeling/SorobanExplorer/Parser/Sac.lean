import SorobanExplorer.Parser.EventFilters
import SorobanExplorer.Parser.LedgerEntryChanges

/-!
# Asset contracts

The contract of an asset has an id derived from the asset alone, so whether a
contract speaks for an asset is a comparison of ids.
-/

namespace SorobanExplorer

open Text

/-- The asset an asset contract wraps. -/
inductive SacAssetIdentity
  | native
  | credit (code issuer : String)
  deriving DecidableEq

/-- A contract proven to be its asset's. -/
structure SacOverride where
  contractId : String
  identity : SacAssetIdentity
  deriving DecidableEq

/-- A credit asset by its code, padded with zeros to the slot that fits it. -/
def buildCreditAsset (code : String) (issuer : AccountId) : Option Asset :=
  let bytes := asBytes code
  if h : bytes.length ≤ 4 then
    some (.creditAlphanum4
      ⟨bytes ++ List.replicate (4 - bytes.length) 0, by simp; omega⟩ issuer)
  else if h : bytes.length ≤ 12 then
    some (.creditAlphanum12
      ⟨bytes ++ List.replicate (12 - bytes.length) 0, by simp; omega⟩ issuer)
  else none

/-- Topic signatures of the events an asset contract emits. -/
def sacControlEventSignatures : List String :=
  ["transfer", "mint", "burn", "clawback", "set_authorized"]

/-- A symbol topic's text; empty for any other topic. -/
def topicSymbolValue (topic : Json) : String :=
  if (topic.get? "type").bind Json.asStr = some "sym" then
    ((topic.get? "value").bind Json.asStr).getD ""
  else ""

/-- A non-empty string topic's text. -/
def topicStringValue (topic : Json) : Option String :=
  if (topic.get? "type").bind Json.asStr = some "string" then
    ((topic.get? "value").bind Json.asStr).filter (· ≠ "")
  else none

variable [Crates]

def deriveSacContractId (preimage : ContractIdPreimage) (networkId : Hash) : String :=
  Crates.scAddressStrkey (.contract (Crates.contractIdHash networkId preimage))

/-- The contract of an asset by its code and issuer; both empty means the native
asset. -/
def deriveSacStrkey (assetCode issuer : String) (networkId : Hash) : Option String := do
  let asset ← if assetCode = "" ∧ issuer = "" then some .native
    else do buildCreditAsset assetCode (← Crates.accountFromStr issuer)
  some (deriveSacContractId (.asset asset) networkId)

/-- An asset by its text, `native` or `CODE:ISSUER`. -/
def parseSacAssetString (text : String) : Option Asset :=
  if text = "native" then some .native
  else do
    let (code, issuer) ← splitOnceColon text
    guard (code ≠ "")
    buildCreditAsset code (← Crates.accountFromStr issuer)

def assetToIdentity : Asset → SacAssetIdentity
  | .native => .native
  | .creditAlphanum4 code issuer =>
      .credit (assetCodeStr code.bytes) (Crates.accountStrkey issuer)
  | .creditAlphanum12 code issuer =>
      .credit (assetCodeStr code.bytes) (Crates.accountStrkey issuer)

/-- The asset in the last topic, if the emitter is its contract. -/
def sacOverrideFromEventTopics (emitter : String) (topics : Json) (netId : Hash) :
    Option SacOverride := do
  let topics ← topics.asArray
  guard (2 ≤ topics.length)
  let signature := topicSymbolValue (← topics.head?)
  guard (sacControlEventSignatures.any (eqIgnoreAsciiCase signature ·))
  let assetText ← topics.getLast?.bind topicStringValue
  let asset ← parseSacAssetString assetText
  let derived := deriveSacContractId (.asset asset) netId
  guard (derived = emitter)
  some ⟨derived, assetToIdentity asset⟩

/-- The asset an instance names in its metadata, if the contract is that
asset's. -/
def sacIdentityFromInstance (contractId : String) (inst : Json) (networkId : Hash) :
    Option SacAssetIdentity := do
  let storage ← (← (← typed inst "contract_instance").get? "storage").asArray
  let metadata ← storage.find? fun entry => (entry.get? "key").bind symbolOf = some "METADATA"
  let name ← typedStr (← mapGet (← metadata.get? "value") "name") "string"
  let asset ← parseSacAssetString name
  let derived := deriveSacContractId (.asset asset) networkId
  guard (derived = contractId)
  some (assetToIdentity asset)

end SorobanExplorer
