import SorobanExplorer.Lib.Decimal
import SorobanExplorer.Parser.ScVal

/-!
# Token events

Decoding the topics of a token event: the verb, the addresses it moves between,
and the asset named after them.
-/

namespace SorobanExplorer

open Text

/-- The asset a token event names.  `bespoke` is named by nothing but the
emitting contract. -/
inductive EventAsset
  | native
  | credit (code issuer : String)
  | bespoke
  deriving DecidableEq

inductive TokenEventKind
  | transfer
  | mint
  | burn
  | clawback
  deriving DecidableEq

structure TokenEvent where
  kind : TokenEventKind
  /-- Nothing for a mint. -/
  sender : Option String
  /-- Nothing for a burn and a clawback. -/
  recipient : Option String
  asset : EventAsset
  deriving DecidableEq

/-- The verb in the first topic, whether or not the other topics decode. -/
def tokenVerb (topics : Json) : Option TokenEventKind := do
  let verb ← (← topics.asArray).head?
  guard ((← (verb.get? "type").bind Json.asStr) = "sym")
  let sym ← (verb.get? "value").bind Json.asStr
  if eqIgnoreAsciiCase sym "transfer" then some .transfer
  else if eqIgnoreAsciiCase sym "mint" then some .mint
  else if eqIgnoreAsciiCase sym "burn" then some .burn
  else if eqIgnoreAsciiCase sym "clawback" then some .clawback
  else none

/-- The one address operand of `mint` and `clawback`, and where its asset
follows.  A second address selects the shape that names an admin first. -/
def operandAfterOptionalAdmin (topics : List Json) : Option (String × ℕ) := do
  let first ← addressOf (← topics[1]?)
  match topics[2]?.bind addressOf with
  | some operand => some (operand, 3)
  | none => some (first, 2)

/-- A text split at its first colon. -/
def splitOnceColon (text : String) : Option (String × String) :=
  (splitOnce ':' text.toList).map fun (before, after) => (.ofList before, .ofList after)

/-- The asset a topic names: absent or malformed means a bespoke token. -/
def eventAsset (topic : Option Json) : EventAsset :=
  match topic.bind (typedStr · "string") with
  | none => .bespoke
  | some text =>
      if text = "native" then .native
      else match splitOnceColon text with
        | some (code, issuer) => if code ≠ "" ∧ issuer ≠ "" then .credit code issuer else .bespoke
        | none => .bespoke

/-- The two ends of a token event, and where its asset follows. -/
def tokenOperands (topics : List Json) :
    TokenEventKind → Option (Option String × Option String × ℕ)
  | .transfer => do
      let sender ← addressOf (← topics[1]?)
      let recipient ← addressOf (← topics[2]?)
      some (some sender, some recipient, 3)
  | .mint => do
      let (recipient, assetIdx) ← operandAfterOptionalAdmin topics
      some (none, some recipient, assetIdx)
  | .burn => do
      let sender ← addressOf (← topics[1]?)
      some (some sender, none, 2)
  | .clawback => do
      let (sender, assetIdx) ← operandAfterOptionalAdmin topics
      some (some sender, none, assetIdx)

/-- A token event in one of the known topic shapes. -/
def parseTokenEvent (topics : Json) : Option TokenEvent := do
  let elements ← topics.asArray
  let kind ← tokenVerb topics
  let (sender, recipient, assetIdx) ← tokenOperands elements kind
  some ⟨kind, sender, recipient, eventAsset elements[assetIdx]?⟩

end SorobanExplorer
