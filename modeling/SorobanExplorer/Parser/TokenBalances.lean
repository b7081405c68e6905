import Mathlib.Data.Option.Basic
import SorobanExplorer.Lib.Decimal
import SorobanExplorer.Parser.Deployments

/-!
# Token balances of contracts

What a transaction's changes say of the balances token contracts keep for their
holders: a persistent entry under `[Balance, holder]`, whose value is an integer
or the struct of an asset contract.
-/

namespace SorobanExplorer

open Text

structure ExtractedSorobanBalance where
  contractId : String
  holder : String
  balance : ℤ
  ledger : UInt32
  closed : Bool
  deriving DecidableEq

/-- The contract in a contract data entry's key. -/
def extractContractIdFromKey (key : Json) : Option String :=
  ((key.get? "contract").bind Json.asStr).filter (· ≠ "")

/-- The holder in the key of a persistent entry `[Balance, holder]`. -/
def State.balanceKeyHolder (key : Json) : Option String := do
  guard ((← (← key.get? "durability").asStr) = "persistent")
  let inner ← key.get? "key"
  guard ((← (← inner.get? "type").asStr) = "vec")
  match ← (← inner.get? "value").asArray with
  | [tag, holder] =>
      guard ((← (← tag.get? "type").asStr) = "sym")
      guard ((← (← tag.get? "value").asStr) = "Balance")
      guard ((← (← holder.get? "type").asStr) = "address")
      (← holder.get? "value").asStr
  | _ => none

/-- A value that is an integer by itself. -/
def decodeScvalI128 (data : Json) : Option ℤ := do
  let val ← data.get? "val"
  guard ((← (← val.get? "type").asStr) = "i128")
  (parseI128 (← (← val.get? "value").asStr).toList).toOption

/-- What an asset contract keeps for a holder. -/
structure SacBalanceValue where
  amount : ℤ
  authorized : Bool
  clawback : Bool

/-- The fields of such a struct, as far as they are read. -/
structure SacBalanceFields where
  amount : Option ℤ
  authorized : Option Bool
  clawback : Option Bool

/-- Read one entry of the struct; an entry that is no field of it ends the reading. -/
def decodeSacBalanceField (fields : SacBalanceFields) (entry : Json) : Option SacBalanceFields := do
  let key ← entry.get? "key"
  guard ((← (← key.get? "type").asStr) = "sym")
  let field ← entry.get? "value"
  let name ← (← key.get? "value").asStr
  if name = "amount" then
    guard ((← (← field.get? "type").asStr) = "i128")
    let amount ← (parseI128 (← (← field.get? "value").asStr).toList).toOption
    some { fields with amount := some amount }
  else if name = "authorized" then
    some { fields with authorized := (← field.get? "value").asBool }
  else if name = "clawback" then
    some { fields with clawback := (← field.get? "value").asBool }
  else none

def decodeSacBalanceValue (data : Json) : Option SacBalanceValue := do
  let val ← data.get? "val"
  guard ((← (← val.get? "type").asStr) = "map")
  let entries ← (← val.get? "value").asArray
  let fields ← entries.foldlM decodeSacBalanceField ⟨none, none, none⟩
  some
    { amount := ← fields.amount
      authorized := ← fields.authorized
      clawback := ← fields.clawback }

/-- The balance a change leaves, and whether it removed the entry.  A `state`
image leaves none: it is the balance before a change. -/
def sorobanBalanceLeft (change : ExtractedLedgerEntryChange) : Option (ℤ × Bool) :=
  if change.changeType = "removed" then some (0, true)
  else if change.changeType ∈ ["created", "updated", "restored"] then
    change.data.bind fun data =>
      ((decodeScvalI128 data).or ((decodeSacBalanceValue data).map (·.amount))).map (·, false)
  else none

def sorobanTokenBalance (change : ExtractedLedgerEntryChange) : Option ExtractedSorobanBalance := do
  guard (change.entryType = "contract_data")
  let holder ← State.balanceKeyHolder change.key
  let contractId ← extractContractIdFromKey change.key
  let left ← sorobanBalanceLeft change
  some
    { contractId, holder, balance := left.1, ledger := change.ledgerSequence, closed := left.2 }

/-- The token balances a transaction's changes leave, in their order. -/
def extractSorobanTokenBalances (changes : List ExtractedLedgerEntryChange) :
    List ExtractedSorobanBalance :=
  changes.filterMap sorobanTokenBalance

end SorobanExplorer
