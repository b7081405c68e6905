import SorobanExplorer.Parser.AccountStates
import SorobanExplorer.Persist.Ids

/-!
# Balance rows of account states

Staging turns every account state into rows keyed by holder and asset, the live
balances of a state before its removed trustlines, and folds them so that the
newest row of a key stays.
-/

namespace SorobanExplorer

open KeyedFold Persist

structure BalanceRow where
  holderId : Int64
  assetId : Int64
  amount : ℤ
  lastUpdatedLedger : ℤ
  /-- 0 while the holding is live, otherwise the ledger that closed it. -/
  closedAtLedger : ℤ
  deriving DecidableEq, Repr

inductive AssetType
  | native
  | creditAlphanum4
  | creditAlphanum12
  | poolShare
  deriving DecidableEq, Repr

namespace AssetType

def variants : List AssetType := [.native, .creditAlphanum4, .creditAlphanum12, .poolShare]

def asStr : AssetType → String
  | .native => "native"
  | .creditAlphanum4 => "credit_alphanum4"
  | .creditAlphanum12 => "credit_alphanum12"
  | .poolShare => "pool_share"

def fromStr (s : String) : Option AssetType :=
  variants.find? (·.asStr == s)

/-- The stored number of an asset type. -/
def toI16 : AssetType → Int16
  | .native => 0
  | .creditAlphanum4 => 1
  | .creditAlphanum12 => 2
  | .poolShare => 3

end AssetType

variable [Crates]

/-- The row of one live balance of a state; an unknown asset type, or a credit
asset without code or issuer, has none. -/
def liveBalanceRow (state : ExtractedAccountState) (balance : Json) :
    Except SchemaError (Option BalanceRow) :=
  match ((balance.get? "asset_type").bind Json.asStr).bind AssetType.fromStr with
  | none => .ok none
  | some assetType => do
      let amount ← decimal7StringToI128 (((balance.get? "balance").bind Json.asStr).getD "0")
      let code := balance.strField "asset_code"
      let issuer := balance.strField "issuer"
      let watermark : ℤ := state.lastSeenLedger.toNat
      if assetType = .native then
        return some
          { holderId := Ids.accountId state.accountId, assetId := Ids.nativeAssetId, amount,
            lastUpdatedLedger := watermark,
            closedAtLedger := if state.accountRemoved then watermark else 0 }
      else if code = "" ∨ issuer = "" then
        return none
      else
        return some
          { holderId := Ids.accountId state.accountId, assetId := Ids.creditAssetId code issuer,
            amount, lastUpdatedLedger := watermark, closedAtLedger := 0 }

/-- The row of one removed trustline of a state. -/
def removedTrustlineRow (state : ExtractedAccountState) (removal : Json) : Option BalanceRow :=
  let code := removal.strField "asset_code"
  let issuer := removal.strField "issuer"
  if code = "" ∨ issuer = "" then none
  else some
    { holderId := Ids.accountId state.accountId, assetId := Ids.creditAssetId code issuer,
      amount := 0, lastUpdatedLedger := state.lastSeenLedger.toNat,
      closedAtLedger := state.lastSeenLedger.toNat }

/-- The rows of one state, in the order they are upserted. -/
def accountStateRows (state : ExtractedAccountState) : Except SchemaError (List BalanceRow) := do
  let live ← (state.balances.asArray.getD []).mapM (liveBalanceRow state)
  return live.reduceOption ++ state.removedTrustlines.filterMap (removedTrustlineRow state)

/-- Replace the row of a key unless the one held is newer. -/
def upsertBalance (row : BalanceRow) : Update (Int64 × Int64) BalanceRow where
  key := (row.holderId, row.assetId)
  apply
    | none => row
    | some held => if held.lastUpdatedLedger ≤ row.lastUpdatedLedger then row else held

/-- The `balances` rows of a ledger's account states. -/
def accountBalanceRows (states : List ExtractedAccountState) :
    Except SchemaError (List BalanceRow) := do
  let rows ← states.mapM accountStateRows
  return values (runAll (rows.flatten.map upsertBalance) ∅)

/-- The account states of a ledger, transaction by transaction. -/
def ledgerAccountStates (orders : ℕ → DrainOrder ExtractedAccountState)
    (changes : List (List ExtractedLedgerEntryChange)) : List ExtractedAccountState :=
  changes.zipIdx.flatMap fun (changes, i) => extractAccountStates (orders i) changes

end SorobanExplorer
