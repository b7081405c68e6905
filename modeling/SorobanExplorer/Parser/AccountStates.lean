import SorobanExplorer.Lib.KeyedFold
import SorobanExplorer.Parser.LedgerEntryChanges
import SorobanExplorer.Persist.Amount

/-!
# Account states

One transaction's account and trustline changes, merged by account: the native
balance and the account's own facts from a first pass over the `account`
entries, the credit balances from a second pass over the `trustline` entries.
-/

namespace SorobanExplorer

open KeyedFold

/-- What is known of one account while its changes are merged. -/
structure AccountAccum where
  nativeBalance : Option ℤ := none
  sequenceNumber : Option ℤ := none
  homeDomain : Option String := none
  isCreation : Bool := false
  ledgerSequence : UInt32
  createdAt : ℤ
  trustlineBalances : List Json := []
  removedTrustlines : List Json := []
  /-- Set by a removed account entry, cleared by a later live one. -/
  accountRemoved : Bool := false
  /-- Seen only on an account entry; the complete list. -/
  signers : Option (List Json) := none
  thresholds : Option String := none
  flags : Option UInt32 := none
  numSponsoring : Option UInt32 := none
  numSponsored : Option UInt32 := none
  deriving DecidableEq

structure ExtractedAccountState where
  accountId : String
  firstSeenLedger : Option UInt32
  lastSeenLedger : UInt32
  /-- -1 when no account entry was seen. -/
  sequenceNumber : ℤ
  balances : Json
  removedTrustlines : List Json
  accountRemoved : Bool
  signers : Option (List Json)
  thresholds : Option String
  flags : Option UInt32
  numSponsoring : Option UInt32
  numSponsored : Option UInt32
  homeDomain : Option String
  createdAt : ℤ
  deriving DecidableEq

/-- A text field, empty when it is missing. -/
def Json.strField (value : Json) (key : String) : String :=
  ((value.get? key).bind Json.asStr).getD ""

/-- A signed number field, 0 when it is missing. -/
def Json.i64Field (value : Json) (key : String) : ℤ :=
  ((value.get? key).bind Json.asI64).getD 0

/-- A number field cut to 32 bits. -/
def Json.u32Field (value : Json) (key : String) : Option UInt32 :=
  ((value.get? key).bind Json.asU64).map UInt32.ofNat

/-- A change that carries the entry's value. -/
def ExtractedLedgerEntryChange.isLive (change : ExtractedLedgerEntryChange) : Bool :=
  change.changeType == "created" || change.changeType == "updated" ||
    change.changeType == "restored"

/-- The accumulator of a change's account, fresh if the account is new. -/
def AccountAccum.orFresh (held : Option AccountAccum) (change : ExtractedLedgerEntryChange) :
    AccountAccum :=
  held.getD { ledgerSequence := change.ledgerSequence, createdAt := change.createdAt }

/-! ## Account entries -/

/-- A removed account leaves a zero native balance. -/
def AccountAccum.removeAccount (change : ExtractedLedgerEntryChange)
    (held : Option AccountAccum) : AccountAccum :=
  { AccountAccum.orFresh held change with
    nativeBalance := some 0
    accountRemoved := true
    ledgerSequence := change.ledgerSequence
    createdAt := change.createdAt }

/-- A live entry's values replace the ones held.  An empty home domain replaces
nothing. -/
def AccountAccum.setAccount (change : ExtractedLedgerEntryChange) (data : Json)
    (held : Option AccountAccum) : AccountAccum :=
  let entry := AccountAccum.orFresh held change
  let homeDomain := ((data.get? "home_domain").bind Json.asStr).filter (· ≠ "")
  { entry with
    nativeBalance := some (data.i64Field "balance")
    sequenceNumber := some (data.i64Field "seq_num")
    homeDomain := homeDomain.or entry.homeDomain
    accountRemoved := false
    signers := some (((data.get? "signers").bind Json.asArray).getD [])
    thresholds := (data.get? "thresholds").bind Json.asStr
    flags := data.u32Field "flags"
    numSponsoring := data.u32Field "num_sponsoring"
    numSponsored := data.u32Field "num_sponsored"
    isCreation := entry.isCreation || change.changeType == "created" ||
      change.changeType == "restored"
    ledgerSequence := change.ledgerSequence
    createdAt := change.createdAt }

/-- What one change does in the first pass. -/
def accountUpdate (change : ExtractedLedgerEntryChange) : Option (Update String AccountAccum) :=
  if change.entryType ≠ "account" then none
  else if change.changeType = "removed" then
    let accountId := change.key.strField "account_id"
    if accountId = "" then none
    else some ⟨accountId, AccountAccum.removeAccount change⟩
  else if change.isLive = false then none
  else
    match change.data with
    | none => none
    | some data =>
        let accountId := data.strField "account_id"
        if accountId = "" then none
        else some ⟨accountId, AccountAccum.setAccount change data⟩

/-! ## Trustline entries -/

/-- Type, code and issuer of a trustline's asset; pool shares and the native
asset have none. -/
def creditAsset (asset : Option Json) : Option (String × String × String) :=
  match asset with
  | some (.obj fields) =>
      let assetType := (((Json.obj fields).get? "type").bind Json.asStr).getD "unknown"
      if assetType = "pool_share" then none
      else some (assetType, (Json.obj fields).strField "code", (Json.obj fields).strField "issuer")
  | _ => none

/-- Whether two trustline records are of one asset. -/
def sameAsset (first second : Json) : Bool :=
  first.get? "asset_code" == second.get? "asset_code" &&
    first.get? "issuer" == second.get? "issuer"

def trustlineJson (asset : String × String × String) (balance : Option ℤ) : Json :=
  .obj ([("asset_type", .str asset.1), ("asset_code", .str asset.2.1), ("issuer", .str asset.2.2)] ++
    (balance.map fun balance => ("balance", Json.str (formatStroops balance))).toList)

/-- Move the accumulator to a change's ledger, never back. -/
def AccountAccum.touch (change : ExtractedLedgerEntryChange) (entry : AccountAccum) :
    AccountAccum :=
  if entry.ledgerSequence ≤ change.ledgerSequence then
    { entry with ledgerSequence := change.ledgerSequence, createdAt := change.createdAt }
  else entry

/-- A live trustline replaces what was known of its asset, a removal included. -/
def AccountAccum.setTrustline (change : ExtractedLedgerEntryChange) (trustline : Json)
    (held : Option AccountAccum) : AccountAccum :=
  let entry := AccountAccum.orFresh held change
  AccountAccum.touch change
    { entry with
      trustlineBalances :=
        entry.trustlineBalances.filter (fun other => !sameAsset other trustline) ++ [trustline]
      removedTrustlines :=
        entry.removedTrustlines.filter fun other => !sameAsset other trustline }

/-- A removed trustline drops the balance of its asset. -/
def AccountAccum.removeTrustline (change : ExtractedLedgerEntryChange) (removal : Json)
    (held : Option AccountAccum) : AccountAccum :=
  let entry := AccountAccum.orFresh held change
  AccountAccum.touch change
    { entry with
      trustlineBalances := entry.trustlineBalances.filter fun other => !sameAsset other removal
      removedTrustlines := entry.removedTrustlines ++ [removal] }

/-- What one change does in the second pass. -/
def trustlineUpdate (change : ExtractedLedgerEntryChange) : Option (Update String AccountAccum) :=
  if change.entryType ≠ "trustline" then none
  else if change.isLive then
    match change.data with
    | none => none
    | some data =>
        let accountId := data.strField "account_id"
        if accountId = "" then none
        else
          (creditAsset (data.get? "asset")).map fun asset =>
            ⟨accountId, AccountAccum.setTrustline change
              (trustlineJson asset (some (data.i64Field "balance")))⟩
  else if change.changeType = "removed" then
    let accountId := change.key.strField "account_id"
    if accountId = "" then none
    else
      (creditAsset (change.key.get? "asset")).map fun asset =>
        ⟨accountId, AccountAccum.removeTrustline change (trustlineJson asset none)⟩
  else none

/-! ## Extraction -/

/-- The accumulators after both passes. -/
def accountAccums (changes : List ExtractedLedgerEntryChange) : Table String AccountAccum :=
  runAll (changes.filterMap accountUpdate ++ changes.filterMap trustlineUpdate) ∅

/-- The state of one account: the native balance first, then the credit ones. -/
def accountState (accountId : String) (accum : AccountAccum) : ExtractedAccountState where
  accountId
  firstSeenLedger := if accum.isCreation then some accum.ledgerSequence else none
  lastSeenLedger := accum.ledgerSequence
  sequenceNumber := accum.sequenceNumber.getD (-1)
  balances := .arr ((accum.nativeBalance.map fun native =>
    Json.obj [("asset_type", .str "native"), ("balance", .str (formatStroops native))]).toList ++
      accum.trustlineBalances)
  removedTrustlines := accum.removedTrustlines
  accountRemoved := accum.accountRemoved
  signers := accum.signers
  thresholds := accum.thresholds
  flags := accum.flags
  numSponsoring := accum.numSponsoring
  numSponsored := accum.numSponsored
  homeDomain := accum.homeDomain
  createdAt := accum.createdAt

/-- At most one state per account; in which order, the hash map decides. -/
def extractAccountStates (order : DrainOrder ExtractedAccountState)
    (changes : List ExtractedLedgerEntryChange) : List ExtractedAccountState :=
  order.drain ((accountAccums changes).entries.map fun entry => accountState entry.1 entry.2)

end SorobanExplorer
