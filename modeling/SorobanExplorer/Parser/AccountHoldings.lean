import SorobanExplorer.Parser.Holdings
import SorobanExplorer.Parser.AccountStates

/-!
# What a transaction leaves of an account

The accumulator of an account, read as the holdings it stands for: for each
asset the last thing a change of the transaction said of it.

## Strategy

* `AccountHoldings` is the accumulator without its JSON: the native closing, the
  live credits and the removed ones.
* `Reflects` relates the two; `updates_simulate_change` carries it through one
  change, pass by pass, and `accountAccums_reflects` through the transaction.
* `closing_history` reads an account's holdings off the changes.
-/

namespace SorobanExplorer

open KeyedFold Persist Text

/-! ## Holdings of one account -/

inductive CreditKind
  | alphanum4
  | alphanum12
  deriving DecidableEq

def CreditKind.name : CreditKind → String
  | .alphanum4 => "credit_alphanum4"
  | .alphanum12 => "credit_alphanum12"

/-- A credit asset as a trustline names it. -/
structure Credit where
  kind : CreditKind
  code : String
  issuer : String
  deriving DecidableEq

def Credit.asset (credit : Credit) : HeldAsset String :=
  .credit credit.code credit.issuer

def Credit.json (credit : Credit) (balance : Option ℤ) : Json :=
  trustlineJson (credit.kind.name, credit.code, credit.issuer) balance

theorem Credit.asset_ne_native (credit : Credit) : credit.asset ≠ .native := by
  simp [Credit.asset]

/-- What one transaction leaves of one account. -/
structure AccountHoldings where
  native : Option Closing := none
  live : List (Credit × Int64) := []
  gone : List Credit := []

namespace AccountHoldings

def setNative (closing : Closing) (held : Option AccountHoldings) : AccountHoldings :=
  { held.getD {} with native := some closing }

def setCredit (credit : Credit) (closing : Closing) (held : Option AccountHoldings) :
    AccountHoldings :=
  let holdings := held.getD {}
  match closing with
  | .live balance =>
      { holdings with
        live := holdings.live.filter (fun other => other.1.asset ≠ credit.asset) ++
          [(credit, balance)]
        gone := holdings.gone.filter fun other => other.asset ≠ credit.asset }
  | .removed =>
      { holdings with
        live := holdings.live.filter fun other => other.1.asset ≠ credit.asset
        gone := holdings.gone ++ [credit] }

/-- What is known of an asset: a removal outweighs a balance. -/
def closing (holdings : AccountHoldings) : HeldAsset String → Option Closing
  | .native => holdings.native
  | asset =>
      if holdings.gone.filter (·.asset = asset) = [] then
        ((holdings.live.filter (·.1.asset = asset)).getLast?).map fun entry => .live entry.2
      else some .removed

theorem closing_of_ne_native (holdings : AccountHoldings) {asset : HeldAsset String}
    (h : asset ≠ .native) :
    holdings.closing asset =
      if holdings.gone.filter (·.asset = asset) = [] then
        ((holdings.live.filter (·.1.asset = asset)).getLast?).map fun entry => .live entry.2
      else some .removed := by
  cases asset with
  | native => exact absurd rfl h
  | credit code issuer => rfl

theorem closing_of_mem_gone {holdings : AccountHoldings} {credit : Credit}
    (h : credit ∈ holdings.gone) : holdings.closing credit.asset ≠ none := by
  have hne : holdings.gone.filter (·.asset = credit.asset) ≠ [] :=
    List.ne_nil_of_mem (List.mem_filter.mpr ⟨h, by simp⟩)
  simp [holdings.closing_of_ne_native credit.asset_ne_native, hne]

theorem closing_of_mem_live {holdings : AccountHoldings} {entry : Credit × Int64}
    (h : entry ∈ holdings.live) : holdings.closing entry.1.asset ≠ none := by
  have hne : holdings.live.filter (·.1.asset = entry.1.asset) ≠ [] :=
    List.ne_nil_of_mem (List.mem_filter.mpr ⟨h, by simp⟩)
  rw [holdings.closing_of_ne_native entry.1.asset_ne_native]
  split
  · rwa [ne_eq, Option.map_eq_none_iff, List.getLast?_eq_none_iff]
  · simp

/-- The same, of holdings that may not exist. -/
def closing? (asset : HeldAsset String) (holdings : Option AccountHoldings) : Option Closing :=
  holdings.bind (·.closing asset)

theorem closing_setNative (asset : HeldAsset String) (closing : Closing)
    (held : Option AccountHoldings) :
    (setNative closing held).closing asset =
      if asset = .native then some closing else closing? asset held := by
  cases asset <;> cases held <;> simp [setNative, AccountHoldings.closing, closing?]

private theorem filter_of_ne {α : Type} (assetOf : α → HeldAsset String)
    {asset dropped : HeldAsset String} (h : asset ≠ dropped) (l : List α) :
    (l.filter fun x => assetOf x ≠ dropped).filter (fun x => assetOf x = asset) =
      l.filter fun x => assetOf x = asset := by
  rw [List.filter_filter]
  apply List.filter_congr
  intro x _
  by_cases hx : assetOf x = asset <;> simp [hx, h]

theorem closing_setCredit (asset : HeldAsset String) (credit : Credit) (closing : Closing)
    (held : Option AccountHoldings) :
    (setCredit credit closing held).closing asset =
      if asset = credit.asset then some closing else closing? asset held := by
  have hheld : closing? asset held = (held.getD {}).closing asset := by
    cases held <;> cases asset <;> rfl
  rw [hheld]
  cases asset with
  | native => cases closing <;> simp [setCredit, AccountHoldings.closing, Credit.asset]
  | credit code issuer =>
      by_cases hasset : HeldAsset.credit code issuer = credit.asset
      · rw [if_pos hasset]
        cases closing <;> simp [setCredit, AccountHoldings.closing, hasset]
      · rw [if_neg hasset]
        cases closing with
        | live balance =>
            simp only [setCredit, AccountHoldings.closing, List.filter_append]
            rw [filter_of_ne Credit.asset hasset,
              filter_of_ne (fun entry : Credit × Int64 => entry.1.asset) hasset]
            simp [Ne.symm hasset]
        | removed =>
            simp only [setCredit, AccountHoldings.closing, List.filter_append]
            rw [filter_of_ne (fun entry : Credit × Int64 => entry.1.asset) hasset]
            simp [Ne.symm hasset]

end AccountHoldings

/-! ## Reading the changes -/

section

variable [Crates]

/-- The asset of a trustline as its JSON names it. -/
def TrustLineAsset.credit : TrustLineAsset → Option Credit
  | .native | .poolShare _ => none
  | .creditAlphanum4 code issuer =>
      some ⟨.alphanum4, assetCodeStr code.bytes, Crates.accountStrkey issuer⟩
  | .creditAlphanum12 code issuer =>
      some ⟨.alphanum12, assetCodeStr code.bytes, Crates.accountStrkey issuer⟩

/-- An update of an account's holdings, unless the account's address is empty. -/
def holdingsUpdate (accountId : AccountId)
    (apply : Option AccountHoldings → AccountHoldings) : Option (Update String AccountHoldings) :=
  if Crates.accountStrkey accountId = "" then none
  else some ⟨Crates.accountStrkey accountId, apply⟩

/-- What an account entry left as `closing` does. -/
def LedgerEntryData.accountEffect : LedgerEntryData → Option (Update String AccountHoldings)
  | .account entry =>
      holdingsUpdate entry.accountId (AccountHoldings.setNative (.live entry.balance))
  | _ => none

def LedgerKey.accountEffect : LedgerKey → Option (Update String AccountHoldings)
  | .account accountId => holdingsUpdate accountId (AccountHoldings.setNative .removed)
  | _ => none

def LedgerEntryData.trustlineEffect : LedgerEntryData → Option (Update String AccountHoldings)
  | .trustline entry => entry.asset.credit.bind fun credit =>
      holdingsUpdate entry.accountId (AccountHoldings.setCredit credit (.live entry.balance))
  | _ => none

def LedgerKey.trustlineEffect : LedgerKey → Option (Update String AccountHoldings)
  | .trustline accountId asset => asset.credit.bind fun credit =>
      holdingsUpdate accountId (AccountHoldings.setCredit credit .removed)
  | _ => none

/-- What a change does, by what its entry does and what its key does. -/
def LedgerEntryChange.effect {α : Type} (ofData : LedgerEntryData → Option α)
    (ofKey : LedgerKey → Option α) : LedgerEntryChange → Option α
  | .created entry | .updated entry | .restored entry => ofData entry.data
  | .removed key => ofKey key
  | .state _ => none

def accountEffect : LedgerEntryChange → Option (Update String AccountHoldings) :=
  LedgerEntryChange.effect LedgerEntryData.accountEffect LedgerKey.accountEffect

def trustlineEffect : LedgerEntryChange → Option (Update String AccountHoldings) :=
  LedgerEntryChange.effect LedgerEntryData.trustlineEffect LedgerKey.trustlineEffect

end

/-! ## Accumulators reflect holdings -/

/-- An accumulator and the holdings it was built from. -/
structure Reflects (ledgerSequence : UInt32) (accum : AccountAccum) (holdings : AccountHoldings) :
    Prop where
  ledgerSequence_eq : accum.ledgerSequence = ledgerSequence
  nativeBalance_eq : accum.nativeBalance = holdings.native.map Closing.balance
  accountRemoved_eq : accum.accountRemoved = decide (holdings.native = some .removed)
  trustlineBalances_eq : accum.trustlineBalances =
    holdings.live.map fun entry => entry.1.json (some entry.2.toInt)
  removedTrustlines_eq : accum.removedTrustlines =
    holdings.gone.map fun credit => credit.json none

variable {ledgerSequence : UInt32}

theorem orFresh_reflects {extracted : ExtractedLedgerEntryChange}
    (hseq : extracted.ledgerSequence = ledgerSequence) {held : Option AccountAccum}
    {held' : Option AccountHoldings} (h : Option.Rel (Reflects ledgerSequence) held held') :
    Reflects ledgerSequence (AccountAccum.orFresh held extracted) (held'.getD {}) := by
  cases h with
  | some h => exact h
  | none => exact ⟨hseq, rfl, rfl, rfl, rfl⟩

theorem sameAsset_json (first second : Credit) (balance balance' : Option ℤ) :
    sameAsset (first.json balance) (second.json balance') = decide (first.asset = second.asset) := by
  rw [Bool.eq_iff_iff]
  simp [sameAsset, Credit.json, trustlineJson, Credit.asset]

private theorem filter_json {α : Type} (credit : Credit) (balance : Option ℤ)
    (creditOf : α → Credit) (balanceOf : α → Option ℤ) (l : List α) :
    (l.map fun x => (creditOf x).json (balanceOf x)).filter
        (fun other => !sameAsset other (credit.json balance)) =
      (l.filter fun x => (creditOf x).asset ≠ credit.asset).map
        fun x => (creditOf x).json (balanceOf x) := by
  rw [List.filter_map]
  congr 2
  funext x
  simp [sameAsset_json]

theorem touch_reflects {extracted : ExtractedLedgerEntryChange}
    (hseq : extracted.ledgerSequence = ledgerSequence) {accum : AccountAccum}
    {holdings : AccountHoldings} (h : Reflects ledgerSequence accum holdings) :
    Reflects ledgerSequence (AccountAccum.touch extracted accum) holdings := by
  obtain ⟨hledger, hnative, hremoved, hlive, hgone⟩ := h
  unfold AccountAccum.touch
  split
  · exact ⟨hseq, hnative, hremoved, hlive, hgone⟩
  · exact ⟨hledger, hnative, hremoved, hlive, hgone⟩

theorem setTrustline_reflects {extracted : ExtractedLedgerEntryChange}
    (hseq : extracted.ledgerSequence = ledgerSequence) {held : Option AccountAccum}
    {held' : Option AccountHoldings} (h : Option.Rel (Reflects ledgerSequence) held held')
    (credit : Credit) (balance : Int64) :
    Reflects ledgerSequence
      (AccountAccum.setTrustline extracted (credit.json (some balance.toInt)) held)
      (AccountHoldings.setCredit credit (.live balance) held') := by
  obtain ⟨hledger, hnative, hremoved, hlive, hgone⟩ := orFresh_reflects hseq h
  apply touch_reflects hseq
  constructor
  · exact hledger
  · exact hnative
  · exact hremoved
  · simp only [hlive, AccountHoldings.setCredit, List.map_append]
    rw [filter_json credit _ Prod.fst]
    simp
  · simp only [hgone, AccountHoldings.setCredit]
    rw [filter_json credit _ fun credit => credit]

theorem removeTrustline_reflects {extracted : ExtractedLedgerEntryChange}
    (hseq : extracted.ledgerSequence = ledgerSequence) {held : Option AccountAccum}
    {held' : Option AccountHoldings} (h : Option.Rel (Reflects ledgerSequence) held held')
    (credit : Credit) :
    Reflects ledgerSequence (AccountAccum.removeTrustline extracted (credit.json none) held)
      (AccountHoldings.setCredit credit .removed held') := by
  obtain ⟨hledger, hnative, hremoved, hlive, hgone⟩ := orFresh_reflects hseq h
  apply touch_reflects hseq
  constructor
  · exact hledger
  · exact hnative
  · exact hremoved
  · simp only [hlive, AccountHoldings.setCredit]
    rw [filter_json credit _ Prod.fst]
  · simp [hgone, AccountHoldings.setCredit]

theorem asI64_int64 (n : Int64) : (Json.num n.toInt).asI64 = some n.toInt :=
  Json.asI64_num n.le_toInt n.toInt_lt

theorem removeAccount_reflects {extracted : ExtractedLedgerEntryChange}
    (hseq : extracted.ledgerSequence = ledgerSequence) {held : Option AccountAccum}
    {held' : Option AccountHoldings} (h : Option.Rel (Reflects ledgerSequence) held held') :
    Reflects ledgerSequence (AccountAccum.removeAccount extracted held)
      (AccountHoldings.setNative .removed held') := by
  obtain ⟨hledger, hnative, hremoved, hlive, hgone⟩ := orFresh_reflects hseq h
  constructor
  · exact hseq
  · rfl
  · simp [AccountAccum.removeAccount, AccountHoldings.setNative]
  · exact hlive
  · exact hgone

/-! ## Both passes, change by change -/

variable [Crates] {transactionHash : String} {createdAt : ℤ}

theorem setAccount_reflects {extracted : ExtractedLedgerEntryChange}
    (hseq : extracted.ledgerSequence = ledgerSequence) {held : Option AccountAccum}
    {held' : Option AccountHoldings} (h : Option.Rel (Reflects ledgerSequence) held held')
    (entry : AccountEntry) :
    Reflects ledgerSequence (AccountAccum.setAccount extracted (accountData entry) held)
      (AccountHoldings.setNative (.live entry.balance) held') := by
  obtain ⟨hledger, hnative, hremoved, hlive, hgone⟩ := orFresh_reflects hseq h
  constructor
  · exact hseq
  · simp [AccountAccum.setAccount, AccountHoldings.setNative, accountData, Json.i64Field,
      asI64_int64, Closing.balance]
  · simp [AccountAccum.setAccount, AccountHoldings.setNative]
  · exact hlive
  · exact hgone

theorem updates_simulate (accountId : AccountId) {f : Option AccountAccum → AccountAccum}
    {g : Option AccountHoldings → AccountHoldings}
    (h : ∀ held held', Option.Rel (Reflects ledgerSequence) held held' →
      Reflects ledgerSequence (f held) (g held')) :
    Option.Rel (Update.Simulates (Reflects ledgerSequence))
      (if Crates.accountStrkey accountId = "" then none
        else some ⟨Crates.accountStrkey accountId, f⟩)
      (holdingsUpdate accountId g) := by
  unfold holdingsUpdate
  split
  · exact .none
  · exact .some ⟨rfl, h⟩

/-- The first pass over an entry's image. -/
theorem accountUpdate_image {extracted : ExtractedLedgerEntryChange}
    (hseq : extracted.ledgerSequence = ledgerSequence) (hlive : extracted.isLive = true)
    (hchange : extracted.changeType ≠ "removed") {data : LedgerEntryData}
    (htype : extracted.entryType = (extractEntryInfo data).1)
    (hdata : extracted.data = some (extractEntryInfo data).2.2) :
    Option.Rel (Update.Simulates (Reflects ledgerSequence)) (accountUpdate extracted)
      data.accountEffect := by
  cases data with
  | account entry =>
      have hid : (accountData entry).strField "account_id" =
          Crates.accountStrkey entry.accountId := by
        simp [Json.strField, accountData]
      simp only [extractEntryInfo] at htype hdata
      simp only [accountUpdate, htype, hchange, hlive, hdata, hid, ne_eq, not_true, if_false,
        Bool.true_eq_false]
      exact updates_simulate entry.accountId fun held held' h =>
        setAccount_reflects hseq h entry
  | _ => simp [accountUpdate, htype, extractEntryInfo, LedgerEntryData.accountEffect]

theorem accountUpdate_removed {extracted : ExtractedLedgerEntryChange}
    (hseq : extracted.ledgerSequence = ledgerSequence)
    (hchange : extracted.changeType = "removed") {key : LedgerKey}
    (htype : extracted.entryType = (extractKeyInfo key).1)
    (hkey : extracted.key = (extractKeyInfo key).2) :
    Option.Rel (Update.Simulates (Reflects ledgerSequence)) (accountUpdate extracted)
      key.accountEffect := by
  cases key with
  | account accountId =>
      have hid : (accountKey accountId).strField "account_id" = Crates.accountStrkey accountId := by
        simp [Json.strField, accountKey]
      simp only [extractKeyInfo] at htype hkey
      simp only [accountUpdate, htype, hchange, hkey, hid, ne_eq, not_true, if_false, if_true]
      exact updates_simulate accountId fun held held' h => removeAccount_reflects hseq h
  | _ => simp [accountUpdate, htype, extractKeyInfo, LedgerKey.accountEffect]

theorem creditAsset_formatTrustlineAsset (asset : TrustLineAsset) :
    creditAsset (some (formatTrustlineAsset asset)) =
      asset.credit.map fun credit => (credit.kind.name, credit.code, credit.issuer) := by
  cases asset <;> simp [creditAsset, formatTrustlineAsset, TrustLineAsset.credit, Json.strField,
    CreditKind.name]

private theorem trustline_updates_simulate (accountId : AccountId) (asset : TrustLineAsset)
    {f : String × String × String → Option AccountAccum → AccountAccum}
    {g : Credit → Option AccountHoldings → AccountHoldings}
    (h : ∀ (credit : Credit) held held', Option.Rel (Reflects ledgerSequence) held held' →
      Reflects ledgerSequence (f (credit.kind.name, credit.code, credit.issuer) held)
        (g credit held')) :
    Option.Rel (Update.Simulates (Reflects ledgerSequence))
      (if Crates.accountStrkey accountId = "" then none
        else (creditAsset (some (formatTrustlineAsset asset))).map fun asset =>
          ⟨Crates.accountStrkey accountId, f asset⟩)
      (asset.credit.bind fun credit => holdingsUpdate accountId (g credit)) := by
  rw [creditAsset_formatTrustlineAsset]
  cases asset.credit with
  | none => split <;> exact .none
  | some credit =>
      have := updates_simulate accountId (h credit)
      simpa using this

/-- The second pass over an entry's image. -/
theorem trustlineUpdate_image {extracted : ExtractedLedgerEntryChange}
    (hseq : extracted.ledgerSequence = ledgerSequence) (hlive : extracted.isLive = true)
    {data : LedgerEntryData} (htype : extracted.entryType = (extractEntryInfo data).1)
    (hdata : extracted.data = some (extractEntryInfo data).2.2) :
    Option.Rel (Update.Simulates (Reflects ledgerSequence)) (trustlineUpdate extracted)
      data.trustlineEffect := by
  cases data with
  | trustline entry =>
      have hid : (trustlineData entry).strField "account_id" =
          Crates.accountStrkey entry.accountId := by
        simp [Json.strField, trustlineData]
      have hasset : (trustlineData entry).get? "asset" =
          some (formatTrustlineAsset entry.asset) := by simp [trustlineData]
      have hbalance : (trustlineData entry).i64Field "balance" = entry.balance.toInt := by
        simp [Json.i64Field, trustlineData, asI64_int64]
      simp only [extractEntryInfo] at htype hdata
      simp only [trustlineUpdate, htype, hlive, hdata, hid, hasset, hbalance, ne_eq, not_true,
        if_false, if_true]
      exact trustline_updates_simulate entry.accountId entry.asset fun credit held held' h =>
        setTrustline_reflects hseq h credit entry.balance
  | _ => simp [trustlineUpdate, htype, extractEntryInfo, LedgerEntryData.trustlineEffect]

theorem trustlineUpdate_removed {extracted : ExtractedLedgerEntryChange}
    (hseq : extracted.ledgerSequence = ledgerSequence)
    (hchange : extracted.changeType = "removed") {key : LedgerKey}
    (htype : extracted.entryType = (extractKeyInfo key).1)
    (hkey : extracted.key = (extractKeyInfo key).2) :
    Option.Rel (Update.Simulates (Reflects ledgerSequence)) (trustlineUpdate extracted)
      key.trustlineEffect := by
  have hlive : extracted.isLive = false := by
    simp [ExtractedLedgerEntryChange.isLive, hchange]
  cases key with
  | trustline accountId asset =>
      have hid : (trustlineKey accountId asset).strField "account_id" =
          Crates.accountStrkey accountId := by
        simp [Json.strField, trustlineKey]
      have hasset : (trustlineKey accountId asset).get? "asset" =
          some (formatTrustlineAsset asset) := by simp [trustlineKey]
      simp only [extractKeyInfo] at htype hkey
      simp only [trustlineUpdate, htype, hlive, hchange, hkey, hid, hasset, ne_eq, not_true,
        if_false, if_true, Bool.false_eq_true]
      exact trustline_updates_simulate accountId asset fun credit held held' h =>
        removeTrustline_reflects hseq h credit
  | _ => simp [trustlineUpdate, htype, extractKeyInfo, LedgerKey.trustlineEffect]

/-- What a change does to the accumulators, it does to the holdings. -/
theorem updates_simulate_change (change : LedgerEntryChange) (operationIndex : Option ℕ)
    (index : ℕ) :
    let extracted := extractSingleChange change operationIndex transactionHash ledgerSequence
      createdAt index
    Option.Rel (Update.Simulates (Reflects ledgerSequence)) (accountUpdate extracted)
        (accountEffect change) ∧
      Option.Rel (Update.Simulates (Reflects ledgerSequence)) (trustlineUpdate extracted)
        (trustlineEffect change) := by
  intro extracted
  have hseq : extracted.ledgerSequence = ledgerSequence := rfl
  cases change with
  | created entry | updated entry | restored entry =>
      have hchange : extracted.changeType ≠ "removed" := by
        simp [extracted, extractSingleChange, changeInfo, changeInfo.imageInfo]
      exact ⟨accountUpdate_image hseq rfl hchange rfl rfl,
        trustlineUpdate_image hseq rfl rfl rfl⟩
  | removed key =>
      have hchange : extracted.changeType = "removed" := rfl
      exact ⟨accountUpdate_removed hseq hchange rfl rfl,
        trustlineUpdate_removed hseq hchange rfl rfl⟩
  | state entry =>
      have hchange : extracted.changeType ≠ "removed" := by
        simp [extracted, extractSingleChange, changeInfo, changeInfo.imageInfo]
      -- the image from before a change says nothing
      have hlive : extracted.isLive = false := rfl
      have haccount : accountUpdate extracted = none := by
        simp [accountUpdate, hchange, hlive]
      have htrustline : trustlineUpdate extracted = none := by
        simp [trustlineUpdate, hchange, hlive]
      rw [haccount, htrustline]
      exact ⟨.none, .none⟩

/-- The accumulators of a transaction reflect the holdings its changes leave. -/
theorem accountAccums_reflects (txMeta : TransactionMeta) (accountId : String) :
    Option.Rel (Reflects ledgerSequence)
      ((accountAccums (extractLedgerEntryChanges txMeta transactionHash ledgerSequence
        createdAt)).lookup accountId)
      (history accountId ((ledgerChanges txMeta).filterMap accountEffect ++
        (ledgerChanges txMeta).filterMap trustlineEffect) none) := by
  have hchanges := extractLedgerEntryChanges_forall₂ txMeta transactionHash ledgerSequence createdAt
  unfold accountAccums
  rw [lookup_runAll, AList.lookup_empty]
  apply history_rel _ _ .none
  apply List.rel_append
  · apply forall₂_filterMap _ hchanges
    rintro _ change ⟨operationIndex, index, rfl⟩
    exact (updates_simulate_change change operationIndex index).1
  · apply forall₂_filterMap _ hchanges
    rintro _ change ⟨operationIndex, index, rfl⟩
    exact (updates_simulate_change change operationIndex index).2

/-! ## The holdings a transaction leaves -/

/-- A holding by the texts its rows are keyed by. -/
def Holding.text (holding : Holding AccountId) : Holding String :=
  holding.map Crates.accountStrkey

/-- What a change leaves of one holding, by its texts. -/
def LedgerEntryChange.closingOf (holding : Holding String) (change : LedgerEntryChange) :
    Option Closing :=
  change.closing.bind fun (changed, closing) =>
    if changed.text = holding then some closing else none

private theorem history_holdingsUpdate {account : String} (haccount : account ≠ "")
    (accountId : AccountId) (apply : Option AccountHoldings → AccountHoldings)
    (held : Option AccountHoldings) :
    history account (holdingsUpdate accountId apply).toList held =
      if Crates.accountStrkey accountId = account then some (apply held) else held := by
  unfold holdingsUpdate
  by_cases hempty : Crates.accountStrkey accountId = ""
  · have hne : Crates.accountStrkey accountId ≠ account := fun h => haccount (h ▸ hempty)
    simp [hempty, Ne.symm haccount]
  · simp [hempty, history_cons]

theorem held_eq_credit (asset : TrustLineAsset) :
    asset.held.map (HeldAsset.map Crates.accountStrkey) = asset.credit.map Credit.asset := by
  cases asset <;> rfl

/-- A trustline's holding is not of the native asset. -/
theorem text_ne_of_held {asset : TrustLineAsset} {held : HeldAsset AccountId}
    (h : asset.held = some held) {holding : Holding String} (hnative : holding.asset = .native)
    (accountId : AccountId) : Holding.text ⟨accountId, held⟩ ≠ holding := by
  have hcredit := held_eq_credit asset
  rw [h] at hcredit
  rintro rfl
  cases hasset : asset.credit with
  | none => simp [hasset] at hcredit
  | some credit =>
      simp only [Holding.text, Holding.map] at hnative
      simp [hasset, hnative, Credit.asset] at hcredit

theorem native_text_ne {holding : Holding String} (hnative : holding.asset ≠ .native)
    (accountId : AccountId) : Holding.text ⟨accountId, .native⟩ ≠ holding := by
  rintro rfl
  exact hnative rfl

/-- The first pass sets the native asset of a holding and keeps its credits. -/
theorem closing_accountEffect {holding : Holding String} (haccount : holding.account ≠ "")
    (change : LedgerEntryChange) (held : Option AccountHoldings) :
    AccountHoldings.closing? holding.asset
        (history holding.account (accountEffect change).toList held) =
      (if holding.asset = .native then change.closingOf holding else none).or
        (AccountHoldings.closing? holding.asset held) := by
  have hset : ∀ accountId closing, AccountHoldings.closing? holding.asset
      (history holding.account
        (holdingsUpdate accountId (AccountHoldings.setNative closing)).toList held) =
      (if holding.asset = .native then
        (if Holding.text ⟨accountId, .native⟩ = holding then some closing else none) else none).or
        (AccountHoldings.closing? holding.asset held) := by
    intro accountId closing
    obtain ⟨account, asset⟩ := holding
    rw [history_holdingsUpdate haccount]
    by_cases hid : Crates.accountStrkey accountId = account <;>
      by_cases hasset : asset = .native <;>
        simp [hid, hasset, AccountHoldings.closing?, AccountHoldings.closing_setNative,
          Holding.text, Holding.map, HeldAsset.map]
  have hdata : ∀ entry : LedgerEntry, AccountHoldings.closing? holding.asset
      (history holding.account entry.data.accountEffect.toList held) =
      (if holding.asset = .native then (LedgerEntryChange.created entry).closingOf holding
        else none).or (AccountHoldings.closing? holding.asset held) := by
    rintro ⟨seq, data⟩
    cases data with
    | account entry => exact hset entry.accountId (.live entry.balance)
    -- A trustline is of a credit; the first pass does not look at it.
    | trustline entry =>
        cases hheld : entry.asset.held with
        | none => simp [LedgerEntryData.accountEffect, LedgerEntryChange.closingOf,
            LedgerEntryChange.closing, LedgerEntryData.holding, hheld]
        | some asset =>
            by_cases hnative : holding.asset = .native
            · simp [LedgerEntryData.accountEffect, LedgerEntryChange.closingOf,
                LedgerEntryChange.closing, LedgerEntryData.holding, hheld,
                text_ne_of_held hheld hnative]
            · simp [LedgerEntryData.accountEffect, hnative]
    | _ => simp [LedgerEntryData.accountEffect, LedgerEntryChange.closingOf,
        LedgerEntryChange.closing, LedgerEntryData.holding]
  have hkey : ∀ key : LedgerKey, AccountHoldings.closing? holding.asset
      (history holding.account key.accountEffect.toList held) =
      (if holding.asset = .native then (LedgerEntryChange.removed key).closingOf holding
        else none).or (AccountHoldings.closing? holding.asset held) := by
    intro key
    cases key with
    | account accountId => exact hset accountId .removed
    | trustline accountId asset =>
        cases hheld : asset.held with
        | none => simp [LedgerKey.accountEffect, LedgerEntryChange.closingOf,
            LedgerEntryChange.closing, LedgerKey.holding, hheld]
        | some asset =>
            by_cases hnative : holding.asset = .native
            · simp [LedgerKey.accountEffect, LedgerEntryChange.closingOf,
                LedgerEntryChange.closing, LedgerKey.holding, hheld,
                text_ne_of_held hheld hnative]
            · simp [LedgerKey.accountEffect, hnative]
    | _ => simp [LedgerKey.accountEffect, LedgerEntryChange.closingOf,
        LedgerEntryChange.closing, LedgerKey.holding]
  -- A created, an updated and a restored entry leave the same.
  cases change with
  | created entry | updated entry | restored entry => exact hdata entry
  | removed key => exact hkey key
  | state entry => simp [accountEffect, LedgerEntryChange.effect, LedgerEntryChange.closingOf,
      LedgerEntryChange.closing]

/-- The second pass sets the credits of a holding and keeps its native asset. -/
theorem closing_trustlineEffect {holding : Holding String} (haccount : holding.account ≠ "")
    (change : LedgerEntryChange) (held : Option AccountHoldings) :
    AccountHoldings.closing? holding.asset
        (history holding.account (trustlineEffect change).toList held) =
      (if holding.asset = .native then none else change.closingOf holding).or
        (AccountHoldings.closing? holding.asset held) := by
  have hset : ∀ accountId (asset : TrustLineAsset) closing,
      AccountHoldings.closing? holding.asset (history holding.account (asset.credit.bind fun credit =>
        holdingsUpdate accountId (AccountHoldings.setCredit credit closing)).toList held) =
      (if holding.asset = .native then none
        else asset.held.bind fun heldAsset =>
          if Holding.text ⟨accountId, heldAsset⟩ = holding then some closing else none).or
        (AccountHoldings.closing? holding.asset held) := by
    intro accountId asset closing
    have hcredit := held_eq_credit asset
    -- A pool share is no credit, and no holding either.
    cases hasset : asset.credit with
    | none =>
        have hheld : asset.held = none := by simpa [hasset] using hcredit
        simp [hheld]
    | some credit =>
        obtain ⟨heldAsset, hheld, htext⟩ : ∃ heldAsset, asset.held = some heldAsset ∧
            heldAsset.map Crates.accountStrkey = credit.asset := by
          simpa [hasset] using hcredit
        rw [Option.bind_some, history_holdingsUpdate haccount]
        obtain ⟨account, asset'⟩ := holding
        have hne : credit.asset ≠ .native := by simp [Credit.asset]
        by_cases hid : Crates.accountStrkey accountId = account
        · by_cases hsame : asset' = credit.asset
          · simp [hid, hsame, hne, AccountHoldings.closing?, AccountHoldings.closing_setCredit,
              hheld, Holding.text, Holding.map, htext]
          · simp [hid, hsame, Ne.symm hsame, AccountHoldings.closing?,
              AccountHoldings.closing_setCredit, hheld, Holding.text, Holding.map, htext]
        · simp [hid, hheld, Holding.text, Holding.map]
  have hdata : ∀ entry : LedgerEntry, AccountHoldings.closing? holding.asset
      (history holding.account entry.data.trustlineEffect.toList held) =
      (if holding.asset = .native then none
        else (LedgerEntryChange.created entry).closingOf holding).or
        (AccountHoldings.closing? holding.asset held) := by
    rintro ⟨seq, data⟩
    cases data with
    | trustline entry =>
        rw [LedgerEntryData.trustlineEffect, hset]
        cases hheld : entry.asset.held <;> simp [LedgerEntryChange.closingOf,
          LedgerEntryChange.closing, LedgerEntryData.holding, hheld]
    | account entry =>
        by_cases hnative : holding.asset = .native
        · simp [LedgerEntryData.trustlineEffect, hnative]
        · have hne := native_text_ne hnative entry.accountId
          simp [LedgerEntryData.trustlineEffect, LedgerEntryChange.closingOf,
            LedgerEntryChange.closing, LedgerEntryData.holding, hne]
    | _ => simp [LedgerEntryData.trustlineEffect, LedgerEntryChange.closingOf,
        LedgerEntryChange.closing, LedgerEntryData.holding]
  have hkey : ∀ key : LedgerKey, AccountHoldings.closing? holding.asset
      (history holding.account key.trustlineEffect.toList held) =
      (if holding.asset = .native then none
        else (LedgerEntryChange.removed key).closingOf holding).or
        (AccountHoldings.closing? holding.asset held) := by
    intro key
    cases key with
    | trustline accountId asset =>
        rw [LedgerKey.trustlineEffect, hset]
        cases hheld : asset.held <;> simp [LedgerEntryChange.closingOf,
          LedgerEntryChange.closing, LedgerKey.holding, hheld]
    | account accountId =>
        by_cases hnative : holding.asset = .native
        · simp [LedgerKey.trustlineEffect, hnative]
        · have hne := native_text_ne hnative accountId
          simp [LedgerKey.trustlineEffect, LedgerEntryChange.closingOf,
            LedgerEntryChange.closing, LedgerKey.holding, hne]
    | _ => simp [LedgerKey.trustlineEffect, LedgerEntryChange.closingOf,
        LedgerEntryChange.closing, LedgerKey.holding]
  cases change with
  | created entry | updated entry | restored entry => exact hdata entry
  | removed key => exact hkey key
  | state entry => simp [trustlineEffect, LedgerEntryChange.effect, LedgerEntryChange.closingOf,
      LedgerEntryChange.closing]

theorem closing_history {holding : Holding String} (haccount : holding.account ≠ "")
    (changes : List LedgerEntryChange) :
    AccountHoldings.closing? holding.asset (history holding.account
        (changes.filterMap accountEffect ++ changes.filterMap trustlineEffect) none) =
      (changes.filterMap (·.closingOf holding)).getLast? := by
  rw [history_append, read_history (closing_trustlineEffect haccount),
    read_history (closing_accountEffect haccount)]
  by_cases hnative : holding.asset = .native <;> simp [hnative, AccountHoldings.closing?]

end SorobanExplorer
