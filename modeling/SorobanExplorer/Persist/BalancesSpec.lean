import Mathlib.Data.List.ReduceOption
import SorobanExplorer.Parser.AccountHoldings
import SorobanExplorer.Persist.Balances

/-!
# Balance rows and holdings

A row states what the last change of its holding left, as long as no other
holding of the ledger shares its surrogate key.

## Strategy

* `accountStateRows_of_reflects` turns a state into the rows of its holdings.
* `txRows_filter_getLast?` finds the rows of one key among a transaction's,
  whatever order its states arrive in.
* `accountBalanceRows_spec` folds them over the ledger: all rows carry the
  ledger as their watermark, so the last one of a key stays.
-/

namespace SorobanExplorer

open KeyedFold Persist Text

private theorem mapM_ok {ε α β : Type} {f : α → Except ε β} {g : α → β} {l : List α}
    (h : ∀ x ∈ l, f x = .ok (g x)) : l.mapM f = .ok (l.map g) := by
  induction l with
  | nil => rfl
  | cons x l ih =>
      rw [List.mapM_cons, h x List.mem_cons_self, ih fun y hy => h y (List.mem_cons_of_mem _ hy)]
      rfl

private theorem mapM_map_ok {ε α β γ : Type} {f : β → Except ε γ} {encode : α → β} {g : α → γ}
    {l : List α} (h : ∀ x ∈ l, f (encode x) = .ok (g x)) :
    (l.map encode).mapM f = .ok (l.map g) := by
  rw [List.mapM_map]
  exact mapM_ok h

private theorem flatMap_filter {α β : Type} {f : α → List β} {p : α → Bool} {l : List α}
    (h : ∀ x ∈ l, p x = false → f x = []) : l.flatMap f = (l.filter p).flatMap f := by
  induction l with
  | nil => rfl
  | cons x l ih =>
      have ih := ih fun y hy => h y (List.mem_cons_of_mem _ hy)
      cases hx : p x <;> simp [hx, ih]
      exact h x List.mem_cons_self hx

/-- The key of a row. -/
def BalanceRow.key (row : BalanceRow) : Int64 × Int64 :=
  (row.holderId, row.assetId)

/-- Among rows of one watermark, the last of a key stays. -/
theorem lookup_upsertBalance {watermark : ℤ} {rows : List BalanceRow}
    (h : ∀ row ∈ rows, row.lastUpdatedLedger = watermark) (key : Int64 × Int64) :
    (runAll (rows.map upsertBalance) ∅).lookup key = (rows.filter (·.key = key)).getLast? := by
  have hhistory : ∀ held : Option BalanceRow, (∀ row ∈ held, row.lastUpdatedLedger ≤ watermark) →
      history key (rows.map upsertBalance) held =
        (rows.filter (·.key = key)).getLast?.or held := by
    induction rows with
    | nil => intro held _; simp
    | cons row rows ih =>
        intro held hheld
        have hrow : row.lastUpdatedLedger = watermark := h row List.mem_cons_self
        have ih := ih fun other hother => h other (List.mem_cons_of_mem _ hother)
        rw [List.map_cons, history_cons, show (upsertBalance row).key = row.key from rfl]
        by_cases hkey : row.key = key
        · have happly : (upsertBalance row).apply held = row := by
            cases held with
            | none => rfl
            | some other => exact if_pos (by rw [hrow]; exact hheld other rfl)
          rw [if_pos hkey, happly, ih (some row) (by simp [hrow])]
          simp [hkey, List.getLast?_cons]
        · rw [if_neg hkey, ih held hheld]
          simp [hkey]
  rw [lookup_runAll, AList.lookup_empty, hhistory none (by simp), Option.or_none]

theorem Closing.decimal_balance (closing : Closing) :
    decimal7StringToI128 (formatStroops closing.balance) = .ok (textAmount closing.balance) := by
  cases closing with
  | live balance => exact decimal7StringToI128_formatStroops balance.le_toInt balance.toInt_lt
  | removed => exact decimal7StringToI128_formatStroops (by decide) (by decide)

variable [Crates] {transactionHash : String} {ledgerSequence : UInt32} {createdAt : ℤ}

/-! ## Rows of a state -/

/-- The row a closing of a holding becomes. -/
def closingRow (ledgerSequence : UInt32) (holding : Holding String) (closing : Closing) :
    BalanceRow where
  holderId := Ids.accountId holding.account
  assetId := match holding.asset with
    | .native => Ids.nativeAssetId
    | .credit code issuer => Ids.creditAssetId code issuer
  amount := textAmount closing.balance
  lastUpdatedLedger := ledgerSequence.toNat
  closedAtLedger := if closing = .removed then ledgerSequence.toNat else 0

/-- The key of a holding's rows. -/
def rowKey (holding : Holding String) : Int64 × Int64 :=
  let row := closingRow 0 holding .removed
  (row.holderId, row.assetId)

@[simp] theorem closingRow_key (holding : Holding String) (closing : Closing) :
    ((closingRow ledgerSequence holding closing).holderId,
      (closingRow ledgerSequence holding closing).assetId) = rowKey holding := rfl

/-- Only a credit whose code and issuer are not empty has rows. -/
def HeldAsset.isStated : HeldAsset String → Bool
  | .native => true
  | .credit code issuer => code ≠ "" && issuer ≠ ""

def Credit.isStated (credit : Credit) : Bool :=
  credit.asset.isStated

/-- The rows of an account's holdings. -/
def AccountHoldings.rows (ledgerSequence : UInt32) (account : String)
    (holdings : AccountHoldings) : List BalanceRow :=
  holdings.native.toList.map (closingRow ledgerSequence ⟨account, .native⟩) ++
    holdings.live.filterMap (fun entry => if entry.1.isStated then
      some (closingRow ledgerSequence ⟨account, entry.1.asset⟩ (.live entry.2)) else none) ++
    holdings.gone.filterMap fun credit => if credit.isStated then
      some (closingRow ledgerSequence ⟨account, credit.asset⟩ .removed) else none

section StateRows

variable {account : String} {accum : AccountAccum} {holdings : AccountHoldings}

theorem liveBalanceRow_native (h : Reflects ledgerSequence accum holdings) {closing : Closing}
    (hnative : holdings.native = some closing) :
    liveBalanceRow (accountState account accum)
        (.obj [("asset_type", .str "native"), ("balance", .str (formatStroops closing.balance))]) =
      .ok (some (closingRow ledgerSequence ⟨account, .native⟩ closing)) := by
  have htype : AssetType.fromStr "native" = some .native := by decide
  have hremoved := h.accountRemoved_eq
  rw [hnative] at hremoved
  simp [liveBalanceRow, htype, closing.decimal_balance, accountState, h.ledgerSequence_eq,
    hremoved, closingRow, bind, Except.bind, pure, Except.pure]

theorem liveBalanceRow_credit (h : Reflects ledgerSequence accum holdings) (credit : Credit)
    (balance : Int64) :
    liveBalanceRow (accountState account accum) (credit.json (some balance.toInt)) =
      .ok (if credit.isStated then
        some (closingRow ledgerSequence ⟨account, credit.asset⟩ (.live balance)) else none) := by
  obtain ⟨kind, code, issuer⟩ := credit
  have htype : ∃ assetType, AssetType.fromStr kind.name = some assetType ∧
      assetType ≠ .native := by
    cases kind
    · exact ⟨.creditAlphanum4, by decide, by decide⟩
    · exact ⟨.creditAlphanum12, by decide, by decide⟩
  obtain ⟨assetType, htype, hne⟩ := htype
  have hamount : decimal7StringToI128 (formatStroops balance.toInt) =
      .ok (textAmount balance.toInt) := (Closing.live balance).decimal_balance
  by_cases hcode : code = "" <;> by_cases hissuer : issuer = "" <;>
    simp [liveBalanceRow, Credit.json, trustlineJson, Json.strField, htype, hne, hamount, hcode,
      hissuer, Credit.isStated, HeldAsset.isStated, Credit.asset, accountState, h.ledgerSequence_eq, closingRow,
      Closing.balance, bind, Except.bind, pure, Except.pure]

theorem removedTrustlineRow_credit (h : Reflects ledgerSequence accum holdings) (credit : Credit) :
    removedTrustlineRow (accountState account accum) (credit.json none) =
      if credit.isStated then some (closingRow ledgerSequence ⟨account, credit.asset⟩ .removed)
      else none := by
  obtain ⟨kind, code, issuer⟩ := credit
  have hzero : textAmount 0 = 0 := rfl
  by_cases hcode : code = "" <;> by_cases hissuer : issuer = "" <;>
    simp [removedTrustlineRow, Credit.json, trustlineJson, Json.strField, hcode, hissuer,
      Credit.isStated, HeldAsset.isStated, Credit.asset, accountState, h.ledgerSequence_eq, closingRow,
      Closing.balance, hzero]

/-- A state's rows are those of the holdings it reflects; staging never fails on
one. -/
theorem accountStateRows_of_reflects (h : Reflects ledgerSequence accum holdings) :
    accountStateRows (accountState account accum) =
      .ok (holdings.rows ledgerSequence account) := by
  have hnative : (accum.nativeBalance.map fun native =>
      Json.obj [("asset_type", .str "native"), ("balance", .str (formatStroops native))]).toList =
      holdings.native.toList.map fun closing =>
        Json.obj [("asset_type", .str "native"),
          ("balance", .str (formatStroops closing.balance))] := by
    rw [h.nativeBalance_eq]
    cases holdings.native <;> rfl
  have hbalances : ((accountState account accum).balances.asArray.getD []).mapM
      (liveBalanceRow (accountState account accum)) =
      .ok (holdings.native.toList.map (fun closing =>
          some (closingRow ledgerSequence ⟨account, .native⟩ closing)) ++
        holdings.live.map fun entry =>
          if entry.1.isStated then
            some (closingRow ledgerSequence ⟨account, entry.1.asset⟩ (.live entry.2)) else none) := by
    -- the native balance first, then the trustlines
    have hbalances : (accountState account accum).balances.asArray.getD [] =
        holdings.native.toList.map (fun closing =>
          Json.obj [("asset_type", .str "native"),
            ("balance", .str (formatStroops closing.balance))]) ++
        holdings.live.map fun entry => entry.1.json (some entry.2.toInt) := by
      simp [accountState, hnative, h.trustlineBalances_eq]
    rw [hbalances, List.mapM_append,
      mapM_map_ok fun closing hclosing => liveBalanceRow_native h (Option.mem_toList.mp hclosing),
      mapM_map_ok fun entry _ => liveBalanceRow_credit h entry.1 entry.2]
    rfl
  have hremoved : (accountState account accum).removedTrustlines.filterMap
      (removedTrustlineRow (accountState account accum)) =
      holdings.gone.filterMap fun credit => if credit.isStated then
        some (closingRow ledgerSequence ⟨account, credit.asset⟩ .removed) else none := by
    rw [show (accountState account accum).removedTrustlines = _ from h.removedTrustlines_eq,
      List.filterMap_map]
    congr 1
    funext credit
    exact removedTrustlineRow_credit h credit
  rw [accountStateRows, hbalances, hremoved]
  simp [AccountHoldings.rows, List.reduceOption, List.filterMap_append, List.filterMap_map,
    bind, Except.bind, pure, Except.pure]

end StateRows

/-! ## Rows of one key -/

namespace AccountHoldings

/-- Every row is of an asset something is known of. -/
theorem key_of_mem_rows {holdings : AccountHoldings} {account : String} {row : BalanceRow}
    (h : row ∈ holdings.rows ledgerSequence account) :
    ∃ asset, holdings.closing asset ≠ none ∧ row.key = rowKey ⟨account, asset⟩ := by
  simp only [rows, List.mem_append, List.mem_map, List.mem_filterMap, Option.mem_toList] at h
  rcases h with (⟨closing, hnative, rfl⟩ | ⟨entry, hentry, hrow⟩) | ⟨credit, hcredit, hrow⟩
  · exact ⟨.native, by simp [AccountHoldings.closing, Option.mem_def.mp hnative], rfl⟩
  · split at hrow
    · exact ⟨entry.1.asset, closing_of_mem_live hentry, by rw [← Option.some.inj hrow]; rfl⟩
    · cases hrow
  · split at hrow
    · exact ⟨credit.asset, closing_of_mem_gone hcredit, by rw [← Option.some.inj hrow]; rfl⟩
    · cases hrow

theorem lastUpdatedLedger_of_mem_rows {holdings : AccountHoldings} {account : String}
    {row : BalanceRow} (h : row ∈ holdings.rows ledgerSequence account) :
    row.lastUpdatedLedger = ledgerSequence.toNat := by
  simp only [rows, List.mem_append, List.mem_map, List.mem_filterMap] at h
  rcases h with (⟨closing, -, rfl⟩ | ⟨entry, -, hrow⟩) | ⟨credit, -, hrow⟩
  · rfl
  · split at hrow
    · rw [← Option.some.inj hrow]
      rfl
    · cases hrow
  · split at hrow
    · rw [← Option.some.inj hrow]
      rfl
    · cases hrow

variable (ledgerSequence) in
/-- The last row of a holding's key is its closing. -/
theorem rows_filter_getLast? {holding : Holding String} (hstated : holding.asset.isStated)
    (holdings : AccountHoldings)
    (hunique : ∀ asset, holdings.closing asset ≠ none →
      rowKey ⟨holding.account, asset⟩ = rowKey holding → asset = holding.asset) :
    ((holdings.rows ledgerSequence holding.account).filter (·.key = rowKey holding)).getLast? =
      (holdings.closing holding.asset).map (closingRow ledgerSequence holding) := by
  obtain ⟨account, asset⟩ := holding
  have hkey : ∀ other closing, holdings.closing other ≠ none →
      ((closingRow ledgerSequence ⟨account, other⟩ closing).key = rowKey ⟨account, asset⟩ ↔
        other = asset) := by
    intro other closing hother
    constructor
    · intro h
      exact hunique other hother h
    · rintro rfl
      rfl
  -- Of the rows of credits those of the asset are left, and every one of them is stated.
  have hentry : ∀ (credit : Credit) closing, holdings.closing credit.asset ≠ none →
      (if credit.isStated then
          some (closingRow ledgerSequence ⟨account, credit.asset⟩ closing) else none).filter
        (·.key = rowKey ⟨account, asset⟩) =
      if credit.asset = asset then some (closingRow ledgerSequence ⟨account, asset⟩ closing)
      else none := by
    intro credit closing hcredit
    by_cases hasset : credit.asset = asset
    · have hcreditStated : credit.isStated = true := by
        rw [Credit.isStated, hasset]
        exact hstated
      simp [hcreditStated, hasset, BalanceRow.key]
    · have hne := mt (hkey credit.asset closing hcredit).mp hasset
      by_cases hcreditStated : credit.isStated <;> simp [hcreditStated, hasset, hne]
  have hlive : (holdings.live.filterMap fun entry => if entry.1.isStated then
      some (closingRow ledgerSequence ⟨account, entry.1.asset⟩ (.live entry.2)) else none).filter
        (·.key = rowKey ⟨account, asset⟩) =
      (holdings.live.filter (·.1.asset = asset)).map
        fun entry => closingRow ledgerSequence ⟨account, asset⟩ (.live entry.2) := by
    rw [List.filter_filterMap, ← List.filterMap_eq_map, List.filterMap_filter]
    apply List.filterMap_congr
    intro entry hmem
    simpa using hentry entry.1 (.live entry.2) (closing_of_mem_live hmem)
  have hgone : (holdings.gone.filterMap fun credit => if credit.isStated then
      some (closingRow ledgerSequence ⟨account, credit.asset⟩ .removed) else none).filter
        (·.key = rowKey ⟨account, asset⟩) =
      (holdings.gone.filter (·.asset = asset)).map
        fun _ => closingRow ledgerSequence ⟨account, asset⟩ .removed := by
    rw [List.filter_filterMap, ← List.filterMap_eq_map, List.filterMap_filter]
    apply List.filterMap_congr
    intro credit hmem
    simpa using hentry credit .removed (closing_of_mem_gone hmem)
  rw [rows, List.filter_append, List.filter_append, hlive, hgone]
  -- The native asset is no credit, and has one row.
  by_cases hasset : asset = .native
  · have hnotLive : holdings.live.filter (·.1.asset = asset) = [] := by
      rw [List.filter_eq_nil_iff]
      intro entry _
      simpa [hasset] using entry.1.asset_ne_native
    have hnotGone : holdings.gone.filter (·.asset = asset) = [] := by
      rw [List.filter_eq_nil_iff]
      intro credit _
      simpa [hasset] using credit.asset_ne_native
    rw [hnotLive, hnotGone]
    subst hasset
    cases hnative : holdings.native <;> simp [closing, hnative, BalanceRow.key]
  · have hnotNative : (holdings.native.toList.map
        (closingRow ledgerSequence ⟨account, .native⟩)).filter
        (·.key = rowKey ⟨account, asset⟩) = [] := by
      rw [List.filter_eq_nil_iff]
      intro row hrow
      obtain ⟨closing, hnative, rfl⟩ := List.mem_map.mp hrow
      have hknown : holdings.closing .native ≠ none := by
        simp [AccountHoldings.closing, Option.mem_toList.mp hnative]
      simpa using fun h => hasset ((hkey .native closing hknown).mp h).symm
    -- A removal comes after every live balance of the credit.
    rw [hnotNative, List.nil_append, List.getLast?_append, closing_of_ne_native _ hasset]
    split
    · rename_i hnone
      simp [hnone, List.getLast?_map, Function.comp_def]
    · rename_i hsome
      rw [List.getLast?_map, List.getLast?_eq_some_getLast hsome]
      rfl

end AccountHoldings

/-! ## Rows of a transaction -/

/-- What the changes leave of a holding, by its texts. -/
def lastClosingText (holding : Holding String) (changes : List LedgerEntryChange) :
    Option Closing :=
  (changes.filterMap (·.closingOf holding)).getLast?

/-- No other holding the changes are about shares the holding's row key. -/
def UniqueKey (holding : Holding String) (changes : List LedgerEntryChange) : Prop :=
  ∀ other, lastClosingText other changes ≠ none → rowKey other = rowKey holding → other = holding

/-- What a transaction leaves of one account. -/
def txHoldings (txMeta : TransactionMeta) (account : String) : Option AccountHoldings :=
  history account ((ledgerChanges txMeta).filterMap accountEffect ++
    (ledgerChanges txMeta).filterMap trustlineEffect) none

/-- The rows of one account of a transaction. -/
def txAccountRows (ledgerSequence : UInt32) (txMeta : TransactionMeta) (account : String) :
    List BalanceRow :=
  (txHoldings txMeta account).elim [] (AccountHoldings.rows ledgerSequence account)

private theorem key_of_holdingsUpdate {accountId : AccountId}
    {apply : Option AccountHoldings → AccountHoldings} {update : Update String AccountHoldings}
    (h : holdingsUpdate accountId apply = some update) : update.key ≠ "" := by
  unfold holdingsUpdate at h
  split at h
  · cases h
  · rename_i hne
    cases h
    exact hne

private theorem key_of_effect {change : LedgerEntryChange} {update : Update String AccountHoldings}
    (h : accountEffect change = some update ∨ trustlineEffect change = some update) :
    update.key ≠ "" := by
  have hdata : ∀ data : LedgerEntryData, data.accountEffect = some update ∨
      data.trustlineEffect = some update → update.key ≠ "" := by
    intro data h
    cases data with
    | account entry => exact key_of_holdingsUpdate (h.resolve_right (Option.some_ne_none _).symm)
    | trustline entry =>
        obtain ⟨credit, -, hcredit⟩ :=
          Option.bind_eq_some_iff.mp (h.resolve_left (Option.some_ne_none _).symm)
        exact key_of_holdingsUpdate hcredit
    | _ => exact absurd h (by simp [LedgerEntryData.accountEffect, LedgerEntryData.trustlineEffect])
  cases change with
  | created entry | updated entry | restored entry => exact hdata entry.data h
  | removed key =>
      cases key with
      | account accountId =>
          exact key_of_holdingsUpdate (h.resolve_right (Option.some_ne_none _).symm)
      | trustline accountId asset =>
          obtain ⟨credit, -, hcredit⟩ :=
            Option.bind_eq_some_iff.mp (h.resolve_left (Option.some_ne_none _).symm)
          exact key_of_holdingsUpdate hcredit
      | _ => exact absurd h (by simp [accountEffect, trustlineEffect, LedgerEntryChange.effect,
          LedgerKey.accountEffect, LedgerKey.trustlineEffect])
  | state entry => exact absurd h (by simp [accountEffect, trustlineEffect, LedgerEntryChange.effect])

/-- No holdings are kept under an empty address. -/
theorem account_ne_empty {txMeta : TransactionMeta} {account : String} {holdings : AccountHoldings}
    (h : txHoldings txMeta account = some holdings) : account ≠ "" := by
  rintro rfl
  have hkeys : ∀ update ∈ (ledgerChanges txMeta).filterMap accountEffect ++
      (ledgerChanges txMeta).filterMap trustlineEffect, update.key ≠ "" := by
    intro update hupdate
    rw [List.mem_append, List.mem_filterMap, List.mem_filterMap] at hupdate
    rcases hupdate with ⟨change, -, hchange⟩ | ⟨change, -, hchange⟩
    · exact key_of_effect (.inl hchange)
    · exact key_of_effect (.inr hchange)
  rw [txHoldings, history_eq_of_forall_ne hkeys] at h
  cases h

theorem closing_txHoldings {txMeta : TransactionMeta} (holding : Holding String)
    {holdings : AccountHoldings} (h : txHoldings txMeta holding.account = some holdings) :
    holdings.closing holding.asset = lastClosingText holding (ledgerChanges txMeta) := by
  have hclosing := closing_history (account_ne_empty h) (ledgerChanges txMeta)
  rw [txHoldings] at h
  rw [h] at hclosing
  exact hclosing

variable (transactionHash ledgerSequence createdAt) in
/-- The states of a transaction have rows, and the last one of a key states what
the changes leave of its holding. -/
theorem extractAccountStates_rows (order : DrainOrder ExtractedAccountState)
    (txMeta : TransactionMeta) {holding : Holding String} (haccount : holding.account ≠ "")
    (hstated : holding.asset.isStated)
    (hunique : UniqueKey holding (ledgerChanges txMeta)) :
    ∃ rows, (extractAccountStates order (extractLedgerEntryChanges txMeta transactionHash
        ledgerSequence createdAt)).mapM accountStateRows = .ok rows ∧
      (∀ row ∈ rows.flatten, row.lastUpdatedLedger = ledgerSequence.toNat) ∧
      (rows.flatten.filter (·.key = rowKey holding)).getLast? =
        (lastClosingText holding (ledgerChanges txMeta)).map
          (closingRow ledgerSequence holding) := by
  set accums := accountAccums (extractLedgerEntryChanges txMeta transactionHash ledgerSequence
    createdAt) with haccums
  set states := extractAccountStates order (extractLedgerEntryChanges txMeta transactionHash
    ledgerSequence createdAt) with hstates
  have hperm : states.Perm (accums.entries.map fun entry => accountState entry.1 entry.2) :=
    order.perm _
  -- Every state reflects the holdings of its account.
  have hreflects : ∀ state ∈ states, ∃ holdings, txHoldings txMeta state.accountId = some holdings ∧
      accountStateRows state = .ok (holdings.rows ledgerSequence state.accountId) := by
    intro state hstate
    obtain ⟨⟨account, accum⟩, hentry, rfl⟩ := List.mem_map.mp (hperm.mem_iff.mp hstate)
    have hlookup : accums.lookup account = some accum := AList.mem_lookup_iff.mpr hentry
    have hrel : Option.Rel (Reflects ledgerSequence) (some accum) (txHoldings txMeta account) :=
      hlookup ▸ accountAccums_reflects txMeta account
    cases hholdings : txHoldings txMeta account with
    | none => rw [hholdings] at hrel; cases hrel
    | some holdings =>
        rw [hholdings] at hrel
        cases hrel with
        | some hrel => exact ⟨holdings, hholdings, accountStateRows_of_reflects hrel⟩
  have hrows : states.mapM accountStateRows =
      .ok (states.map fun state => txAccountRows ledgerSequence txMeta state.accountId) := by
    apply mapM_ok
    intro state hstate
    obtain ⟨holdings, hholdings, hrow⟩ := hreflects state hstate
    rw [hrow, txAccountRows, hholdings]
    rfl
  refine ⟨_, hrows, ?_, ?_⟩
  · intro row hrow
    rw [← List.flatMap_def, List.mem_flatMap] at hrow
    obtain ⟨state, hstate, hrow⟩ := hrow
    obtain ⟨holdings, hholdings, -⟩ := hreflects state hstate
    rw [txAccountRows, hholdings] at hrow
    exact AccountHoldings.lastUpdatedLedger_of_mem_rows hrow
  · -- Only the holding's own account has rows of its key, and it has at most one state.
    have hothers : ∀ state ∈ states, decide (state.accountId = holding.account) = false →
        (txAccountRows ledgerSequence txMeta state.accountId).filter
          (·.key = rowKey holding) = [] := by
      intro state hstate hne
      obtain ⟨holdings, hholdings, -⟩ := hreflects state hstate
      rw [txAccountRows, hholdings, List.filter_eq_nil_iff]
      intro row hrow hkey
      obtain ⟨asset, hknown, hrowKey⟩ := AccountHoldings.key_of_mem_rows hrow
      have hclosing := closing_txHoldings ⟨state.accountId, asset⟩ hholdings
      have hsame := hunique ⟨state.accountId, asset⟩ (hclosing ▸ hknown)
        (hrowKey ▸ of_decide_eq_true hkey)
      exact of_decide_eq_false hne (congrArg Holding.account hsame)
    have hown : (states.filter fun state => state.accountId = holding.account).Perm
        ((accums.lookup holding.account).toList.map (accountState holding.account)) := by
      have hentries := filter_entries accums holding.account
      have hfilter := hperm.filter fun state => state.accountId = holding.account
      rw [List.filter_map] at hfilter
      have hcomp : ((fun state : ExtractedAccountState => decide (state.accountId = holding.account)) ∘
          fun entry : (_ : String) × AccountAccum => accountState entry.1 entry.2) =
          fun entry => decide (entry.1 = holding.account) := rfl
      rw [hcomp, hentries, List.map_map] at hfilter
      exact hfilter
    rw [← List.flatMap_def, List.filter_flatMap, flatMap_filter hothers]
    have hrel : Option.Rel (Reflects ledgerSequence) (accums.lookup holding.account)
        (txHoldings txMeta holding.account) := accountAccums_reflects txMeta holding.account
    have hclosing : AccountHoldings.closing? holding.asset (txHoldings txMeta holding.account) =
        lastClosingText holding (ledgerChanges txMeta) :=
      closing_history haccount (ledgerChanges txMeta)
    cases hlookup : accums.lookup holding.account with
    | none =>
        rw [hlookup] at hown hrel
        cases hholdings : txHoldings txMeta holding.account with
        | some holdings => rw [hholdings] at hrel; cases hrel
        | none =>
            rw [hholdings] at hclosing
            rw [List.Perm.eq_nil hown, ← hclosing]
            rfl
    | some accum =>
        rw [hlookup] at hown hrel
        cases hholdings : txHoldings txMeta holding.account with
        | none => rw [hholdings] at hrel; cases hrel
        | some holdings =>
            have hlast := AccountHoldings.rows_filter_getLast? ledgerSequence hstated
              holdings fun asset hknown hkey => by
                have hother := closing_txHoldings ⟨holding.account, asset⟩ hholdings
                exact congrArg Holding.asset (hunique _ (hother ▸ hknown) hkey)
            rw [hholdings] at hclosing
            rw [List.Perm.eq_singleton hown, ← hclosing]
            simpa [accountState, txAccountRows, hholdings, AccountHoldings.closing?] using hlast

/-! ## Rows of a ledger -/

theorem lastClosingText_append (holding : Holding String) (first second : List LedgerEntryChange) :
    lastClosingText holding (first ++ second) =
      (lastClosingText holding second).or (lastClosingText holding first) := by
  simp [lastClosingText, List.filterMap_append, List.getLast?_append]

theorem UniqueKey.of_append {holding : Holding String} {first second : List LedgerEntryChange}
    (h : UniqueKey holding (first ++ second)) :
    UniqueKey holding first ∧ UniqueKey holding second := by
  constructor
  · intro other hother
    apply h other
    rw [lastClosingText_append]
    cases lastClosingText other second <;> simp [hother]
  · intro other hother
    apply h other
    rw [lastClosingText_append]
    cases hlast : lastClosingText other second
    · exact absurd hlast hother
    · simp

/-- A transaction with the order its states are drained in. -/
structure DrainedTransaction where
  order : DrainOrder ExtractedAccountState
  hash : String
  txMeta : TransactionMeta

def DrainedTransaction.states (ledgerSequence : UInt32) (createdAt : ℤ)
    (tx : DrainedTransaction) : List ExtractedAccountState :=
  extractAccountStates tx.order
    (extractLedgerEntryChanges tx.txMeta tx.hash ledgerSequence createdAt)

variable (ledgerSequence createdAt) in
/-- Transaction after transaction, the last row of a key states what the ledger
leaves of its holding. -/
theorem drainedStates_rows {holding : Holding String} (haccount : holding.account ≠ "")
    (hstated : holding.asset.isStated) :
    ∀ (txs : List DrainedTransaction),
      UniqueKey holding (txs.flatMap fun tx => ledgerChanges tx.txMeta) →
      ∃ rows, (txs.flatMap (DrainedTransaction.states ledgerSequence createdAt)).mapM
          accountStateRows = .ok rows ∧
        (∀ row ∈ rows.flatten, row.lastUpdatedLedger = ledgerSequence.toNat) ∧
        (rows.flatten.filter (·.key = rowKey holding)).getLast? =
          (lastClosingText holding (txs.flatMap fun tx => ledgerChanges tx.txMeta)).map
            (closingRow ledgerSequence holding) := by
  intro txs
  induction txs with
  | nil =>
      intro _
      exact ⟨[], rfl, by simp, rfl⟩
  | cons tx txs ih =>
      intro hunique
      rw [List.flatMap_cons] at hunique
      obtain ⟨rows, hrows, hledger, hlast⟩ := extractAccountStates_rows tx.hash ledgerSequence
        createdAt tx.order tx.txMeta haccount hstated hunique.of_append.1
      obtain ⟨rest, hrest, hledger', hlast'⟩ := ih hunique.of_append.2
      refine ⟨rows ++ rest, ?_, ?_, ?_⟩
      · rw [List.flatMap_cons, List.mapM_append, hrest, DrainedTransaction.states, hrows]
        rfl
      · intro row hrow
        rw [List.flatten_append, List.mem_append] at hrow
        exact hrow.elim (hledger row) (hledger' row)
      · -- the last row of a key is that of the last transaction with one
        rw [List.flatten_append, List.filter_append, List.getLast?_append, hlast, hlast',
          List.flatMap_cons, lastClosingText_append]
        cases lastClosingText holding (txs.flatMap fun tx => ledgerChanges tx.txMeta) <;> simp

/-- No other holding the changes are about shares the holding's row key. -/
def OwnKey (holding : Holding AccountId) (changes : List LedgerEntryChange) : Prop :=
  ∀ entry ∈ closings changes, rowKey entry.1.text = rowKey holding.text → entry.1 = holding

instance (holding : Holding AccountId) (changes : List LedgerEntryChange) :
    Decidable (OwnKey holding changes) :=
  inferInstanceAs (Decidable (∀ entry ∈ closings changes, _ → _))

theorem lastClosingText_eq (holding : Holding String) (changes : List LedgerEntryChange) :
    lastClosingText holding changes =
      lastOf holding ((closings changes).map fun entry => (entry.1.text, entry.2)) := by
  rw [lastClosingText, lastOf, closings, List.filterMap_map, List.filterMap_filterMap]
  rfl

theorem OwnKey.lastClosingText {holding : Holding AccountId} {changes : List LedgerEntryChange}
    (h : OwnKey holding changes) :
    lastClosingText holding.text changes = lastClosing holding changes := by
  rw [lastClosingText_eq]
  exact lastOf_map fun entry hentry htext => h entry hentry (by rw [htext])

theorem OwnKey.uniqueKey {holding : Holding AccountId} {changes : List LedgerEntryChange}
    (h : OwnKey holding changes) : UniqueKey holding.text changes := by
  intro other hother hkey
  rw [lastClosingText_eq] at hother
  obtain ⟨entry, hentry, rfl⟩ : ∃ entry ∈ (closings changes).map
      fun entry => (entry.1.text, entry.2), entry.1 = other := by
    simpa using mt lastOf_eq_none.mpr hother
  obtain ⟨entry, hclosing, rfl⟩ := List.mem_map.mp hentry
  exact congrArg Holding.text (h entry hclosing hkey)

variable (ledgerSequence createdAt) in
/-- The `balances` rows of a ledger's account states: a holding whose row key is
its own has exactly one row if a change is about it, and the row states what the
last such change left; without such a change it has none. -/
theorem accountBalanceRows_spec (orders : ℕ → DrainOrder ExtractedAccountState)
    (txs : List (String × TransactionMeta)) (holding : Holding AccountId)
    (haccount : Crates.accountStrkey holding.account ≠ "")
    (hstated : holding.text.asset.isStated)
    (hown : OwnKey holding (txs.flatMap fun tx => ledgerChanges tx.2)) :
    ∃ rows, accountBalanceRows (ledgerAccountStates orders (txs.map fun tx =>
        extractLedgerEntryChanges tx.2 tx.1 ledgerSequence createdAt)) = .ok rows ∧
      rows.filter (·.key = rowKey holding.text) =
        ((lastClosing holding (txs.flatMap fun tx => ledgerChanges tx.2)).map
          (closingRow ledgerSequence holding.text)).toList := by
  set drained : List DrainedTransaction :=
    txs.zipIdx.map fun tx => ⟨orders tx.2, tx.1.1, tx.1.2⟩ with hdrained
  have hchanges : (drained.flatMap fun tx => ledgerChanges tx.txMeta) =
      txs.flatMap fun tx => ledgerChanges tx.2 := by
    have hfst : txs.zipIdx.map Prod.fst = txs := List.zipIdx_map_fst 0 txs
    rw [hdrained, List.flatMap_map]
    conv_rhs => rw [← hfst, List.flatMap_map]
  have hstates : ledgerAccountStates orders (txs.map fun tx =>
      extractLedgerEntryChanges tx.2 tx.1 ledgerSequence createdAt) =
      drained.flatMap (DrainedTransaction.states ledgerSequence createdAt) := by
    rw [ledgerAccountStates, List.zipIdx_map, List.flatMap_map, List.flatMap_map]
    rfl
  obtain ⟨rows, hrows, hledger, hlast⟩ := drainedStates_rows ledgerSequence createdAt haccount
    hstated drained (hchanges ▸ hown.uniqueKey)
  have hlookup := lookup_upsertBalance hledger
  -- a row is stored under its own key
  have hkeys : ∀ key row, (runAll (rows.flatten.map upsertBalance) ∅).lookup key = some row →
      row.key = key := by
    intro key row hrow
    rw [hlookup] at hrow
    exact of_decide_eq_true (List.mem_filter.mp (List.mem_of_getLast? hrow)).2
  refine ⟨values (runAll (rows.flatten.map upsertBalance) ∅), ?_, ?_⟩
  · rw [hstates, accountBalanceRows, hrows]
    rfl
  · rw [filter_values hkeys, hlookup, hlast, hchanges, hown.lastClosingText]

end SorobanExplorer
