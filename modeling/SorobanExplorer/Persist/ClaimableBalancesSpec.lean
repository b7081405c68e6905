import SorobanExplorer.Persist.BalancesSpec
import SorobanExplorer.Persist.ClaimableBalances

/-!
# One row per touched claimable balance

The rows of a ledger against the last change of each balance.  A removal is
stated under the asset of the image before it, which is the asset every earlier
row of the balance was stated under, so it takes that row's place.
-/

namespace SorobanExplorer

open KeepLast KeyedFold Text

/-- The claimable balance a change shows, before or after it. -/
def LedgerEntryChange.claimableImage : LedgerEntryChange → Option ClaimableBalanceEntry
  | .created ⟨_, .claimableBalance entry⟩ | .updated ⟨_, .claimableBalance entry⟩
  | .restored ⟨_, .claimableBalance entry⟩ | .state ⟨_, .claimableBalance entry⟩ => some entry
  | _ => none

def LedgerEntryChange.claimableRemoved : LedgerEntryChange → Option Hash
  | .removed (.claimableBalance balance) => some balance
  | _ => none

/-- The balance a change is about and what it leaves of it. -/
def LedgerEntryChange.claimableLeft : LedgerEntryChange → Option (Hash × Closing)
  | .created ⟨_, .claimableBalance entry⟩ | .updated ⟨_, .claimableBalance entry⟩
  | .restored ⟨_, .claimableBalance entry⟩ => some (entry.balanceId, .live entry.amount)
  | .removed (.claimableBalance balance) => some (balance, .removed)
  | _ => none

/-- Changes of a transaction in which every image shows its balance's one asset,
and every removal follows an image of its balance. -/
def ClaimableImaged (asset : Hash → Asset) : (seen : List Hash) → List LedgerEntryChange → Prop
  | _, [] => True
  | seen, change :: rest =>
      (∀ entry ∈ change.claimableImage, entry.asset = asset entry.balanceId) ∧
      (∀ balance ∈ change.claimableRemoved, balance ∈ seen) ∧
      ClaimableImaged asset
        ((change.claimableImage.map ClaimableBalanceEntry.balanceId).toList ++ seen) rest

section

variable [Crates]

def claimableAsset : Asset → ClaimableBalanceAsset
  | .native => .native
  | .creditAlphanum4 code issuer =>
      .credit (assetCodeStr code.bytes) (Crates.accountStrkey issuer)
  | .creditAlphanum12 code issuer =>
      .credit (assetCodeStr code.bytes) (Crates.accountStrkey issuer)

/-- The address of a claimable balance as a holder. -/
def claimableHolder (balance : Hash) : String :=
  Crates.scAddressStrkey (.claimableBalance balance)

/-- The holding a change leaves. -/
def claimableHolding (asset : Hash → Asset) (ledgerSequence : UInt32) (left : Hash × Closing) :
    ExtractedClaimableBalance where
  balanceId := claimableHolder left.1
  asset := claimableAsset (asset left.1)
  amount := left.2.balance
  ledgerSequence
  closed := left.2 = .removed

/-- The row a balance should have once the ledger left it so. -/
def claimableClosingRow (asset : Hash → Asset) (ledgerSequence : UInt32) (left : Hash × Closing) :
    BalanceRow where
  holderId := Ids.addressId (claimableHolder left.1)
  assetId := (claimableAsset (asset left.1)).assetId
  amount := left.2.balance
  lastUpdatedLedger := ledgerSequence.toNat
  closedAtLedger := left.2.closedAt ledgerSequence

theorem claimableBalanceRow_holding (asset : Hash → Asset) (ledgerSequence : UInt32)
    (left : Hash × Closing) :
    claimableBalanceRow (claimableHolding asset ledgerSequence left) =
      claimableClosingRow asset ledgerSequence left := by
  obtain ⟨balance, closing⟩ := left
  cases closing <;>
    simp [claimableBalanceRow, claimableHolding, claimableClosingRow, Closing.closedAt]

/-! ## What a transaction leaves -/

theorem balanceStrkey_hexEncode (balance : Hash) :
    balanceStrkey (hexEncode balance.bytes) = some (claimableHolder balance) := by
  simp [balanceStrkey, hexDecode_hexEncode, Hash.length_bytes, Hash.ofBytes_bytes,
    claimableHolder]

theorem assetOf_claimableBalanceData (entry : ClaimableBalanceEntry) :
    assetOf (claimableBalanceData entry) = some (claimableAsset entry.asset) := by
  cases hasset : entry.asset <;>
    simp [assetOf, claimableBalanceData, claimableAsset, formatAsset, hasset, Json.asStr]

/-- The table of assets knows every balance seen. -/
def Knows (asset : Hash → Asset) (seen : List Hash)
    (assetById : Table String ClaimableBalanceAsset) : Prop :=
  ∀ balance ∈ seen,
    assetById.lookup (hexEncode balance.bytes) = some (claimableAsset (asset balance))

theorem Knows.insert {asset : Hash → Asset} {seen : List Hash}
    {assetById : Table String ClaimableBalanceAsset} (h : Knows asset seen assetById)
    (balance : Hash) :
    Knows asset (balance :: seen)
      (assetById.insert (hexEncode balance.bytes) (claimableAsset (asset balance))) := by
  intro other hother
  by_cases heq : other = balance
  · subst heq
    exact AList.lookup_insert _
  · have hne : hexEncode other.bytes ≠ hexEncode balance.bytes := fun hhex =>
      heq (Hash.hexEncode_inj.mp hhex)
    rw [AList.lookup_insert_ne hne]
    exact h other ((List.mem_cons.mp hother).resolve_left heq)

section

variable {read : ClaimableExtraction} {change : ExtractedLedgerEntryChange}

theorem extractClaimableChange_other (h : change.entryType ≠ "claimable_balance") :
    extractClaimableChange read change = read :=
  if_pos h

theorem extractClaimableChange_state (entry : ClaimableBalanceEntry)
    (htype : change.entryType = "claimable_balance") (hkind : change.changeType = "state")
    (hkey : change.key = claimableBalanceKey entry.balanceId)
    (hdata : change.data = some (claimableBalanceData entry)) :
    extractClaimableChange read change =
      ⟨read.assetById.insert (hexEncode entry.balanceId.bytes) (claimableAsset entry.asset),
        read.out⟩ := by
  simp [extractClaimableChange, htype, hkind, hkey, hdata, claimableBalanceKey,
    assetOf_claimableBalanceData]

theorem extractClaimableChange_written (entry : ClaimableBalanceEntry)
    (htype : change.entryType = "claimable_balance") (hstate : change.changeType ≠ "state")
    (hkind : change.changeType ∈ ["created", "updated", "restored"])
    (hkey : change.key = claimableBalanceKey entry.balanceId)
    (hdata : change.data = some (claimableBalanceData entry)) :
    extractClaimableChange read change =
      ⟨read.assetById.insert (hexEncode entry.balanceId.bytes) (claimableAsset entry.asset),
        read.out ++ [
          { balanceId := claimableHolder entry.balanceId
            asset := claimableAsset entry.asset
            amount := entry.amount.toInt
            ledgerSequence := change.ledgerSequence
            closed := false }]⟩ := by
  have hamount : ((claimableBalanceData entry).get? "amount").bind Json.asI64 =
      some entry.amount.toInt := by
    simp [claimableBalanceData, Json.asI64_num entry.amount.le_toInt entry.amount.toInt_lt]
  have hid : ((claimableBalanceKey entry.balanceId).get? "balance_id").bind Json.asStr =
      some (hexEncode entry.balanceId.bytes) := by
    simp [claimableBalanceKey]
  simp only [extractClaimableChange, htype, hstate, hkind, hkey, hdata, hid, Option.bind_some,
    assetOf_claimableBalanceData, hamount, ClaimableExtraction.push, balanceStrkey_hexEncode]
  simp

theorem extractClaimableChange_removed {balance : Hash} {asset : ClaimableBalanceAsset}
    (htype : change.entryType = "claimable_balance") (hkind : change.changeType = "removed")
    (hkey : change.key = claimableBalanceKey balance)
    (hseen : read.assetById.lookup (hexEncode balance.bytes) = some asset) :
    extractClaimableChange read change =
      ⟨read.assetById, read.out ++ [
        { balanceId := claimableHolder balance
          asset
          amount := 0
          ledgerSequence := change.ledgerSequence
          closed := true }]⟩ := by
  simp [extractClaimableChange, htype, hkind, hkey, hseen, claimableBalanceKey,
    ClaimableExtraction.push, balanceStrkey_hexEncode]

end

/-- One change: the table learns the balance of its image, and the holding it
leaves is pushed. -/
theorem extractClaimableChange_spec {asset : Hash → Asset} {seen : List Hash}
    {read : ClaimableExtraction} (hknows : Knows asset seen read.assetById)
    {change : LedgerEntryChange}
    (hasset : ∀ entry ∈ change.claimableImage, entry.asset = asset entry.balanceId)
    (hremoved : ∀ balance ∈ change.claimableRemoved, balance ∈ seen)
    (operationIndex : Option ℕ) (transactionHash : String) (ledgerSequence : UInt32)
    (createdAt : ℤ) (changeIndex : ℕ) :
    let next := extractClaimableChange read (extractSingleChange change operationIndex
      transactionHash ledgerSequence createdAt changeIndex)
    next.out = read.out ++
        (change.claimableLeft.map (claimableHolding asset ledgerSequence)).toList ∧
      Knows asset ((change.claimableImage.map ClaimableBalanceEntry.balanceId).toList ++ seen)
        next.assetById := by
  intro next
  -- An image that was written, whatever wrote it.
  have hwritten : ∀ {changeType : String} (entry : ClaimableBalanceEntry) (seq : UInt32),
      changeType ∈ ["created", "updated", "restored"] → changeType ≠ "state" →
      changeInfo change = changeInfo.imageInfo changeType ⟨seq, .claimableBalance entry⟩ →
      change.claimableImage = some entry →
      change.claimableLeft = some (entry.balanceId, .live entry.amount) →
      next.out = read.out ++
          (change.claimableLeft.map (claimableHolding asset ledgerSequence)).toList ∧
        Knows asset ((change.claimableImage.map ClaimableBalanceEntry.balanceId).toList ++ seen)
          next.assetById := by
    intro changeType entry seq hmem hstate hinfo himage hleft
    have hnext : next = _ := extractClaimableChange_written entry
      (by simp [extractSingleChange, hinfo, changeInfo.imageInfo, extractEntryInfo])
      (by simpa [extractSingleChange, hinfo, changeInfo.imageInfo] using hstate)
      (by simpa [extractSingleChange, hinfo, changeInfo.imageInfo] using hmem)
      (by simp [extractSingleChange, hinfo, changeInfo.imageInfo, extractEntryInfo])
      (by simp [extractSingleChange, hinfo, changeInfo.imageInfo, extractEntryInfo])
    rw [hnext, himage, hleft, hasset entry himage]
    exact ⟨by simp [claimableHolding, Closing.balance, extractSingleChange],
      hknows.insert entry.balanceId⟩
  have hother : (changeInfo change).2.1 ≠ "claimable_balance" → change.claimableImage = none →
      change.claimableLeft = none →
      next.out = read.out ++
          (change.claimableLeft.map (claimableHolding asset ledgerSequence)).toList ∧
        Knows asset ((change.claimableImage.map ClaimableBalanceEntry.balanceId).toList ++ seen)
          next.assetById := by
    intro htype himage hleft
    have hnext : next = read := extractClaimableChange_other htype
    rw [hnext, himage, hleft]
    exact ⟨by simp, hknows⟩
  cases change with
  | created entry =>
      obtain ⟨seq, data⟩ := entry
      cases data with
      | claimableBalance entry => exact hwritten entry seq (by decide) (by decide) rfl rfl rfl
      | _ => exact hother (by simp [changeInfo, changeInfo.imageInfo, extractEntryInfo]) rfl rfl
  | updated entry =>
      obtain ⟨seq, data⟩ := entry
      cases data with
      | claimableBalance entry => exact hwritten entry seq (by decide) (by decide) rfl rfl rfl
      | _ => exact hother (by simp [changeInfo, changeInfo.imageInfo, extractEntryInfo]) rfl rfl
  | restored entry =>
      obtain ⟨seq, data⟩ := entry
      cases data with
      | claimableBalance entry => exact hwritten entry seq (by decide) (by decide) rfl rfl rfl
      | _ => exact hother (by simp [changeInfo, changeInfo.imageInfo, extractEntryInfo]) rfl rfl
  | state entry =>
      obtain ⟨seq, data⟩ := entry
      cases data with
      | claimableBalance entry =>
          have hnext : next = _ := extractClaimableChange_state entry rfl rfl rfl rfl
          rw [hnext, hasset entry rfl]
          exact ⟨by simp [LedgerEntryChange.claimableLeft], hknows.insert entry.balanceId⟩
      | _ => exact hother (by simp [changeInfo, changeInfo.imageInfo, extractEntryInfo]) rfl rfl
  | removed key =>
      cases key with
      | claimableBalance balance =>
          -- A removal has no asset; the table knows it from an image before.
          have hseen := hknows balance (hremoved balance rfl)
          have hnext : next = _ := extractClaimableChange_removed rfl rfl rfl hseen
          rw [hnext]
          exact ⟨rfl, hknows⟩
      | _ => exact hother (by simp [changeInfo, extractKeyInfo]) rfl rfl

/-- A transaction's holdings are what its changes leave, in order. -/
theorem foldl_extractClaimableChange {asset : Hash → Asset}
    {changes : List ((Option ℕ × LedgerEntryChange) × ℕ)} {transactionHash : String}
    {ledgerSequence : UInt32} {createdAt : ℤ} :
    ∀ {seen : List Hash} {read : ClaimableExtraction}, Knows asset seen read.assetById →
      ClaimableImaged asset seen (changes.map fun indexed => indexed.1.2) →
      ((changes.map fun indexed => extractSingleChange indexed.1.2 indexed.1.1 transactionHash
        ledgerSequence createdAt indexed.2).foldl extractClaimableChange read).out =
        read.out ++ ((changes.map fun indexed => indexed.1.2).filterMap
          LedgerEntryChange.claimableLeft).map (claimableHolding asset ledgerSequence) := by
  induction changes with
  | nil => simp
  | cons indexed rest ih =>
      intro seen read hknows himaged
      obtain ⟨hasset, hremoved, hrest⟩ := himaged
      obtain ⟨hout, hnext⟩ := extractClaimableChange_spec hknows hasset hremoved indexed.1.1
        transactionHash ledgerSequence createdAt indexed.2
      rw [List.map_cons, List.foldl_cons, ih hnext hrest, hout]
      cases hleft : indexed.1.2.claimableLeft <;> simp [hleft]

/-! ## The rows of a ledger -/

/-- A ledger's transactions, by hash and meta. -/
structure ClaimableLedger where
  ledgerSequence : UInt32
  createdAt : ℤ
  txs : List (String × TransactionMeta)

namespace ClaimableLedger

/-- The changes of a ledger that are read, in apply order. -/
def changes (ledger : ClaimableLedger) : List LedgerEntryChange :=
  ledger.txs.flatMap fun tx => ledgerChanges tx.2

/-- What the ledger leaves of a balance; nothing if it does not touch it. -/
def last (ledger : ClaimableLedger) (balance : Hash) : Option Closing :=
  lastOf balance (ledger.changes.filterMap LedgerEntryChange.claimableLeft)

/-- The rows staged for the ledger. -/
def rows (ledger : ClaimableLedger) : List BalanceRow :=
  buildClaimableBalanceRows (ledgerClaimableBalances (ledger.txs.map fun tx =>
    extractLedgerEntryChanges tx.2 tx.1 ledger.ledgerSequence ledger.createdAt))

end ClaimableLedger

/-- A run of ledgers in which every balance keeps its asset, every removal comes
after an image of its balance in the same transaction, and the touched balances
have holder ids of their own. -/
structure ClaimableHistory (asset : Hash → Asset) (ledgers : List ClaimableLedger) : Prop where
  imaged : ∀ ledger ∈ ledgers, ∀ tx ∈ ledger.txs, ClaimableImaged asset [] (ledgerChanges tx.2)
  ownHolder : ∀ ledger ∈ ledgers, ∀ ledger' ∈ ledgers, ∀ balance balance',
    (ledger.last balance).isSome → (ledger'.last balance').isSome →
    Ids.addressId (claimableHolder balance) = Ids.addressId (claimableHolder balance') →
    balance = balance'

/-- The holdings of a transaction, the last one of each balance. -/
theorem extractClaimableBalances_imaged {asset : Hash → Asset} {txMeta : TransactionMeta}
    (himaged : ClaimableImaged asset [] (ledgerChanges txMeta)) (transactionHash : String)
    (ledgerSequence : UInt32) (createdAt : ℤ) :
    extractClaimableBalances
        (extractLedgerEntryChanges txMeta transactionHash ledgerSequence createdAt) =
      keepLastByKey (fun balance => (balance.balanceId, balance.ledgerSequence))
        (((ledgerChanges txMeta).filterMap LedgerEntryChange.claimableLeft).map
          (claimableHolding asset ledgerSequence)) := by
  have hknows : Knows asset [] (∅ : Table String ClaimableBalanceAsset) :=
    fun balance hbalance => absurd hbalance List.not_mem_nil
  rw [← indexedChanges_change] at himaged ⊢
  unfold extractClaimableBalances extractLedgerEntryChanges
  have hread : Knows asset [] (⟨∅, []⟩ : ClaimableExtraction).assetById := hknows
  rw [foldl_extractClaimableChange hread himaged]
  rfl

namespace ClaimableHistory

variable {asset : Hash → Asset} {ledgers : List ClaimableLedger} {ledger : ClaimableLedger}

/-- Everything a ledger's changes leave, in apply order. -/
def left (ledger : ClaimableLedger) : List (Hash × Closing) :=
  ledger.changes.filterMap LedgerEntryChange.claimableLeft

/-- A ledger's holdings, transaction by transaction. -/
theorem ledgerClaimableBalances_eq (h : ClaimableHistory asset ledgers) (hledger : ledger ∈ ledgers) :
    ledgerClaimableBalances (ledger.txs.map fun tx =>
        extractLedgerEntryChanges tx.2 tx.1 ledger.ledgerSequence ledger.createdAt) =
      ledger.txs.flatMap fun tx => keepLastByKey
        (fun balance => (balance.balanceId, balance.ledgerSequence))
        (((ledgerChanges tx.2).filterMap LedgerEntryChange.claimableLeft).map
          (claimableHolding asset ledger.ledgerSequence)) := by
  unfold ledgerClaimableBalances
  rw [List.flatMap_map]
  apply List.flatMap_congr
  intro tx htx
  exact extractClaimableBalances_imaged (h.imaged ledger hledger tx htx) tx.1
    ledger.ledgerSequence ledger.createdAt

theorem flatMap_holdings (ledger : ClaimableLedger) :
    (ledger.txs.flatMap fun tx =>
      ((ledgerChanges tx.2).filterMap LedgerEntryChange.claimableLeft).map
        (claimableHolding asset ledger.ledgerSequence)) =
      (left ledger).map (claimableHolding asset ledger.ledgerSequence) := by
  simp only [left, ClaimableLedger.changes, List.filterMap_flatMap, List.map_flatMap]

/-- Holders of the balances a ledger touches are told apart by their ids. -/
theorem holder_iff (h : ClaimableHistory asset ledgers) (hledger : ledger ∈ ledgers)
    {balance : Hash} (htouched : (ledger.last balance).isSome) {x : Hash × Closing}
    (hx : x ∈ left ledger) :
    Ids.addressId (claimableHolder x.1) = Ids.addressId (claimableHolder balance) ↔
      x.1 = balance := by
  constructor
  · exact h.ownHolder ledger hledger ledger hledger x.1 balance (isSome_lastOf_of_mem hx) htouched
  · intro heq
    rw [heq]

/-- Every holding of a ledger is of something its changes left. -/
theorem exists_left_of_mem {parts : List (String × TransactionMeta)} {balance}
    (h : balance ∈ parts.flatMap fun tx => keepLastByKey
        (fun balance => (balance.balanceId, balance.ledgerSequence))
        (((ledgerChanges tx.2).filterMap LedgerEntryChange.claimableLeft).map
          (claimableHolding asset ledger.ledgerSequence)))
    (hparts : parts = ledger.txs) :
    ∃ x ∈ left ledger, claimableHolding asset ledger.ledgerSequence x = balance := by
  obtain ⟨tx, htx, hmem⟩ := List.mem_flatMap.mp h
  obtain ⟨x, hx, hbalance⟩ := List.mem_map.mp (mem_of_mem_keepLastByKey hmem)
  refine ⟨x, ?_, hbalance⟩
  unfold left ClaimableLedger.changes
  rw [List.filterMap_flatMap, ← hparts]
  exact List.mem_flatMap.mpr ⟨tx, htx, hx⟩

/-- The last holding of a touched balance is of what its last change left. -/
theorem getLast?_holdings (h : ClaimableHistory asset ledgers) (hledger : ledger ∈ ledgers)
    {balance : Hash} {closing : Closing} (hlast : ledger.last balance = some closing) :
    ((ledgerClaimableBalances (ledger.txs.map fun tx =>
        extractLedgerEntryChanges tx.2 tx.1 ledger.ledgerSequence ledger.createdAt)).filter
      fun held => Ids.addressId held.balanceId = Ids.addressId (claimableHolder balance)).getLast? =
      some (claimableHolding asset ledger.ledgerSequence (balance, closing)) := by
  have htouched : (ledger.last balance).isSome := by rw [hlast]; rfl
  -- two touched balances with one holder id are one
  have hkey : ∀ tx ∈ ledger.txs, ∀ held ∈
      ((ledgerChanges tx.2).filterMap LedgerEntryChange.claimableLeft).map
        (claimableHolding asset ledger.ledgerSequence),
      decide (Ids.addressId held.balanceId = Ids.addressId (claimableHolder balance)) = true ↔
        (held.balanceId, held.ledgerSequence) = (claimableHolder balance, ledger.ledgerSequence) := by
    intro tx htx held hheld
    obtain ⟨x, hx, rfl⟩ := List.mem_map.mp hheld
    have hmem : x ∈ left ledger := by
      unfold left ClaimableLedger.changes
      rw [List.filterMap_flatMap]
      exact List.mem_flatMap.mpr ⟨tx, htx, hx⟩
    have hiff := h.holder_iff hledger htouched hmem
    rw [decide_eq_true_iff]
    constructor
    · intro hid
      rw [← hiff.mp hid]
      rfl
    · intro heq
      exact congrArg (fun key => Ids.addressId key.1) heq
  have hself : ∀ x ∈ left ledger,
      decide (Ids.addressId (claimableHolding asset ledger.ledgerSequence x).balanceId =
        Ids.addressId (claimableHolder balance)) = decide (x.1 = balance) := by
    intro x hx
    rw [decide_eq_decide]
    exact h.holder_iff hledger htouched hx
  calc _ = (((left ledger).map (claimableHolding asset ledger.ledgerSequence)).filter
          fun held => Ids.addressId held.balanceId =
            Ids.addressId (claimableHolder balance)).getLast? := by
        rw [h.ledgerClaimableBalances_eq hledger, getLast?_filter_flatMap_keepLastByKey hkey,
          flatMap_holdings]
    _ = ((left ledger).filter (·.1 = balance)).getLast?.map
          (claimableHolding asset ledger.ledgerSequence) := by
        rw [List.filter_map, List.getLast?_map]
        congr 2
        exact List.filter_congr hself
    _ = some (claimableHolding asset ledger.ledgerSequence (balance, closing)) := by
        have hleft : lastOf balance (left ledger) = some closing := hlast
        rw [getLast?_filter_fst, hleft]
        rfl

/-- A touched balance has one row, of what its last change left. -/
theorem filter_rows (h : ClaimableHistory asset ledgers) (hledger : ledger ∈ ledgers)
    {balance : Hash} {closing : Closing} (hlast : ledger.last balance = some closing) :
    ledger.rows.filter (·.holderId = Ids.addressId (claimableHolder balance)) =
      [claimableClosingRow asset ledger.ledgerSequence (balance, closing)] := by
  have htouched : (ledger.last balance).isSome := by rw [hlast]; rfl
  -- the other parts of the key are those of the balance
  have hkey : ∀ row ∈ (ledgerClaimableBalances (ledger.txs.map fun tx => extractLedgerEntryChanges
      tx.2 tx.1 ledger.ledgerSequence ledger.createdAt)).map claimableBalanceRow,
      decide (row.holderId = Ids.addressId (claimableHolder balance)) = true ↔
        (row.holderId, row.assetId, row.lastUpdatedLedger) =
          (Ids.addressId (claimableHolder balance), (claimableAsset (asset balance)).assetId,
            (ledger.ledgerSequence.toNat : ℤ)) := by
    intro row hrow
    obtain ⟨held, hheld, rfl⟩ := List.mem_map.mp hrow
    rw [h.ledgerClaimableBalances_eq hledger] at hheld
    obtain ⟨x, hx, rfl⟩ := exists_left_of_mem hheld rfl
    rw [claimableBalanceRow_holding, decide_eq_true_iff]
    constructor
    · intro hid
      rw [← (h.holder_iff hledger htouched hx).mp hid]
      rfl
    · intro heq
      exact congrArg Prod.fst heq
  unfold ClaimableLedger.rows buildClaimableBalanceRows
  rw [filter_keepLastByKey_of_iff hkey, List.filter_map, List.getLast?_map]
  calc _ = ((some (claimableHolding asset ledger.ledgerSequence (balance, closing))).map
          claimableBalanceRow).toList :=
        congrArg (fun last => (Option.map claimableBalanceRow last).toList)
          (h.getLast?_holdings hledger hlast)
    _ = [claimableClosingRow asset ledger.ledgerSequence (balance, closing)] := by
        rw [Option.map_some, claimableBalanceRow_holding]
        rfl

/-- Every row is of a touched balance. -/
theorem exists_of_mem_rows (h : ClaimableHistory asset ledgers) (hledger : ledger ∈ ledgers)
    {row : BalanceRow} (hrow : row ∈ ledger.rows) :
    ∃ balance closing, ledger.last balance = some closing ∧
      row = claimableClosingRow asset ledger.ledgerSequence (balance, closing) := by
  obtain ⟨held, hheld, hrowOf⟩ := List.mem_map.mp (mem_of_mem_keepLastByKey hrow)
  rw [h.ledgerClaimableBalances_eq hledger] at hheld
  obtain ⟨x, hx, rfl⟩ := exists_left_of_mem hheld rfl
  obtain ⟨closing, hclosing⟩ := Option.isSome_iff_exists.mp (isSome_lastOf_of_mem hx)
  have hlast : ledger.last x.1 = some closing := hclosing
  have hfilter := h.filter_rows hledger hlast
  have hmem : row ∈ ledger.rows.filter
      (·.holderId = Ids.addressId (claimableHolder x.1)) := by
    rw [List.mem_filter]
    refine ⟨hrow, ?_⟩
    rw [← hrowOf]
    exact decide_eq_true rfl
  rw [hfilter, List.mem_singleton] at hmem
  exact ⟨x.1, closing, hlast, hmem⟩

end ClaimableHistory

/-- In every ledger of a history each touched balance has exactly one row, of what
its last change left, and there is no other row; and over the whole history two
rows share a sorting key exactly when they are of one balance, so that the
tombstone of a removal takes the place of the live row written before it and of
no other. -/
theorem claimableRows_of_lastChange {asset : Hash → Asset} {ledgers : List ClaimableLedger}
    (h : ClaimableHistory asset ledgers) :
    (∀ ledger ∈ ledgers,
      (∀ balance closing, ledger.last balance = some closing →
        ledger.rows.filter (·.holderId = Ids.addressId (claimableHolder balance)) =
          [claimableClosingRow asset ledger.ledgerSequence (balance, closing)]) ∧
      ∀ row ∈ ledger.rows, ∃ balance closing, ledger.last balance = some closing ∧
        row = claimableClosingRow asset ledger.ledgerSequence (balance, closing)) ∧
    ∀ ledger ∈ ledgers, ∀ ledger' ∈ ledgers, ∀ balance closing balance' closing',
      ledger.last balance = some closing → ledger'.last balance' = some closing' →
      ((claimableClosingRow asset ledger.ledgerSequence (balance, closing)).key =
        (claimableClosingRow asset ledger'.ledgerSequence (balance', closing')).key ↔
          balance = balance') := by
  refine ⟨fun ledger hledger => ⟨fun balance closing => h.filter_rows hledger,
    fun row => h.exists_of_mem_rows hledger⟩, ?_⟩
  intro ledger hledger ledger' hledger' balance closing balance' closing' hlast hlast'
  constructor
  · intro hkey
    exact h.ownHolder ledger hledger ledger' hledger' balance balance' (by rw [hlast]; rfl)
      (by rw [hlast']; rfl) (congrArg Prod.fst hkey)
  · rintro rfl
    rfl

end

/-! ## A balance claimed, and a removal without an image -/

/-- A balance whose address the repository's tests pin. -/
def pinnedBalance : Hash :=
  0x3f0c34bf93ad0d9971d04ccc90f705511c838aad9734a4a2fb0d7a03fc7fe89a

/-- The third-party functions on the pinned balance as well. -/
@[reducible] def Crates.pinnedClaimable : Crates :=
  { Crates.pinned with
    scAddressStrkey := fun address =>
      if address = .claimableBalance pinnedBalance then
        "BAAD6DBUX6J22DMZOHIEZTEQ64CVCHEDRKWZONFEUL5Q26QD7R76RGR4TU"
      else Crates.pinned.scAddressStrkey address
    cityhash128 := fun text =>
      if text = "BAAD6DBUX6J22DMZOHIEZTEQ64CVCHEDRKWZONFEUL5Q26QD7R76RGR4TU" then
        (-2589523374225099532 : Int64).toBitVec.setWidth 128
      else Crates.pinned.cityhash128 text }

/-- The pinned balance, holding 500 of the native asset. -/
def pinnedClaimable : LedgerEntry where
  lastModifiedLedgerSeq := 64400000
  data := .claimableBalance
    { balanceId := pinnedBalance, claimants := [Crates.pinnedAccount], asset := .native
      amount := 500 }

def createdThenClaimed : List ClaimableLedger :=
  [⟨64400000, 0, [("aa", .v4 [] [{ changes := [.created pinnedClaimable], events := [] }] [] none
      [] [])]⟩,
    ⟨64400001, 0, [("bb", .v4 [] [{
      changes := [.state pinnedClaimable, .removed (.claimableBalance pinnedBalance)]
      events := [] }] [] none [] [])]⟩]

theorem eq_pinnedBalance_of_last {ledger : ClaimableLedger} (hledger : ledger ∈ createdThenClaimed)
    {balance : Hash} (htouched : (ledger.last balance).isSome) : balance = pinnedBalance := by
  obtain ⟨closing, hclosing⟩ := Option.isSome_iff_exists.mp htouched
  have hmem : (balance, closing) ∈ ledger.changes.filterMap LedgerEntryChange.claimableLeft :=
    mem_of_lastOf hclosing
  simp only [createdThenClaimed, List.mem_cons, List.not_mem_nil, or_false] at hledger
  rcases hledger with rfl | rfl
  · exact congrArg Prod.fst (List.mem_singleton.mp hmem)
  · exact congrArg Prod.fst (List.mem_singleton.mp hmem)

theorem claimableHistory_createdThenClaimed :
    @ClaimableHistory Crates.pinnedClaimable (fun _ => .native) createdThenClaimed := by
  let _ : Crates := Crates.pinnedClaimable
  refine ⟨?_, ?_⟩
  · intro ledger hledger tx htx
    simp only [createdThenClaimed, List.mem_cons, List.not_mem_nil, or_false] at hledger
    rcases hledger with rfl | rfl
    · obtain rfl := List.mem_singleton.mp htx
      simp [ClaimableImaged, ledgerChanges, LedgerEntryChange.claimableImage, pinnedClaimable,
        LedgerEntryChange.claimableRemoved]
    · obtain rfl := List.mem_singleton.mp htx
      simp [ClaimableImaged, ledgerChanges, LedgerEntryChange.claimableImage, pinnedClaimable,
        LedgerEntryChange.claimableRemoved]
  · intro ledger hledger ledger' hledger' balance balance' htouched htouched' _
    rw [eq_pinnedBalance_of_last hledger htouched, eq_pinnedBalance_of_last hledger' htouched']

theorem claimableRows_of_lastChange_claimed :
    (@ClaimableLedger.rows Crates.pinnedClaimable ⟨64400001, 0, [("bb", .v4 [] [{
        changes := [.state pinnedClaimable, .removed (.claimableBalance pinnedBalance)]
        events := [] }] [] none [] [])]⟩).filter
        (·.holderId = -2589523374225099532) =
      [{ holderId := -2589523374225099532, assetId := -6959166271784855184, amount := 0
         lastUpdatedLedger := 64400001, closedAtLedger := 64400001 }] :=
  ((@claimableRows_of_lastChange Crates.pinnedClaimable (fun _ => .native) createdThenClaimed
    claimableHistory_createdThenClaimed).1 _ (List.mem_cons_of_mem _ List.mem_cons_self)).1
    pinnedBalance .removed (by decide)

/-- Every touched balance has exactly one row. -/
def StagesEachClaimable [Crates] (ledger : ClaimableLedger) : Prop :=
  ∀ balance closing, ledger.last balance = some closing →
    ∃ row, ledger.rows.filter (·.holderId = Ids.addressId (claimableHolder balance)) = [row]

/-- A removal with no image of its balance before it is dropped. -/
theorem not_stagesEachClaimable_noImage :
    ¬ @StagesEachClaimable Crates.pinnedClaimable ⟨64400001, 0, [("bb", .v4 [] [{
      changes := [.removed (.claimableBalance pinnedBalance)]
      events := [] }] [] none [] [])]⟩ := by
  let _ : Crates := Crates.pinnedClaimable
  intro h
  obtain ⟨row, hrow⟩ := h pinnedBalance .removed (by decide)
  have hnone : ClaimableLedger.rows ⟨64400001, 0, [("bb", .v4 [] [{
      changes := [.removed (.claimableBalance pinnedBalance)]
      events := [] }] [] none [] [])]⟩ = [] := by decide
  rw [hnone] at hrow
  cases hrow

end SorobanExplorer
