import Mathlib.Data.List.Forall2
import SorobanExplorer.Parser.ScVal

/-!
# Ledger entry changes

The changes of one transaction's meta, in canonical order, and their extracted
form: a change type, an entry type, the entry's key and, unless the entry was
removed, its data.
-/

namespace SorobanExplorer

open Text

/-- One extracted change. -/
structure ExtractedLedgerEntryChange where
  transactionHash : String
  changeType : String
  entryType : String
  key : Json
  data : Option Json
  changeIndex : ℕ
  operationIndex : Option ℕ
  ledgerSequence : UInt32
  createdAt : ℤ
  deriving DecidableEq

/-- Valid UTF-8 with its trailing NULs stripped, or `0x` and the raw bytes in hex. -/
def assetCodeStr (bytes : Bytes) : String :=
  match fromUtf8 bytes with
  | some text => trimEndMatches '\x00' text
  | none => "0x" ++ hexEncode bytes

section

variable [Crates]

/-! ## Keys and data -/

def formatTrustlineAsset : TrustLineAsset → Json
  | .native => .str "native"
  | .creditAlphanum4 code issuer => .obj [("type", .str "credit_alphanum4"),
      ("code", .str (assetCodeStr code.bytes)), ("issuer", .str (Crates.accountStrkey issuer))]
  | .creditAlphanum12 code issuer => .obj [("type", .str "credit_alphanum12"),
      ("code", .str (assetCodeStr code.bytes)), ("issuer", .str (Crates.accountStrkey issuer))]
  | .poolShare pool =>
      .obj [("type", .str "pool_share"), ("pool_id", .str (hexEncode pool.bytes))]

def formatAsset : Asset → Json
  | .native => .str "native"
  | .creditAlphanum4 code issuer => .obj [("type", .str "credit_alphanum4"),
      ("code", .str (assetCodeStr code.bytes)), ("issuer", .str (Crates.accountStrkey issuer))]
  | .creditAlphanum12 code issuer => .obj [("type", .str "credit_alphanum12"),
      ("code", .str (assetCodeStr code.bytes)), ("issuer", .str (Crates.accountStrkey issuer))]

def formatDurability : ContractDataDurability → String
  | .temporary => "temporary"
  | .persistent => "persistent"

def signerTypeName : SignerKey → String
  | .ed25519 _ => "ed25519"
  | .preAuthTx _ => "preauth_tx"
  | .hashX _ => "hash_x"
  | .ed25519SignedPayload _ _ => "ed25519_signed_payload"

def signerJson (signer : Signer) : Json :=
  .obj [("key", .str (Crates.signerKeyStrkey signer.key)),
    ("weight", .num signer.weight.toNat), ("type", .str (signerTypeName signer.key))]

/-- Reserves the account pays for others; 0 without the extension. -/
def numSponsoring (entry : AccountEntry) : UInt32 :=
  (entry.sponsorship.map Prod.fst).getD 0

/-- Reserves of the account paid by others; 0 without the extension. -/
def numSponsored (entry : AccountEntry) : UInt32 :=
  (entry.sponsorship.map Prod.snd).getD 0

def accountKey (accountId : AccountId) : Json :=
  .obj [("account_id", .str (Crates.accountStrkey accountId))]

def accountData (entry : AccountEntry) : Json :=
  .obj [("account_id", .str (Crates.accountStrkey entry.accountId)),
    ("balance", .num entry.balance.toInt),
    ("seq_num", .num entry.seqNum.toInt),
    ("num_sub_entries", .num entry.numSubEntries.toNat),
    ("home_domain", .str (fromUtf8Lossy entry.homeDomain)),
    ("thresholds", .str (hexEncode entry.thresholds)),
    ("flags", .num entry.flags.toNat),
    ("num_sponsoring", .num (numSponsoring entry).toNat),
    ("num_sponsored", .num (numSponsored entry).toNat),
    ("signers", .arr (entry.signers.map signerJson))]

def trustlineKey (accountId : AccountId) (asset : TrustLineAsset) : Json :=
  .obj [("account_id", .str (Crates.accountStrkey accountId)),
    ("asset", formatTrustlineAsset asset)]

def trustlineData (entry : TrustLineEntry) : Json :=
  .obj [("account_id", .str (Crates.accountStrkey entry.accountId)),
    ("asset", formatTrustlineAsset entry.asset),
    ("balance", .num entry.balance.toInt),
    ("limit", .num entry.limit.toInt),
    ("flags", .num entry.flags.toNat)]

def offerKey (sellerId : AccountId) (offerId : Int64) : Json :=
  .obj [("seller_id", .str (Crates.accountStrkey sellerId)), ("offer_id", .num offerId.toInt)]

def offerData (entry : OfferEntry) : Json :=
  .obj [("seller_id", .str (Crates.accountStrkey entry.sellerId)),
    ("offer_id", .num entry.offerId.toInt),
    ("selling", formatAsset entry.selling),
    ("buying", formatAsset entry.buying),
    ("amount", .num entry.amount.toInt),
    ("price", .obj [("n", .num entry.priceN.toInt), ("d", .num entry.priceD.toInt)]),
    ("flags", .num entry.flags.toNat)]

def dataEntryKey (accountId : AccountId) (dataName : Bytes) : Json :=
  .obj [("account_id", .str (Crates.accountStrkey accountId)),
    ("data_name", .str (fromUtf8Lossy dataName))]

def dataEntryData (entry : DataEntry) : Json :=
  .obj [("account_id", .str (Crates.accountStrkey entry.accountId)),
    ("data_name", .str (fromUtf8Lossy entry.dataName)),
    ("data_value", .str (hexEncode entry.dataValue))]

def claimableBalanceKey (balanceId : Hash) : Json :=
  .obj [("balance_id", .str (hexEncode balanceId.bytes))]

def claimableBalanceData (entry : ClaimableBalanceEntry) : Json :=
  .obj [("balance_id", .str (hexEncode entry.balanceId.bytes)),
    ("asset", formatAsset entry.asset),
    ("amount", .num entry.amount.toInt),
    ("claimants", .arr (entry.claimants.map fun destination =>
      .obj [("destination", .str (Crates.accountStrkey destination))]))]

def liquidityPoolKey (liquidityPoolId : Hash) : Json :=
  .obj [("pool_id", .str (hexEncode liquidityPoolId.bytes))]

def liquidityPoolData (entry : LiquidityPoolEntry) : Json :=
  .obj [("pool_id", .str (hexEncode entry.liquidityPoolId.bytes)),
    ("type", .str "constant_product"),
    ("params", .obj [("asset_a", formatAsset entry.assetA), ("asset_b", formatAsset entry.assetB),
      ("fee", .num entry.fee.toInt)]),
    ("reserve_a", .num entry.reserveA.toInt),
    ("reserve_b", .num entry.reserveB.toInt),
    ("total_pool_shares", .num entry.totalPoolShares.toInt),
    ("pool_shares_trust_line_count", .num entry.poolSharesTrustLineCount.toInt)]

def contractDataKey (contract : ScAddress) (key : ScVal) (durability : ContractDataDurability) :
    Json :=
  .obj [("contract", .str (Crates.scAddressStrkey contract)),
    ("key", scvalToTypedJson key), ("durability", .str (formatDurability durability))]

def contractDataData (entry : ContractDataEntry) : Json :=
  .obj [("contract", .str (Crates.scAddressStrkey entry.contract)),
    ("key", scvalToTypedJson entry.key),
    ("durability", .str (formatDurability entry.durability)),
    ("val", scvalToTypedJson entry.val)]

def contractCodeKey (hash : Hash) : Json :=
  .obj [("hash", .str (hexEncode hash.bytes))]

def contractCodeData (entry : ContractCodeEntry) : Json :=
  .obj [("hash", .str (hexEncode entry.hash.bytes)), ("code_byte_len", .num entry.code.length)]

def ttlKey (keyHash : Hash) : Json :=
  .obj [("key_hash", .str (hexEncode keyHash.bytes))]

def ttlData (keyHash : Hash) (liveUntilLedgerSeq : UInt32) : Json :=
  .obj [("key_hash", .str (hexEncode keyHash.bytes)),
    ("live_until_ledger_seq", .num liveUntilLedgerSeq.toNat)]

/-- Stored name of a config setting. -/
def configSettingIdName : ConfigSettingId → String
  | .contractMaxSizeBytes => "contract_max_size_bytes"
  | .contractComputeV0 => "contract_compute_v0"
  | .contractLedgerCostV0 => "contract_ledger_cost_v0"
  | .contractHistoricalDataV0 => "contract_historical_data_v0"
  | .contractEventsV0 => "contract_events_v0"
  | .contractBandwidthV0 => "contract_bandwidth_v0"
  | .contractCostParamsCpuInstructions => "contract_cost_params_cpu"
  | .contractCostParamsMemoryBytes => "contract_cost_params_memory"
  | .contractDataKeySizeBytes => "contract_data_key_size_bytes"
  | .contractDataEntrySizeBytes => "contract_data_entry_size_bytes"
  | .stateArchival => "state_archival"
  | .contractExecutionLanes => "contract_execution_lanes"
  | .evictionIterator => "eviction_iterator"
  | .liveSorobanStateSizeWindow => "live_soroban_state_size_window"
  | .contractParallelComputeV0 => "contract_parallel_compute_v0"
  | .contractLedgerCostExtV0 => "contract_ledger_cost_ext_v0"
  | .scpTiming => "scp_timing"
  | .frozenLedgerKeys => "frozen_ledger_keys"
  | .frozenLedgerKeysDelta => "frozen_ledger_keys_delta"
  | .freezeBypassTxs => "freeze_bypass_txs"
  | .freezeBypassTxsDelta => "freeze_bypass_txs_delta"

/-- `{:?}` of a config setting's id, which a removal's key carries instead. -/
def ConfigSettingId.debugName : ConfigSettingId → String
  | .contractMaxSizeBytes => "ContractMaxSizeBytes"
  | .contractComputeV0 => "ContractComputeV0"
  | .contractLedgerCostV0 => "ContractLedgerCostV0"
  | .contractHistoricalDataV0 => "ContractHistoricalDataV0"
  | .contractEventsV0 => "ContractEventsV0"
  | .contractBandwidthV0 => "ContractBandwidthV0"
  | .contractCostParamsCpuInstructions => "ContractCostParamsCpuInstructions"
  | .contractCostParamsMemoryBytes => "ContractCostParamsMemoryBytes"
  | .contractDataKeySizeBytes => "ContractDataKeySizeBytes"
  | .contractDataEntrySizeBytes => "ContractDataEntrySizeBytes"
  | .stateArchival => "StateArchival"
  | .contractExecutionLanes => "ContractExecutionLanes"
  | .evictionIterator => "EvictionIterator"
  | .liveSorobanStateSizeWindow => "LiveSorobanStateSizeWindow"
  | .contractParallelComputeV0 => "ContractParallelComputeV0"
  | .contractLedgerCostExtV0 => "ContractLedgerCostExtV0"
  | .scpTiming => "ScpTiming"
  | .frozenLedgerKeys => "FrozenLedgerKeys"
  | .frozenLedgerKeysDelta => "FrozenLedgerKeysDelta"
  | .freezeBypassTxs => "FreezeBypassTxs"
  | .freezeBypassTxsDelta => "FreezeBypassTxsDelta"

/-- Entry type, key and data of a ledger entry. -/
def extractEntryInfo : LedgerEntryData → String × Json × Json
  | .account entry => ("account", accountKey entry.accountId, accountData entry)
  | .trustline entry =>
      ("trustline", trustlineKey entry.accountId entry.asset, trustlineData entry)
  | .offer entry => ("offer", offerKey entry.sellerId entry.offerId, offerData entry)
  | .data entry => ("data", dataEntryKey entry.accountId entry.dataName, dataEntryData entry)
  | .claimableBalance entry =>
      ("claimable_balance", claimableBalanceKey entry.balanceId, claimableBalanceData entry)
  | .liquidityPool entry =>
      ("liquidity_pool", liquidityPoolKey entry.liquidityPoolId, liquidityPoolData entry)
  | .contractData entry =>
      ("contract_data", contractDataKey entry.contract entry.key entry.durability,
        contractDataData entry)
  | .contractCode entry => ("contract_code", contractCodeKey entry.hash, contractCodeData entry)
  | .configSetting id => ("config_setting",
      .obj [("config_setting_id", .str (configSettingIdName id))], .obj [])
  | .ttl keyHash liveUntilLedgerSeq =>
      ("ttl", ttlKey keyHash, ttlData keyHash liveUntilLedgerSeq)

/-- Entry type and key of a ledger key. -/
def extractKeyInfo : LedgerKey → String × Json
  | .account accountId => ("account", accountKey accountId)
  | .trustline accountId asset => ("trustline", trustlineKey accountId asset)
  | .offer sellerId offerId => ("offer", offerKey sellerId offerId)
  | .data accountId dataName => ("data", dataEntryKey accountId dataName)
  | .claimableBalance balanceId => ("claimable_balance", claimableBalanceKey balanceId)
  | .liquidityPool liquidityPoolId => ("liquidity_pool", liquidityPoolKey liquidityPoolId)
  | .contractData contract key durability =>
      ("contract_data", contractDataKey contract key durability)
  | .contractCode hash => ("contract_code", contractCodeKey hash)
  | .configSetting id => ("config_setting", .obj [("config_setting_id", .str id.debugName)])
  | .ttl keyHash => ("ttl", ttlKey keyHash)

/-! ## Extraction -/

/-- Change type, entry type, key and data of one change. -/
def changeInfo : LedgerEntryChange → String × String × Json × Option Json
  | .created entry => imageInfo "created" entry
  | .updated entry => imageInfo "updated" entry
  | .removed key => ("removed", (extractKeyInfo key).1, (extractKeyInfo key).2, none)
  | .state entry => imageInfo "state" entry
  | .restored entry => imageInfo "restored" entry
where
  imageInfo (changeType : String) (entry : LedgerEntry) :=
    let (entryType, key, data) := extractEntryInfo entry.data
    (changeType, entryType, key, some data)

def extractSingleChange (change : LedgerEntryChange) (operationIndex : Option ℕ)
    (transactionHash : String) (ledgerSequence : UInt32) (createdAt : ℤ) (changeIndex : ℕ) :
    ExtractedLedgerEntryChange :=
  let (changeType, entryType, key, data) := changeInfo change
  { transactionHash, changeType, entryType, key, data, changeIndex, operationIndex,
    ledgerSequence, createdAt }

/-- The change lists of a meta in canonical order, each with the operation it
belongs to.  Legacy meta has none. -/
def TransactionMeta.changeLists : TransactionMeta → List (Option ℕ × List LedgerEntryChange)
  | .v0 _ | .v1 _ _ | .v2 _ _ _ => []
  | .v3 txChangesBefore operations txChangesAfter _ =>
      [(none, txChangesBefore)] ++ operations.zipIdx.map (fun (changes, i) => (some i, changes)) ++
        [(none, txChangesAfter)]
  | .v4 txChangesBefore operations txChangesAfter _ _ _ =>
      [(none, txChangesBefore)] ++
        operations.zipIdx.map (fun (operation, i) => (some i, operation.changes)) ++
        [(none, txChangesAfter)]

/-- The changes of a meta in canonical order, with operation and position. -/
def TransactionMeta.indexedChanges (txMeta : TransactionMeta) :
    List ((Option ℕ × LedgerEntryChange) × ℕ) :=
  (txMeta.changeLists.flatMap fun (operationIndex, changes) =>
    changes.map fun change => (operationIndex, change)).zipIdx

def extractLedgerEntryChanges (txMeta : TransactionMeta) (transactionHash : String)
    (ledgerSequence : UInt32) (createdAt : ℤ) : List ExtractedLedgerEntryChange :=
  txMeta.indexedChanges.map fun ((operationIndex, change), index) =>
    extractSingleChange change operationIndex transactionHash ledgerSequence createdAt index

end

/-! ## Changes of a meta -/

/-- Every ledger entry change of a transaction, in canonical order; legacy meta
counts as empty. -/
def ledgerChanges : TransactionMeta → List LedgerEntryChange
  | .v0 _ | .v1 _ _ | .v2 _ _ _ => []
  | .v3 txChangesBefore operations txChangesAfter _ =>
      txChangesBefore ++ operations.flatten ++ txChangesAfter
  | .v4 txChangesBefore operations txChangesAfter _ _ _ =>
      txChangesBefore ++ operations.flatMap OperationMetaV2.changes ++ txChangesAfter

private theorem map_fst_zipIdx {α β : Type*} (f : α → β) (l : List α) :
    l.zipIdx.map (fun indexed => f indexed.1) = l.map f := by
  have hfst : l.zipIdx.map Prod.fst = l := List.zipIdx_map_fst 0 l
  calc l.zipIdx.map (fun indexed => f indexed.1)
      = (l.zipIdx.map Prod.fst).map f := by rw [List.map_map]; rfl
    _ = l.map f := by rw [hfst]

/-- Indexing drops and reorders nothing. -/
theorem indexedChanges_change (txMeta : TransactionMeta) :
    txMeta.indexedChanges.map (fun indexed => indexed.1.2) = ledgerChanges txMeta := by
  have hlists : txMeta.indexedChanges.map (fun indexed => indexed.1.2) =
      (txMeta.changeLists.map Prod.snd).flatten := by
    unfold TransactionMeta.indexedChanges
    rw [map_fst_zipIdx Prod.snd, List.map_flatMap, List.flatMap_def]
    simp [Function.comp_def]
  rw [hlists]
  cases txMeta with
  | v0 | v1 | v2 => rfl
  | v3 before operations after sorobanMeta =>
      simp [TransactionMeta.changeLists, ledgerChanges, Function.comp_def]
  | v4 before operations after returnValue events diagnosticEvents =>
      have hops := map_fst_zipIdx OperationMetaV2.changes operations
      simp [TransactionMeta.changeLists, ledgerChanges, Function.comp_def,
        List.flatMap_def] at hops ⊢
      rw [hops]

variable [Crates]

/-- Extraction keeps every change, in order. -/
theorem extractLedgerEntryChanges_forall₂ (txMeta : TransactionMeta) (transactionHash : String)
    (ledgerSequence : UInt32) (createdAt : ℤ) :
    List.Forall₂
      (fun extracted change => ∃ operationIndex index, extracted =
        extractSingleChange change operationIndex transactionHash ledgerSequence createdAt index)
      (extractLedgerEntryChanges txMeta transactionHash ledgerSequence createdAt)
      (ledgerChanges txMeta) := by
  rw [← indexedChanges_change, extractLedgerEntryChanges, List.forall₂_map_left_iff,
    List.forall₂_map_right_iff, List.forall₂_same]
  intro indexed _
  exact ⟨indexed.1.1, indexed.2, rfl⟩

end SorobanExplorer
