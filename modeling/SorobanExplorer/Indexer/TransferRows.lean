import SorobanExplorer.Indexer.ParseLedger
import SorobanExplorer.Lib.Traverse
import SorobanExplorer.Parser.EventIds
import SorobanExplorer.Parser.TransferOutcomes
import SorobanExplorer.Persist.ValueFlowSpec

/-!
# From events to transfer rows

Every parsed transaction's events are partitioned on their own, and staging
makes one row of each transfer.  A row's key is its transaction's position, its
operation and its event's number in the operation; these are distinct because
an operation's events are numbered apart, and a ledger's transactions have
distinct hashes.
-/

namespace SorobanExplorer

open KeyedFold Persist

section

variable [Crates]

/-- A parsed transaction's position, and its events. -/
structure ParsedEvents where
  txIndex : ℕ
  transaction : ExtractedTransaction
  events : List ExtractedEvent

/-- The events of every parsed transaction; `none` where the code panics. -/
def parseEvents (closeMeta : LedgerCloseMeta) (transactions : List ExtractedTransaction) :
    Option (List ParsedEvents) :=
  let ledgerEvents :=
    LedgerEvents.new closeMeta.ledgerSeq closeMeta.closedAt (collectTxMetas closeMeta)
  (transactions.zipIdx.filter fun (transaction, txIndex) =>
    !transaction.parseError && ((collectTxMetas closeMeta)[txIndex]?).isSome).mapM
      fun (transaction, txIndex) =>
        (ledgerEvents.extract txIndex transaction.hash).map fun events =>
          ⟨txIndex, transaction, events.events⟩

/-- The token movements of one parsed transaction, given the operations of each
position. -/
def ParsedEvents.extraction (operations : ℕ → List ExtractedOperation) (netId : Hash)
    (parsed : ParsedEvents) : AssetTransferExtraction :=
  extractAssetTransfers parsed.events (operations parsed.txIndex) parsed.transaction.sourceAccount
    parsed.transaction.sourceMuxedId netId

/-- The token movements of a ledger. -/
def parseAssetTransfers (operations : ℕ → List ExtractedOperation) (netId : Hash)
    (parsed : List ParsedEvents) : List ExtractedAssetTransfer :=
  parsed.flatMap fun parsed => (parsed.extraction operations netId).transfers

/-- The rejects of a ledger, counted. -/
def parseTransferRejects (operations : ℕ → List ExtractedOperation) (netId : Hash)
    (parsed : List ParsedEvents) : RejectCounts :=
  parsed.foldl (fun counts parsed =>
    counts.absorb (parsed.extraction operations netId).rejectCounts) {}

/-! ## Operation events are numbered apart -/

omit [Crates] in
/-- Where an operation's event happened. -/
def operationKey (event : ExtractedEvent) : Option (UInt16 × UInt32) :=
  match event.origin with
  | .operation operationIndex => some (operationIndex, event.eventId.eventIndex)
  | .transaction _ => none

end

theorem toNat_of_u32TryFrom {n : ℕ} {v : UInt32} (h : u32TryFrom n = some v) : v.toNat = n := by
  unfold u32TryFrom at h
  split at h
  · next hlt =>
      obtain rfl := Option.some.inj h
      exact UInt32.toNat_ofNat_of_lt' hlt
  · exact absurd h (by simp)

theorem toNat_of_u16TryFrom {n : ℕ} {v : UInt16} (h : u16TryFrom n = some v) : v.toNat = n := by
  unfold u16TryFrom at h
  split at h
  · next hlt =>
      obtain rfl := Option.some.inj h
      exact UInt16.toNat_ofNat_of_lt' hlt
  · exact absurd h (by simp)

/-- The keys of one operation's events, from number `k` on. -/
theorem operationKeys_of_numbered {op : UInt16} {events : List ContractEvent} {k : ℕ}
    {extracted : List ExtractedEvent}
    (h : List.Forall₂ (fun (entry : ContractEvent × ℕ) event =>
      ∃ n, u32TryFrom entry.2 = some n ∧ operationKey event = some (op, n))
      (events.zipIdx k) extracted) :
    (extracted.filterMap operationKey).Nodup ∧
      ∀ key ∈ extracted.filterMap operationKey, key.1 = op ∧ k ≤ key.2.toNat := by
  induction events generalizing k extracted with
  | nil =>
      cases h
      simp
  | cons event rest ih =>
      rw [List.zipIdx_cons] at h
      obtain ⟨first, later, ⟨n, hn, hkey⟩, hlater, rfl⟩ := List.forall₂_cons_left_iff.mp h
      obtain ⟨hnodup, hkeys⟩ := ih hlater
      have hn := toNat_of_u32TryFrom hn
      simp only at hn
      rw [List.filterMap_cons_some hkey, List.nodup_cons]
      refine ⟨⟨fun hmem => ?_, hnodup⟩, ?_⟩
      · have := (hkeys _ hmem).2
        simp only at this
        omega
      · intro key hmem
        rcases List.mem_cons.mp hmem with rfl | hmem
        · exact ⟨rfl, by simp only; omega⟩
        · have := hkeys _ hmem
          exact ⟨this.1, by omega⟩

/-- The keys of a transaction's operations, from operation `k` on. -/
theorem operationKeys_of_operations {operations : List (List ContractEvent)} {k : ℕ}
    {extracted : List (List ExtractedEvent)}
    (h : List.Forall₂ (fun (entry : List ContractEvent × ℕ) events => ∃ op,
      u16TryFrom entry.2 = some op ∧ (events.filterMap operationKey).Nodup ∧
        ∀ key ∈ events.filterMap operationKey, key.1 = op) (operations.zipIdx k) extracted) :
    (extracted.flatten.filterMap operationKey).Nodup ∧
      ∀ key ∈ extracted.flatten.filterMap operationKey, k ≤ key.1.toNat := by
  induction operations generalizing k extracted with
  | nil =>
      cases h
      simp
  | cons events rest ih =>
      rw [List.zipIdx_cons] at h
      obtain ⟨first, later, ⟨op, hop, hfirst, hfirstKeys⟩, hlater, rfl⟩ :=
        List.forall₂_cons_left_iff.mp h
      obtain ⟨hnodup, hkeys⟩ := ih hlater
      have hop := toNat_of_u16TryFrom hop
      simp only at hop
      rw [List.flatten_cons, List.filterMap_append, List.nodup_append]
      refine ⟨⟨hfirst, hnodup, ?_⟩, ?_⟩
      · rintro key hmem key' hmem' rfl
        -- a later operation has a higher number
        have hlow := hkeys _ hmem'
        rw [hfirstKeys _ hmem] at hlow
        omega
      · intro key hmem
        rcases List.mem_append.mp hmem with hmem | hmem
        · rw [hfirstKeys _ hmem]
          omega
        · have := hkeys _ hmem
          omega

section

variable [Crates]

/-- Transaction-level events have no operation. -/
theorem operationKeys_stageEvents (ledger : LedgerEvents) (transactionHash : String)
    (order : UInt32) (counters : StageCounters) (events : List TransactionEvent) :
    (ledger.stageEvents transactionHash order counters events).filterMap operationKey = [] := by
  induction events generalizing counters with
  | nil => rfl
  | cons event rest ih =>
      unfold LedgerEvents.stageEvents
      rw [List.filterMap_cons_none rfl]
      exact ih _

theorem operationKeys_operationEvents {ledger : LedgerEvents} {transactionHash : String}
    {order : UInt32} {op : UInt16} {events : List ContractEvent} {extracted : List ExtractedEvent}
    (h : ledger.operationEvents transactionHash order op events = some extracted) :
    (extracted.filterMap operationKey).Nodup ∧
      ∀ key ∈ extracted.filterMap operationKey, key.1 = op := by
  have hnumbered := Traverse.mapM_eq_some_iff.mp h
  obtain ⟨hnodup, hkeys⟩ := operationKeys_of_numbered (hnumbered.imp fun entry event hevent => by
    obtain ⟨n, hn, hevent⟩ := Option.bind_eq_some_iff.mp hevent
    obtain rfl := Option.some.inj hevent
    exact ⟨n, hn, rfl⟩)
  exact ⟨hnodup, fun key hkey => (hkeys key hkey).1⟩

/-- A transaction's operation events have distinct keys. -/
theorem operationKeys_extract {ledger : LedgerEvents} {txIndex : ℕ} {transactionHash : String}
    {extracted : TxEvents} (h : ledger.extract txIndex transactionHash = some extracted) :
    (extracted.events.filterMap operationKey).Nodup := by
  unfold LedgerEvents.extract at h
  cases hmeta : ledger.txMetas[txIndex]? with
  | none =>
      rw [hmeta] at h
      obtain rfl := Option.some.inj h
      exact List.nodup_nil
  | some txMeta =>
      simp only [hmeta, bind, Option.bind_eq_some_iff] at h
      obtain ⟨order, -, ⟨beforeAll, afterAll⟩, -, operations, hoperations, h⟩ := h
      obtain rfl := Option.some.inj h
      have hops := Traverse.mapM_eq_some_iff.mp hoperations
      rw [List.filterMap_append, operationKeys_stageEvents, List.nil_append]
      exact (operationKeys_of_operations (hops.imp fun entry events hevents => by
        obtain ⟨op, hop, hevents⟩ := Option.bind_eq_some_iff.mp hevents
        obtain ⟨hnodup, hkeys⟩ := operationKeys_operationEvents hevents
        exact ⟨op, hop, hnodup, hkeys⟩)).1

/-- Every event carries its transaction's hash and its ledger's sequence. -/
theorem identity_of_mem_extract {ledger : LedgerEvents} {txIndex : ℕ}
    {transactionHash : String} {extracted : TxEvents}
    (h : ledger.extract txIndex transactionHash = some extracted) {event : ExtractedEvent}
    (hevent : event ∈ extracted.events) : event.transactionHash = transactionHash ∧
      event.eventId.ledgerSequence = ledger.ledgerSequence := by
  unfold LedgerEvents.extract at h
  cases hmeta : ledger.txMetas[txIndex]? with
  | none =>
      rw [hmeta] at h
      obtain rfl := Option.some.inj h
      exact absurd hevent List.not_mem_nil
  | some txMeta =>
      simp only [hmeta, bind, Option.bind_eq_some_iff] at h
      obtain ⟨order, -, ⟨beforeAll, afterAll⟩, -, operations, hoperations, h⟩ := h
      obtain rfl := Option.some.inj h
      -- transaction-level events first, then those of the operations
      rcases List.mem_append.mp hevent with hevent | hevent
      · generalize StageCounters.mk beforeAll afterAll 0 = counters at hevent
        generalize (containers txMeta).transaction = stages at hevent
        clear hmeta hoperations
        induction stages generalizing counters with
        | nil => exact absurd hevent List.not_mem_nil
        | cons stage rest ih =>
            unfold LedgerEvents.stageEvents at hevent
            rcases List.mem_cons.mp hevent with rfl | hevent
            · exact ⟨rfl, by cases stage.stage <;> rfl⟩
            · exact ih _ hevent
      · obtain ⟨events, hevents, hevent⟩ := List.mem_flatten.mp hevent
        obtain ⟨entry, -, hentry⟩ := Traverse.exists_of_mem_right
          (Traverse.mapM_eq_some_iff.mp hoperations) hevents
        obtain ⟨op, -, hentry⟩ := Option.bind_eq_some_iff.mp hentry
        obtain ⟨entry', -, hentry'⟩ := Traverse.exists_of_mem_right
          (Traverse.mapM_eq_some_iff.mp hentry) hevent
        obtain ⟨n, -, hentry'⟩ := Option.bind_eq_some_iff.mp hentry'
        obtain rfl := Option.some.inj hentry'
        exact ⟨rfl, rfl⟩

/-! ## Transfers of a ledger are apart -/

/-- Where a transfer happened. -/
def transferKey (transfer : ExtractedAssetTransfer) : String × UInt32 × UInt32 :=
  (transfer.transactionHash, transfer.opIndex, transfer.eventPosInOp)

/-- What a parsed transaction's events keep of it. -/
structure ParsedEvents.Sound (transactions : List ExtractedTransaction) (parsed : ParsedEvents) :
    Prop where
  transaction_eq : transactions[parsed.txIndex]? = some parsed.transaction
  transactionHash : ∀ event ∈ parsed.events,
    event.transactionHash = parsed.transaction.hash
  operationKeys : (parsed.events.filterMap operationKey).Nodup

theorem parseEvents_sound {closeMeta : LedgerCloseMeta} {transactions : List ExtractedTransaction}
    {parsed : List ParsedEvents} (h : parseEvents closeMeta transactions = some parsed) :
    (∀ entry ∈ parsed, entry.Sound transactions) ∧
      (parsed.map (·.transaction.hash)).Sublist (transactions.map (·.hash)) := by
  have hparsed := Traverse.mapM_eq_some_iff.mp h
  constructor
  · intro entry hentry
    obtain ⟨⟨transaction, txIndex⟩, hmem, hextract⟩ := Traverse.exists_of_mem_right hparsed hentry
    obtain ⟨extracted, hevents, rfl⟩ := Option.map_eq_some_iff.mp hextract
    exact ⟨List.mk_mem_zipIdx_iff_getElem?.mp (List.mem_filter.mp hmem).1,
      fun event hevent => (identity_of_mem_extract hevents hevent).1,
      operationKeys_extract hevents⟩
  · -- only transactions that parsed and have a meta are numbered
    have hmap : parsed.map (·.transaction.hash) =
        (transactions.zipIdx.filter fun (transaction, txIndex) => !transaction.parseError &&
          ((collectTxMetas closeMeta)[txIndex]?).isSome).map (·.1.hash) := by
      generalize (transactions.zipIdx.filter fun (transaction, txIndex) =>
        !transaction.parseError && ((collectTxMetas closeMeta)[txIndex]?).isSome) = entries
        at hparsed
      clear h
      induction hparsed with
      | nil => rfl
      | cons hextract _ ih =>
          obtain ⟨extracted, -, rfl⟩ := Option.map_eq_some_iff.mp hextract
          rw [List.map_cons, List.map_cons, ih]
    have hfst : transactions.map (·.hash) = transactions.zipIdx.map (·.1.hash) := by
      nth_rewrite 1 [← List.zipIdx_map_fst 0 transactions]
      rw [List.map_map]
      rfl
    rw [hmap, hfst]
    exact List.filter_sublist.map _

/-- The key of an accepted event's transfer is the event's. -/
theorem operationKey_of_acceptedTransfer {operations : List ExtractedOperation}
    {txSourceAccount : String} {txSourceMuxedId : Option UInt64} {netId : Hash}
    {event : ExtractedEvent} {transfer : ExtractedAssetTransfer}
    (h : acceptedTransfer operations txSourceAccount txSourceMuxedId netId event =
      some transfer) :
    transfer.transactionHash = event.transactionHash ∧
      (operationKey event).map (fun key => (key.1.toUInt32, key.2)) =
        some (transfer.opIndex, transfer.eventPosInOp) := by
  obtain ⟨outcome, houtcome, htransfer⟩ := Option.bind_eq_some_iff.mp h
  cases outcome with
  | error reject => exact absurd htransfer (by simp [Except.toOption])
  | ok accepted =>
      obtain rfl : accepted = transfer := Option.some.inj htransfer
      obtain ⟨hhash, ⟨operationIndex, horigin, hop⟩, hpos, -⟩ := records_eventTransfer houtcome
      exact ⟨hhash, by simp [operationKey, horigin, hop, hpos]⟩

/-- The transfers of one transaction are apart. -/
theorem nodup_transferKeys {transactions : List ExtractedTransaction} {parsed : ParsedEvents}
    (h : parsed.Sound transactions) (operations : ℕ → List ExtractedOperation) (netId : Hash) :
    ((parsed.extraction operations netId).transfers.map transferKey).Nodup := by
  have hnodup : (parsed.events.filterMap fun event =>
      (operationKey event).map fun key => (key.1.toUInt32, key.2)).Nodup := by
    rw [← List.map_filterMap]
    refine h.operationKeys.map ?_
    rintro ⟨op, n⟩ ⟨op', n'⟩ heq
    simpa [UInt16.toUInt32_inj] using heq
  have hsublist := Traverse.filterMap_sublist_filterMap
    (f := fun event => (acceptedTransfer (operations parsed.txIndex)
      parsed.transaction.sourceAccount parsed.transaction.sourceMuxedId netId event).map
        fun transfer => (transfer.opIndex, transfer.eventPosInOp))
    (g := fun event => (operationKey event).map fun key => (key.1.toUInt32, key.2))
    (fun event key hkey => by
      obtain ⟨transfer, htransfer, rfl⟩ := Option.map_eq_some_iff.mp hkey
      exact (operationKey_of_acceptedTransfer htransfer).2) parsed.events
  have hpositions : ((parsed.extraction operations netId).transfers.map fun transfer =>
      (transfer.opIndex, transfer.eventPosInOp)).Nodup := by
    unfold ParsedEvents.extraction
    rw [extractAssetTransfers_eq, List.map_filterMap]
    exact hsublist.nodup hnodup
  exact .of_map (fun key : String × UInt32 × UInt32 => key.2) (by rwa [List.map_map])

theorem transactionHash_of_mem_transfers {transactions : List ExtractedTransaction}
    {parsed : ParsedEvents} (h : parsed.Sound transactions)
    {operations : ℕ → List ExtractedOperation} {netId : Hash} {transfer : ExtractedAssetTransfer}
    (htransfer : transfer ∈ (parsed.extraction operations netId).transfers) :
    transfer.transactionHash = parsed.transaction.hash := by
  unfold ParsedEvents.extraction at htransfer
  rw [extractAssetTransfers_eq] at htransfer
  obtain ⟨event, hevent, htransfer⟩ := List.mem_filterMap.mp htransfer
  rw [(operationKey_of_acceptedTransfer htransfer).1]
  exact h.transactionHash event hevent

/-- The transfers of a ledger are apart. -/
theorem nodup_parseAssetTransfers {closeMeta : LedgerCloseMeta}
    {transactions : List ExtractedTransaction} (hhash : (transactions.map (·.hash)).Nodup)
    {parsed : List ParsedEvents} (h : parseEvents closeMeta transactions = some parsed)
    (operations : ℕ → List ExtractedOperation) (netId : Hash) :
    ((parseAssetTransfers operations netId parsed).map transferKey).Nodup := by
  obtain ⟨hsound, hsublist⟩ := parseEvents_sound h
  have hhashes : parsed.Pairwise fun first later =>
      first.transaction.hash ≠ later.transaction.hash :=
    List.pairwise_map.mp (hsublist.nodup hhash)
  unfold parseAssetTransfers
  rw [List.map_flatMap, List.nodup_flatMap]
  refine ⟨fun entry hentry => nodup_transferKeys (hsound entry hentry) operations netId, ?_⟩
  refine (List.Pairwise.and_mem.mp hhashes).imp ?_
  rintro first later ⟨hfirst, hlater, hne⟩ key hkey hkey'
  obtain ⟨transfer, htransfer, rfl⟩ := List.mem_map.mp hkey
  obtain ⟨transfer', htransfer', heq⟩ := List.mem_map.mp hkey'
  have hhash := transactionHash_of_mem_transfers (hsound first hfirst) htransfer
  have hhash' := transactionHash_of_mem_transfers (hsound later hlater) htransfer'
  have hsame : transfer'.transactionHash = transfer.transactionHash := congrArg Prod.fst heq
  exact hne (by rw [← hhash, ← hhash', hsame])

theorem total_parseTransferRejects (operations : ℕ → List ExtractedOperation) (netId : Hash)
    (parsed : List ParsedEvents) :
    (parseTransferRejects operations netId parsed).total =
      (parsed.map fun entry => (entry.extraction operations netId).rejects.length).sum := by
  have hfold : ∀ (parsed : List ParsedEvents) (counts : RejectCounts),
      (parsed.foldl (fun counts entry =>
        counts.absorb (entry.extraction operations netId).rejectCounts) counts).total =
      counts.total +
        (parsed.map fun entry => (entry.extraction operations netId).rejects.length).sum := by
    intro parsed
    induction parsed with
    | nil => simp
    | cons entry rest ih =>
        intro counts
        rw [List.foldl_cons, ih, RejectCounts.total_absorb,
          AssetTransferExtraction.total_rejectCounts, List.map_cons, List.sum_cons, Nat.add_assoc]
  unfold parseTransferRejects
  rw [hfold]
  simp [RejectCounts.total]

/-! ## A ledger's rows -/

/-- The rows of a parsed ledger. -/
def stageAssetTransfers (closeMeta : LedgerCloseMeta) (transactions : List ExtractedTransaction)
    (operations : ℕ → List ExtractedOperation) (netId : Hash) (parsed : List ParsedEvents) :
    Except SchemaError ValueFlowRows :=
  buildValueFlowRows closeMeta.ledgerSeq.toNat transactions
    (parseAssetTransfers operations netId parsed)

/-- Every token event of a parsed transaction is a transfer or a counted reject;
staging succeeds exactly when every position fits; and then it makes one row of
each transfer, at keys that are apart. -/
theorem assetTransfers_staged {closeMeta : LedgerCloseMeta}
    {transactions : List ExtractedTransaction} (hhash : (transactions.map (·.hash)).Nodup)
    (operations : ℕ → List ExtractedOperation) (netId : Hash) {parsed : List ParsedEvents}
    (hparsed : parseEvents closeMeta transactions = some parsed) :
    (∀ entry ∈ parsed, Partitioned entry.events (entry.extraction operations netId)) ∧
    (parseTransferRejects operations netId parsed).total =
      (parsed.map fun entry => (entry.extraction operations netId).rejects.length).sum ∧
    ((∃ rows, stageAssetTransfers closeMeta transactions operations netId parsed = .ok rows) ↔
      PositionsFit transactions (parseAssetTransfers operations netId parsed)) ∧
    ∀ rows, stageAssetTransfers closeMeta transactions operations netId parsed = .ok rows →
      List.Forall₂ (StagedAs closeMeta.ledgerSeq.toNat transactions)
        (parseAssetTransfers operations netId parsed) rows.transfers ∧
      (rows.transfers.map AssetTransferRow.sortKey).Nodup := by
  have hsound := (parseEvents_sound hparsed).1
  have hknown : ∀ transfer ∈ parseAssetTransfers operations netId parsed,
      ∃ (txIndex : ℕ) (transaction : ExtractedTransaction),
        transactions[txIndex]? = some transaction ∧
          transaction.hash = transfer.transactionHash := by
    intro transfer htransfer
    obtain ⟨entry, hentry, htransfer⟩ := List.mem_flatMap.mp htransfer
    exact ⟨entry.txIndex, entry.transaction, (hsound entry hentry).transaction_eq,
      (transactionHash_of_mem_transfers (hsound entry hentry) htransfer).symm⟩
  obtain ⟨hfits, hrows⟩ := buildValueFlowRows_spec closeMeta.ledgerSeq.toNat hhash hknown
  refine ⟨fun entry _ => partitioned_extractAssetTransfers _ _ _ _ _,
    total_parseTransferRejects operations netId parsed, hfits, fun rows h => ⟨hrows rows h, ?_⟩⟩
  exact Traverse.nodup_map_of_forall₂ (fun _ _ _ _ h h' hkey => h.key_eq h' hkey) (hrows rows h)
    (nodup_parseAssetTransfers hhash hparsed operations netId)

end

/-! ## Positions that do not fit, and hashes that come twice -/

/-- A bespoke token's transfer event. -/
def tokenEvent : ContractEvent where
  contractId := some Crates.pinnedContract
  type := .contract
  topics := [.symbol [0x6D, 0x69, 0x6E, 0x74], .address (.account Crates.pinnedAccount)]
  data := .i128 0 5

/-- A ledger whose transactions each emit the event some number of times. -/
def tokenLedger (counts : List ℕ) : LedgerCloseMeta :=
  .v1 60000000 1750000000 (counts.map fun count =>
    ⟨[], .v4 [] [⟨[], List.replicate count tokenEvent⟩] [] none [] []⟩)

def tokenTransaction (hash : String) : ExtractedTransaction where
  hash := hash
  sourceAccount := Crates.pinnedAccountStrkey
  sourceMuxedId := none
  memoType := none
  memo := none
  parseError := false

/-- The keys of the rows staged for a token ledger. -/
def tokenKeys [Crates] (counts : List ℕ) (hashes : List String) :
    Option (List (Int16 × Int16 × Int16)) := do
  let transactions := hashes.map tokenTransaction
  let parsed ← parseEvents (tokenLedger counts) transactions
  let rows ← (stageAssetTransfers (tokenLedger counts) transactions (fun _ => [])
    Crates.pinnedNetwork parsed).toOption
  some (rows.transfers.map AssetTransferRow.sortKey)

theorem tokenKeys_eq_some [Crates] {counts : List ℕ} {hashes : List String}
    {keys : List (Int16 × Int16 × Int16)} (h : tokenKeys counts hashes = some keys) :
    ∃ parsed rows, parseEvents (tokenLedger counts) (hashes.map tokenTransaction) = some parsed ∧
      stageAssetTransfers (tokenLedger counts) (hashes.map tokenTransaction) (fun _ => [])
        Crates.pinnedNetwork parsed = .ok rows ∧
      rows.transfers.map AssetTransferRow.sortKey = keys := by
  simp only [tokenKeys, bind, Option.bind_eq_some_iff, Option.some.injEq] at h
  obtain ⟨parsed, hparsed, rows, hrows, hkeys⟩ := h
  refine ⟨parsed, rows, hparsed, ?_, hkeys⟩
  cases hstage : stageAssetTransfers (tokenLedger counts) (hashes.map tokenTransaction)
      (fun _ => []) Crates.pinnedNetwork parsed with
  | error e => simp [hstage, Except.toOption] at hrows
  | ok rows' =>
      rw [hstage] at hrows
      rw [Option.some.inj hrows]

theorem assetTransfers_staged_threeEvents :
    let _ : Crates := Crates.pinned
    ∃ parsed rows, parseEvents (tokenLedger [2, 1]) (["aa", "bb"].map tokenTransaction) =
        some parsed ∧
      stageAssetTransfers (tokenLedger [2, 1]) (["aa", "bb"].map tokenTransaction) (fun _ => [])
        Crates.pinnedNetwork parsed = .ok rows ∧
      rows.transfers.map AssetTransferRow.sortKey = [(1, 0, 0), (1, 0, 1), (2, 0, 0)] ∧
      (rows.transfers.map AssetTransferRow.sortKey).Nodup := by
  let _ : Crates := Crates.pinned
  obtain ⟨parsed, rows, hparsed, hrows, hkeys⟩ := tokenKeys_eq_some
    (show tokenKeys [2, 1] ["aa", "bb"] = some [(1, 0, 0), (1, 0, 1), (2, 0, 0)] by
      decide)
  exact ⟨parsed, rows, hparsed, hrows, hkeys,
    ((assetTransfers_staged (by decide) (fun _ => []) Crates.pinnedNetwork hparsed).2.2.2 rows
      hrows).2⟩

/-- One operation that emits the event some number of times. -/
theorem parseEvents_tokenLedger [Crates] {count : ℕ} (hcount : count < 2 ^ 32) :
    parseEvents (tokenLedger [count]) [tokenTransaction "aa"] =
      some [⟨0, tokenTransaction "aa", numberedEvents
        (LedgerEvents.new 60000000 1750000000 (collectTxMetas (tokenLedger [count]))) "aa" 1 0
        (List.replicate count tokenEvent)⟩] := by
  have hoperation := operationEvents_eq
    (LedgerEvents.new 60000000 1750000000 (collectTxMetas (tokenLedger [count]))) "aa" 1 0
    (show (List.replicate count tokenEvent).length < 2 ^ 32 by simpa using hcount)
  have hextract : (LedgerEvents.new 60000000 1750000000
      (collectTxMetas (tokenLedger [count]))).extract 0 "aa" =
      some ⟨numberedEvents (LedgerEvents.new 60000000 1750000000
        (collectTxMetas (tokenLedger [count]))) "aa" 1 0 (List.replicate count tokenEvent),
        []⟩ := by
    show Option.bind (List.mapM _ [(List.replicate count tokenEvent, 0)]) _ = _
    rw [List.mapM_cons]
    show Option.bind (Option.bind (LedgerEvents.operationEvents _ "aa" 1 0 _) _) _ = _
    rw [hoperation]
    simp [LedgerEvents.stageEvents, containers]
  show Option.bind (Option.map _ ((LedgerEvents.new 60000000 1750000000
    (collectTxMetas (tokenLedger [count]))).extract 0 "aa")) _ = _
  rw [hextract]
  rfl

/-- An operation's event past the last 16-bit number fails its ledger, and two
transactions of one hash put two transfers at one key. -/
theorem not_assetTransfers_staged :
    let _ : Crates := Crates.pinned
    (∃ parsed, parseEvents (tokenLedger [32769]) [tokenTransaction "aa"] = some parsed ∧
      parseAssetTransfers (fun _ => []) Crates.pinnedNetwork parsed ≠ [] ∧
      ¬ ∃ rows, stageAssetTransfers (tokenLedger [32769]) [tokenTransaction "aa"] (fun _ => [])
        Crates.pinnedNetwork parsed = .ok rows) ∧
    ∃ parsed rows, parseEvents (tokenLedger [1, 1]) (["aa", "aa"].map tokenTransaction) =
        some parsed ∧
      stageAssetTransfers (tokenLedger [1, 1]) (["aa", "aa"].map tokenTransaction) (fun _ => [])
        Crates.pinnedNetwork parsed = .ok rows ∧
      ¬ (rows.transfers.map AssetTransferRow.sortKey).Nodup := by
  let _ : Crates := Crates.pinned
  refine ⟨⟨_, parseEvents_tokenLedger (by omega), ?_⟩, ?_⟩
  · -- the 32769th event of an operation
    set ledger := LedgerEvents.new 60000000 1750000000 (collectTxMetas (tokenLedger [32769]))
    set events := numberedEvents ledger "aa" 1 0 (List.replicate 32769 tokenEvent)
    let event : ExtractedEvent := ⟨"aa", ⟨60000000, 1, 0, 32768⟩, .operation 0,
      decode tokenEvent, 1750000000⟩
    have hevent : event ∈ events := by
      refine List.mem_map.mpr ⟨(tokenEvent, 32768), ?_, rfl⟩
      rw [List.mk_mem_zipIdx_iff_getElem?]
      exact List.getElem?_replicate_of_lt (by omega)
    have haccepted : ((acceptedTransfer [] Crates.pinnedAccountStrkey none Crates.pinnedNetwork
        event).map (·.eventPosInOp)) = some 32768 := by decide
    obtain ⟨transfer, htransfer, hpos⟩ := Option.map_eq_some_iff.mp haccepted
    have hmem : transfer ∈ parseAssetTransfers (fun _ => []) Crates.pinnedNetwork
        [⟨0, tokenTransaction "aa", events⟩] := by
      refine List.mem_flatMap.mpr ⟨_, List.mem_cons_self, ?_⟩
      unfold ParsedEvents.extraction
      rw [extractAssetTransfers_eq]
      exact List.mem_filterMap.mpr ⟨event, hevent, htransfer⟩
    refine ⟨List.ne_nil_of_mem hmem, ?_⟩
    rintro ⟨rows, hrows⟩
    have hlt := ((positionsFit_of_eq_ok hrows).2 transfer hmem).2
    rw [hpos] at hlt
    exact absurd hlt (by decide)
  · -- two transactions of one hash
    obtain ⟨parsed, rows, hparsed, hrows, hkeys⟩ := tokenKeys_eq_some
      (show tokenKeys [1, 1] ["aa", "aa"] = some [(2, 0, 0), (2, 0, 0)] by decide)
    exact ⟨parsed, rows, hparsed, hrows, by rw [hkeys]; decide⟩

end SorobanExplorer
