import SorobanExplorer.Lib.Traverse
import SorobanExplorer.Persist.ValueFlow

/-!
# Staging makes one row of each transfer

Staging succeeds exactly when every position fits its 16-bit column, and then
its rows are the transfers', in order.  Rows are apart when the transfers are.
-/

namespace SorobanExplorer

open KeyedFold Persist

/-! ## Positions -/

theorem i16TryFrom_of_lt {n : ℕ} (h : n < 2 ^ 15) : i16TryFrom n = some (Int16.ofNat n) :=
  if_pos h

theorem toInt_of_i16TryFrom {n : ℕ} {v : Int16} (h : i16TryFrom n = some v) :
    n < 2 ^ 15 ∧ v.toInt = n := by
  unfold i16TryFrom at h
  split at h
  · next hlt =>
      obtain rfl := Option.some.inj h
      exact ⟨hlt, Int16.toInt_ofNat_of_lt hlt⟩
  · exact absurd h (by simp)

theorem narrow_eq_ok {v : UInt32} {what : String} {w : Int16} (h : narrow v what = .ok w) :
    v.toNat < 2 ^ 15 ∧ w.toInt = v.toNat := by
  unfold narrow at h
  cases hv : i16TryFrom v.toNat with
  | none => simp [hv] at h
  | some v' =>
      rw [hv] at h
      obtain rfl := Except.ok.inj h
      exact toInt_of_i16TryFrom hv

theorem exists_narrow_iff {v : UInt32} (what : String) :
    (∃ w, narrow v what = .ok w) ↔ v.toNat < 2 ^ 15 := by
  constructor
  · rintro ⟨w, h⟩
    exact (narrow_eq_ok h).1
  · intro h
    exact ⟨_, by rw [narrow, i16TryFrom_of_lt h]⟩

/-! ## Positions of transactions -/

/-- The positions as updates of a table, from position `k` on. -/
def orderUpdates (k : ℕ) (transactions : List ExtractedTransaction) : List (Update String Int16) :=
  (transactions.zipIdx k).map fun (transaction, idx) =>
    ⟨transaction.hash, fun _ => Int16.ofNat (idx + 1)⟩

/-- Every transaction has a position exactly when the last one does. -/
theorem orderByHash_eq_ok_iff {transactions : List ExtractedTransaction}
    {orders : Table String Int16} :
    orderByHash transactions = .ok orders ↔
      transactions.length < 2 ^ 15 ∧ orders = runAll (orderUpdates 0 transactions) ∅ := by
  -- from place `k` on, over what the table holds by then
  suffices h : ∀ (k : ℕ) (table : Table String Int16), k < 2 ^ 15 →
      ((transactions.zipIdx k).foldlM noteOrder table = Except.ok orders ↔
        k + transactions.length < 2 ^ 15 ∧ orders = runAll (orderUpdates k transactions) table) by
    simpa [orderByHash] using h 0 ∅ (by omega)
  induction transactions with
  | nil =>
      intro k table hk
      simp [orderUpdates, runAll, pure, Except.pure, eq_comm]
      omega
  | cons transaction rest ih =>
      intro k table hk
      rw [List.zipIdx_cons, List.foldlM_cons, List.length_cons]
      by_cases hlt : k + 1 < 2 ^ 15
      · have hnote : noteOrder table (transaction, k) =
            .ok (table.insert transaction.hash (Int16.ofNat (k + 1))) := by
          rw [noteOrder, applicationOrder, i16TryFrom_of_lt hlt]
          rfl
        have ih := ih (k + 1) (table.insert transaction.hash (Int16.ofNat (k + 1))) hlt
        rw [hnote, orderUpdates, List.zipIdx_cons, show k + (rest.length + 1) =
          k + 1 + rest.length by omega]
        exact ih
      · have hnote : noteOrder table (transaction, k) =
            .error (.staging "application_order overflow (>i16)") := by
          rw [noteOrder, applicationOrder, i16TryFrom, if_neg hlt]
          rfl
        rw [hnote]
        simp [bind, Except.bind]
        omega

/-- The position of a transaction whose hash no other has. -/
theorem lookup_orderUpdates {transactions : List ExtractedTransaction}
    (hhash : (transactions.map (·.hash)).Nodup) {idx : ℕ} {transaction : ExtractedTransaction}
    (h : transactions[idx]? = some transaction) :
    (runAll (orderUpdates 0 transactions) ∅).lookup transaction.hash =
      some (Int16.ofNat (idx + 1)) := by
  suffices hfrom : ∀ (k idx : ℕ) (value : Option Int16), transactions[idx]? = some transaction →
      history transaction.hash (orderUpdates k transactions) value =
        some (Int16.ofNat (k + idx + 1)) by
    rw [lookup_runAll, hfrom 0 idx _ h, Nat.zero_add]
  clear h
  induction transactions with
  | nil => intro k idx value h; simp at h
  | cons first rest ih =>
      intro k idx value h
      rw [List.map_cons, List.nodup_cons] at hhash
      rw [orderUpdates, List.zipIdx_cons, List.map_cons, history_cons]
      cases idx with
      | zero =>
          obtain rfl : first = transaction := by simpa using h
          rw [if_pos rfl, history_eq_of_forall_ne]
          · intro update hupdate heq
            obtain ⟨⟨later, i⟩, hlater, rfl⟩ := List.mem_map.mp hupdate
            exact hhash.1 (heq ▸ List.mem_map_of_mem (f := ExtractedTransaction.hash)
              (List.fst_mem_of_mem_zipIdx hlater))
      | succ idx =>
          rw [show k + (idx + 1) + 1 = k + 1 + idx + 1 by omega]
          exact ih hhash.2 (k + 1) idx _ (by simpa using h)

/-! ## Rows -/

variable [Crates]

/-- A row of a transfer of the transaction at position `txIndex`. -/
structure StagedAs (ledgerSequence : ℤ) (transactions : List ExtractedTransaction)
    (transfer : ExtractedAssetTransfer) (row : AssetTransferRow) : Prop where
  ledgerSequence_eq : row.ledgerSequence = ledgerSequence
  applicationOrder_eq : ∃ txIndex : ℕ, (transactions[txIndex]?).map (·.hash) =
    some transfer.transactionHash ∧ row.applicationOrder.toInt = txIndex + 1
  opIndex_eq : row.opIndex.toInt = transfer.opIndex.toNat
  eventPosInOp_eq : row.eventPosInOp.toInt = transfer.eventPosInOp.toNat
  assetId_eq : some row.assetId =
    eventAssetSurrogate transfer.asset (some (Ids.contractId transfer.emitter))
  amount_eq : row.amount = transfer.amount
  sender_eq : (row.senderId, row.senderKind) = rowEnd transfer.sender ∧
    row.senderMuxedId = transfer.senderMuxedId
  recipient_eq : (row.recipientId, row.recipientKind) = rowEnd transfer.recipient ∧
    row.recipientMuxedId = transfer.recipientMuxedId
  verb_eq : row.verb = verb transfer.kind

/-- The key rows are sorted by within a ledger. -/
def AssetTransferRow.sortKey (row : AssetTransferRow) : Int16 × Int16 × Int16 :=
  (row.applicationOrder, row.opIndex, row.eventPosInOp)

/-- Whether every position fits its column. -/
def PositionsFit (transactions : List ExtractedTransaction)
    (transfers : List ExtractedAssetTransfer) : Prop :=
  transactions.length < 2 ^ 15 ∧
    ∀ transfer ∈ transfers, transfer.opIndex.toNat < 2 ^ 15 ∧ transfer.eventPosInOp.toNat < 2 ^ 15

/-- A staged row's parts. -/
theorem assetTransferRow_eq_ok {ledgerSequence : ℤ} {orders : Table String Int16}
    {transfer : ExtractedAssetTransfer} {row : AssetTransferRow}
    (h : assetTransferRow ledgerSequence orders transfer = .ok row) :
    transfer.opIndex.toNat < 2 ^ 15 ∧ transfer.eventPosInOp.toNat < 2 ^ 15 ∧
      orders.lookup transfer.transactionHash = some row.applicationOrder ∧
      some row.assetId =
        eventAssetSurrogate transfer.asset (some (Ids.contractId transfer.emitter)) ∧
      (∀ transactions, (∃ txIndex : ℕ, (transactions[txIndex]?).map (·.hash) =
        some transfer.transactionHash ∧ row.applicationOrder.toInt = txIndex + 1) →
        StagedAs ledgerSequence transactions transfer row) := by
  unfold assetTransferRow at h
  cases horder : orders.lookup transfer.transactionHash with
  | none => simp [horder, bind, Except.bind] at h
  | some order =>
    cases hasset : eventAssetSurrogate transfer.asset (some (Ids.contractId transfer.emitter)) with
    | none => simp [horder, hasset, bind, Except.bind] at h
    | some assetId =>
      cases hop : narrow transfer.opIndex "op_index" with
      | error e => simp [horder, hasset, hop, bind, Except.bind] at h
      | ok opIndex =>
        cases hpos : narrow transfer.eventPosInOp "event_pos_in_op" with
        | error e => simp [horder, hasset, hop, hpos, bind, Except.bind] at h
        | ok eventPosInOp =>
          simp [horder, hasset, hop, hpos, bind, Except.bind] at h
          subst h
          obtain ⟨hoplt, hopeq⟩ := narrow_eq_ok hop
          obtain ⟨hposlt, hposeq⟩ := narrow_eq_ok hpos
          exact ⟨hoplt, hposlt, rfl, rfl, fun transactions horder =>
            ⟨rfl, horder, hopeq, hposeq, hasset.symm, rfl, ⟨rfl, rfl⟩, ⟨rfl, rfl⟩, rfl⟩⟩

theorem eventAssetSurrogate_isSome (asset : EventAsset) (contractId : Int64) :
    ∃ assetId, eventAssetSurrogate asset (some contractId) = some assetId := by
  cases asset <;> exact ⟨_, rfl⟩

/-- A transfer whose positions fit has a row. -/
theorem exists_assetTransferRow {orders : Table String Int16} {transfer : ExtractedAssetTransfer}
    (ledgerSequence : ℤ) {order : Int16}
    (horder : orders.lookup transfer.transactionHash = some order)
    (hop : transfer.opIndex.toNat < 2 ^ 15) (hpos : transfer.eventPosInOp.toNat < 2 ^ 15) :
    ∃ row, assetTransferRow ledgerSequence orders transfer = .ok row := by
  obtain ⟨assetId, hasset⟩ :=
    eventAssetSurrogate_isSome transfer.asset (Ids.contractId transfer.emitter)
  obtain ⟨opIndex, hop⟩ := (exists_narrow_iff "op_index").mpr hop
  obtain ⟨eventPosInOp, hpos⟩ := (exists_narrow_iff "event_pos_in_op").mpr hpos
  exact ⟨_, by simp [assetTransferRow, horder, hasset, hop, hpos, bind, Except.bind]; rfl⟩

theorem exists_buildValueFlowRows_iff (ledgerSequence : ℤ)
    (transactions : List ExtractedTransaction) (transfers : List ExtractedAssetTransfer)
    (staged : List AssetTransferRow) :
    (∃ rows, buildValueFlowRows ledgerSequence transactions transfers = .ok rows ∧
      rows.transfers = staged) ↔
    transactions.length < 2 ^ 15 ∧ List.Forall₂ (fun transfer row =>
      assetTransferRow ledgerSequence (runAll (orderUpdates 0 transactions) ∅) transfer =
        .ok row) transfers staged := by
  unfold buildValueFlowRows
  cases horders : orderByHash transactions with
  | error e =>
      have hlen : ¬ transactions.length < 2 ^ 15 := fun hlen => by
        have := orderByHash_eq_ok_iff.mpr ⟨hlen, rfl⟩
        rw [horders] at this
        cases this
      simp [bind, Except.bind]
      omega
  | ok orders =>
      obtain ⟨hlen, rfl⟩ := orderByHash_eq_ok_iff.mp horders
      rw [← Traverse.mapM_eq_ok_iff]
      cases hrows : transfers.mapM
          (assetTransferRow ledgerSequence (runAll (orderUpdates 0 transactions) ∅)) with
      | error e => simp [bind, Except.bind, hrows]
      | ok rows => simpa [bind, Except.bind, hrows] using fun _ => hlen

/-- What is staged fits. -/
theorem positionsFit_of_eq_ok {ledgerSequence : ℤ} {transactions : List ExtractedTransaction}
    {transfers : List ExtractedAssetTransfer} {rows : ValueFlowRows}
    (h : buildValueFlowRows ledgerSequence transactions transfers = .ok rows) :
    PositionsFit transactions transfers := by
  obtain ⟨hlen, hrows⟩ := (exists_buildValueFlowRows_iff _ _ _ _).mp ⟨rows, h, rfl⟩
  refine ⟨hlen, fun transfer htransfer => ?_⟩
  obtain ⟨row, -, hrow⟩ := Traverse.exists_of_mem_left hrows htransfer
  obtain ⟨hop, hpos, -⟩ := assetTransferRow_eq_ok hrow
  exact ⟨hop, hpos⟩

/-- Staging succeeds exactly when every position fits; each transfer then has its
row. -/
theorem buildValueFlowRows_spec (ledgerSequence : ℤ) {transactions : List ExtractedTransaction}
    (hhash : (transactions.map (·.hash)).Nodup) {transfers : List ExtractedAssetTransfer}
    (hknown : ∀ transfer ∈ transfers, ∃ (txIndex : ℕ) (transaction : ExtractedTransaction),
      transactions[txIndex]? = some transaction ∧
        transaction.hash = transfer.transactionHash) :
    ((∃ rows, buildValueFlowRows ledgerSequence transactions transfers = .ok rows) ↔
      PositionsFit transactions transfers) ∧
    ∀ rows, buildValueFlowRows ledgerSequence transactions transfers = .ok rows →
      List.Forall₂ (StagedAs ledgerSequence transactions) transfers rows.transfers := by
  -- the table gives a hash the place it was last seen at
  have hlookup : ∀ transfer ∈ transfers, ∃ txIndex : ℕ, txIndex < transactions.length ∧
      (transactions[txIndex]?).map (·.hash) = some transfer.transactionHash ∧
      (runAll (orderUpdates 0 transactions) ∅).lookup transfer.transactionHash =
        some (Int16.ofNat (txIndex + 1)) := by
    intro transfer htransfer
    obtain ⟨txIndex, transaction, hget, hsame⟩ := hknown transfer htransfer
    refine ⟨txIndex, (List.getElem?_eq_some_iff.mp hget).1, by rw [hget, ← hsame]; rfl, ?_⟩
    rw [← hsame]
    exact lookup_orderUpdates hhash hget
  constructor
  · constructor
    · rintro ⟨rows, h⟩
      exact positionsFit_of_eq_ok h
    · rintro ⟨hlen, hfit⟩
      obtain ⟨staged, hrows⟩ : ∃ staged, List.Forall₂ (fun transfer row =>
          assetTransferRow ledgerSequence (runAll (orderUpdates 0 transactions) ∅) transfer =
            .ok row) transfers staged := by
        apply Traverse.exists_forall₂
        intro transfer htransfer
        obtain ⟨txIndex, -, -, horder⟩ := hlookup transfer htransfer
        obtain ⟨hop, hpos⟩ := hfit transfer htransfer
        exact exists_assetTransferRow ledgerSequence horder hop hpos
      obtain ⟨rows, h, -⟩ := (exists_buildValueFlowRows_iff _ _ _ staged).mpr ⟨hlen, hrows⟩
      exact ⟨rows, h⟩
  · intro rows h
    obtain ⟨hlen, hrows⟩ := (exists_buildValueFlowRows_iff _ _ _ _).mp ⟨rows, h, rfl⟩
    refine Traverse.forall₂_of_mem hrows fun transfer htransfer row hrow => ?_
    obtain ⟨-, -, horder, -, hstagedAs⟩ := assetTransferRow_eq_ok hrow
    obtain ⟨txIndex, hlt, hhash, horder'⟩ := hlookup transfer htransfer
    rw [horder'] at horder
    apply hstagedAs
    refine ⟨txIndex, hhash, ?_⟩
    rw [← Option.some.inj horder, Int16.toInt_ofNat_of_lt (by omega)]
    rfl

/-- Rows at one key are of transfers at one place. -/
theorem StagedAs.key_eq {ledgerSequence : ℤ} {transactions : List ExtractedTransaction}
    {transfer transfer' : ExtractedAssetTransfer} {row row' : AssetTransferRow}
    (h : StagedAs ledgerSequence transactions transfer row)
    (h' : StagedAs ledgerSequence transactions transfer' row') (hkey : row.sortKey = row'.sortKey) :
    (transfer.transactionHash, transfer.opIndex, transfer.eventPosInOp) =
      (transfer'.transactionHash, transfer'.opIndex, transfer'.eventPosInOp) := by
  simp only [AssetTransferRow.sortKey, Prod.mk.injEq] at hkey
  obtain ⟨horder, hop, hpos⟩ := hkey
  obtain ⟨txIndex, hhash, horderEq⟩ := h.applicationOrder_eq
  obtain ⟨txIndex', hhash', horderEq'⟩ := h'.applicationOrder_eq
  have hsame : txIndex = txIndex' := by
    rw [horder] at horderEq
    omega
  rw [hsame, hhash'] at hhash
  have hopEq := h.opIndex_eq
  have hposEq := h.eventPosInOp_eq
  rw [hop, h'.opIndex_eq] at hopEq
  rw [hpos, h'.eventPosInOp_eq] at hposEq
  simp only [Prod.mk.injEq, ← UInt32.toNat_inj]
  exact ⟨(Option.some.inj hhash).symm, by omega, by omega⟩

end SorobanExplorer
