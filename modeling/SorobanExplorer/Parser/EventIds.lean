import SorobanExplorer.Lib.Numbering
import SorobanExplorer.Lib.Traverse
import SorobanExplorer.Parser.Event

/-!
# Event ids over a ledger

stellar-rpc assigns ids in one pass over the ledger, with two counters that run
over all transactions.  `LedgerEvents` assigns the same ids transaction by
transaction.

Both are a numbering by key: an event's place is its transaction and operation
part, and events are numbered in order at each place.  Within the limits of a
ledger no two places share their parts, so `Numbering` gives distinctness and
contiguity.  The order of the ids is the order of their texts, since each part
fits the width it is printed at.
-/

namespace SorobanExplorer

open Text Numbering

/-- An id as plain numbers. -/
structure Cursor where
  ledger : ℕ
  tx : ℕ
  op : ℕ
  event : ℕ
  deriving DecidableEq

def EventId.cursor (id : EventId) : Cursor :=
  ⟨id.ledgerSequence.toNat, id.transactionIndex.toNat, id.operationIndex.toNat,
    id.eventIndex.toNat⟩

namespace Cursor

/-- The order of ledgers, then transactions, operations and events. -/
def Before (a b : Cursor) : Prop :=
  a.ledger < b.ledger ∨ a.ledger = b.ledger ∧ (a.tx < b.tx ∨ a.tx = b.tx ∧
    (a.op < b.op ∨ a.op = b.op ∧ a.event < b.event))

/-- Every part fits the bits it is packed into. -/
def Packable (cursor : Cursor) : Prop :=
  cursor.ledger < 2 ^ 31 ∧ cursor.tx < 2 ^ 20 ∧ cursor.op < 2 ^ 12

end Cursor

/-! ## The sequential loop -/

namespace StellarRpc

/-- The counters that run over the whole ledger. -/
structure Counters where
  beforeAll : ℕ
  afterAll : ℕ

def Counters.next (counters : Counters) : TransactionEventStage → Counters
  | .beforeAllTxs => { counters with beforeAll := counters.beforeAll + 1 }
  | .afterAllTxs => { counters with afterAll := counters.afterAll + 1 }
  | .afterTx => counters

/-- The cursors of a transaction's transaction-level events. -/
def insertStages (ledger tx : ℕ) : Counters → (afterTx : ℕ) → List TransactionEvent → List Cursor
  | _, _, [] => []
  | counters, afterTx, event :: rest =>
      match event.stage with
      | .beforeAllTxs => ⟨ledger, 0, 0, counters.beforeAll⟩ ::
          insertStages ledger tx (counters.next .beforeAllTxs) afterTx rest
      | .afterAllTxs => ⟨ledger, 2 ^ 20 - 1, 0, counters.afterAll⟩ ::
          insertStages ledger tx (counters.next .afterAllTxs) afterTx rest
      | .afterTx => ⟨ledger, tx, 2 ^ 12 - 1, afterTx⟩ ::
          insertStages ledger tx counters (afterTx + 1) rest

/-- The cursors of a transaction's operation events. -/
def insertOperations (ledger tx : ℕ) (operations : List (List ContractEvent)) : List Cursor :=
  (operations.zipIdx.map fun (events, op) =>
    (List.range events.length).map fun event => ⟨ledger, tx, op, event⟩).flatten

/-- The counters past a transaction's transaction-level events. -/
def Counters.after (counters : Counters) (events : List TransactionEvent) : Counters :=
  events.foldl (fun counters event => counters.next event.stage) counters

def insertTransactions (ledger : ℕ) : Counters → (tx : ℕ) → List TransactionMeta → List Cursor
  | _, _, [] => []
  | counters, tx, txMeta :: rest =>
      insertStages ledger tx counters 0 (containers txMeta).transaction ++
        insertOperations ledger tx (containers txMeta).operations ++
        insertTransactions ledger (counters.after (containers txMeta).transaction) (tx + 1) rest

/-- The cursors of a ledger's events; transactions count from 1. -/
def insertEvents (ledger : ℕ) (txMetas : List TransactionMeta) : List Cursor :=
  insertTransactions ledger ⟨0, 0⟩ 1 txMetas

end StellarRpc

/-! ## Limits of a ledger -/

/-- The events of one transaction. -/
def eventCount (txMeta : TransactionMeta) : ℕ :=
  (containers txMeta).transaction.length + ((containers txMeta).operations.map List.length).sum

/-- The limits of one ledger.  A ledger is decoded from at most 64 MiB, so its
events never run out of 32-bit numbers. -/
structure WithinLimits (txMetas : List TransactionMeta) : Prop where
  transactions : txMetas.length < 2 ^ 20 - 1
  operations : ∀ txMeta ∈ txMetas, (containers txMeta).operations.length ≤ 4095
  events : (txMetas.map eventCount).sum < 2 ^ 32

/-! ## Places -/

/-- The transaction and operation parts of an id. -/
structure Place where
  tx : ℕ
  op : ℕ
  deriving DecidableEq

/-- The place of a transaction-level event. -/
def stagePlace (tx : ℕ) : TransactionEventStage → Place
  | .beforeAllTxs => ⟨0, 0⟩
  | .afterAllTxs => ⟨2 ^ 20 - 1, 0⟩
  | .afterTx => ⟨tx, 2 ^ 12 - 1⟩

/-- The places of a transaction's events, in order. -/
def places (tx : ℕ) (txMeta : TransactionMeta) : List Place :=
  (containers txMeta).transaction.map (fun event => stagePlace tx event.stage) ++
    ((containers txMeta).operations.zipIdx.map fun (events, op) =>
      List.replicate events.length ⟨tx, op⟩).flatten

/-- The places of a ledger's events, in order. -/
def ledgerPlaces : (tx : ℕ) → List TransactionMeta → List Place
  | _, [] => []
  | tx, txMeta :: rest => places tx txMeta ++ ledgerPlaces (tx + 1) rest

/-- A numbered place as a cursor. -/
def placeCursor (ledger : ℕ) (numbered : Place × ℕ) : Cursor :=
  ⟨ledger, numbered.1.tx, numbered.1.op, numbered.2⟩

/-- Places of a ledger from transaction `tx` on. -/
theorem of_mem_ledgerPlaces {tx : ℕ} {txMetas : List TransactionMeta} {place : Place}
    (h : place ∈ ledgerPlaces tx txMetas) :
    place = ⟨0, 0⟩ ∨ place = ⟨2 ^ 20 - 1, 0⟩ ∨ tx ≤ place.tx := by
  induction txMetas generalizing tx with
  | nil => simp [ledgerPlaces] at h
  | cons txMeta rest ih =>
      unfold ledgerPlaces places at h
      rcases List.mem_append.mp h with h | h
      · rcases List.mem_append.mp h with h | h
        · obtain ⟨event, -, rfl⟩ := List.mem_map.mp h
          cases event.stage <;> simp [stagePlace]
        · obtain ⟨group, hgroup, h⟩ := List.mem_flatten.mp h
          obtain ⟨⟨events, op⟩, -, rfl⟩ := List.mem_map.mp hgroup
          rw [(List.mem_replicate.mp h).2]
          simp
      · rcases ih h with h | h | h
        · exact .inl h
        · exact .inr (.inl h)
        · exact .inr (.inr (by omega))

theorem place_lt_of_mem_ledgerPlaces {tx : ℕ} {txMetas : List TransactionMeta}
    (htx : tx + txMetas.length ≤ 2 ^ 20 - 1)
    (hops : ∀ txMeta ∈ txMetas, (containers txMeta).operations.length ≤ 4095) {place : Place}
    (h : place ∈ ledgerPlaces tx txMetas) : place.tx < 2 ^ 20 ∧ place.op < 2 ^ 12 := by
  induction txMetas generalizing tx with
  | nil => simp [ledgerPlaces] at h
  | cons txMeta rest ih =>
      rw [List.length_cons] at htx
      unfold ledgerPlaces places at h
      rcases List.mem_append.mp h with h | h
      · rcases List.mem_append.mp h with h | h
        · obtain ⟨event, -, rfl⟩ := List.mem_map.mp h
          cases event.stage <;> simp [stagePlace]
          omega
        · obtain ⟨group, hgroup, h⟩ := List.mem_flatten.mp h
          obtain ⟨⟨events, op⟩, hentry, rfl⟩ := List.mem_map.mp hgroup
          have hop := List.snd_lt_of_mem_zipIdx hentry
          have hlen := hops txMeta List.mem_cons_self
          rw [(List.mem_replicate.mp h).2]
          simp only at hop ⊢
          omega
      · exact ih (by omega) (fun m hm => hops m (List.mem_cons_of_mem _ hm)) h

/-! ## The sequential loop numbers by place -/

namespace StellarRpc

/-- The number the next event at each place gets. -/
def Counters.start (counters : Counters) (tx afterTx : ℕ) : Place → ℕ := fun place =>
  if place = ⟨0, 0⟩ then counters.beforeAll
  else if place = ⟨2 ^ 20 - 1, 0⟩ then counters.afterAll
  else if place = ⟨tx, 2 ^ 12 - 1⟩ then afterTx
  else 0

/-- Numbering one transaction-level event moves its counter on. -/
theorem Counters.update_start (counters : Counters) (tx afterTx : ℕ)
    (stage : TransactionEventStage) :
    Function.update (counters.start tx afterTx) (stagePlace tx stage)
        (counters.start tx afterTx (stagePlace tx stage) + 1) =
      (counters.next stage).start tx (if stage = .afterTx then afterTx + 1 else afterTx) := by
  funext place
  by_cases h : place = stagePlace tx stage
  · subst h
    cases stage <;> simp [Counters.start, Counters.next, stagePlace]
  · rw [Function.update_of_ne h]
    cases stage <;> simp_all [Counters.start, Counters.next, stagePlace]

theorem insertStages_eq (ledger tx : ℕ) (counters : Counters) (afterTx : ℕ)
    (events : List TransactionEvent) :
    insertStages ledger tx counters afterTx events =
      (number (counters.start tx afterTx)
        (events.map fun event => stagePlace tx event.stage)).map (placeCursor ledger) := by
  induction events generalizing counters afterTx with
  | nil => rfl
  | cons event rest ih =>
      rw [List.map_cons, number, Counters.update_start, List.map_cons]
      unfold insertStages
      cases hstage : event.stage <;>
        simp [ih, placeCursor, stagePlace, Counters.start, Counters.next]

theorem insertOperations_eq {tx : ℕ} (ledger : ℕ) (operations : List (List ContractEvent))
    {start : Place → ℕ} (hstart : ∀ op < operations.length, start ⟨tx, op⟩ = 0) :
    insertOperations ledger tx operations =
      (number start (operations.zipIdx.map fun (events, op) =>
        List.replicate events.length ⟨tx, op⟩).flatten).map (placeCursor ledger) := by
  suffices h : ∀ (k : ℕ) (start : Place → ℕ),
      (∀ op, k ≤ op → op < k + operations.length → start ⟨tx, op⟩ = 0) →
      ((operations.zipIdx k).map fun (events, op) =>
        (List.range events.length).map fun event => (⟨ledger, tx, op, event⟩ : Cursor)).flatten =
      (number start ((operations.zipIdx k).map fun (events, op) =>
        List.replicate events.length ⟨tx, op⟩).flatten).map (placeCursor ledger) from
    h 0 start fun op _ hop => hstart op (by omega)
  clear hstart
  induction operations with
  | nil => intro k start _; rfl
  | cons events rest ih =>
      intro k start hstart
      have hzero : start ⟨tx, k⟩ = 0 := hstart k (by omega) (by simp)
      have hrest : ∀ op, k + 1 ≤ op → op < k + 1 + rest.length →
          advance start (List.replicate events.length ⟨tx, k⟩) ⟨tx, op⟩ = 0 := by
        intro op hlow hhigh
        have hne : (⟨tx, k⟩ : Place) ≠ ⟨tx, op⟩ := by simp; omega
        simp [advance, List.count_replicate, hne]
        exact hstart op (by omega) (by simp; omega)
      -- the first operation's events are numbered from 0, and the others go on from there
      have hfirst : (number start (List.replicate events.length ⟨tx, k⟩)).map (placeCursor ledger) =
          (List.range events.length).map fun event => (⟨ledger, tx, k, event⟩ : Cursor) := by
        rw [number_replicate, hzero, List.map_map, ← List.range_eq_range']
        rfl
      rw [List.zipIdx_cons, List.map_cons, List.map_cons, List.flatten_cons, List.flatten_cons,
        number_append, List.map_append, hfirst, ih (k + 1) _ hrest]

theorem Counters.advance_start (counters : Counters) (tx afterTx : ℕ)
    (events : List TransactionEvent) :
    ∃ afterTx', advance (counters.start tx afterTx)
      (events.map fun event => stagePlace tx event.stage) =
        (counters.after events).start tx afterTx' := by
  induction events generalizing counters afterTx with
  | nil => exact ⟨afterTx, advance_nil _⟩
  | cons event rest ih =>
      rw [List.map_cons, advance_cons, Counters.update_start]
      exact ih _ _

/-- A transaction moves the ledger-wide counters on and leaves later places at 0. -/
theorem advance_places {tx : ℕ} (hpos : 1 ≤ tx) (htx : tx < 2 ^ 20 - 1) (counters : Counters)
    (txMeta : TransactionMeta) {place : Place}
    (hplace : place = ⟨0, 0⟩ ∨ place = ⟨2 ^ 20 - 1, 0⟩ ∨ tx < place.tx) :
    advance (counters.start tx 0) (places tx txMeta) place =
      (counters.after (containers txMeta).transaction).start (tx + 1) 0 place := by
  have hne : place.tx ≠ tx := by
    rcases hplace with rfl | rfl | hplace <;> simp <;> omega
  obtain ⟨afterTx, hstages⟩ :=
    counters.advance_start tx 0 (containers txMeta).transaction
  have hops : ((containers txMeta).operations.zipIdx.map fun (events, op) =>
      List.replicate events.length ⟨tx, op⟩).flatten.count place = 0 := by
    rw [List.count_eq_zero]
    intro hmem
    obtain ⟨group, hgroup, hmem⟩ := List.mem_flatten.mp hmem
    obtain ⟨⟨events, op⟩, -, rfl⟩ := List.mem_map.mp hgroup
    rw [(List.mem_replicate.mp hmem).2] at hne
    exact hne rfl
  calc advance (counters.start tx 0) (places tx txMeta) place
      = advance (counters.start tx 0) ((containers txMeta).transaction.map
          fun event => stagePlace tx event.stage) place := by
        unfold advance places
        rw [List.count_append, hops, Nat.add_zero]
    _ = (counters.after (containers txMeta).transaction).start tx afterTx place := by
        rw [hstages]
    _ = (counters.after (containers txMeta).transaction).start (tx + 1) 0 place := by
        obtain ⟨placeTx, placeOp⟩ := place
        simp [Counters.start]
        split_ifs <;> simp_all

/-- The loop numbers every event at its place. -/
theorem insertTransactions_eq {tx : ℕ} (ledger : ℕ) (counters : Counters)
    {txMetas : List TransactionMeta} (hpos : 1 ≤ tx) (htx : tx + txMetas.length ≤ 2 ^ 20 - 1)
    (hops : ∀ txMeta ∈ txMetas, (containers txMeta).operations.length ≤ 4095) :
    insertTransactions ledger counters tx txMetas =
      (number (counters.start tx 0) (ledgerPlaces tx txMetas)).map (placeCursor ledger) := by
  induction txMetas generalizing tx counters with
  | nil => rfl
  | cons txMeta rest ih =>
      rw [List.length_cons] at htx
      have hops' := hops txMeta List.mem_cons_self
      obtain ⟨afterTx, hstages⟩ :=
        counters.advance_start tx 0 (containers txMeta).transaction
      -- the stages of a transaction leave the counters of its operations at 0
      have hstart : ∀ op < (containers txMeta).operations.length,
          advance (counters.start tx 0) ((containers txMeta).transaction.map
            fun event => stagePlace tx event.stage) ⟨tx, op⟩ = 0 := by
        intro op hop
        rw [hstages]
        simp [Counters.start, show tx ≠ 0 by omega, show tx ≠ 1048575 by omega,
          show op ≠ 4095 by omega]
      -- the counters of the ledger alone go on to the next transaction
      have hrest : number (advance (counters.start tx 0) (places tx txMeta))
          (ledgerPlaces (tx + 1) rest) =
          number ((counters.after (containers txMeta).transaction).start (tx + 1) 0)
            (ledgerPlaces (tx + 1) rest) := by
        apply number_congr
        intro place hplace
        apply advance_places hpos (by omega)
        rcases of_mem_ledgerPlaces hplace with h | h | h
        · exact .inl h
        · exact .inr (.inl h)
        · exact .inr (.inr h)
      calc insertTransactions ledger counters tx (txMeta :: rest)
          = insertStages ledger tx counters 0 (containers txMeta).transaction ++
              insertOperations ledger tx (containers txMeta).operations ++
              insertTransactions ledger
                (counters.after (containers txMeta).transaction) (tx + 1) rest := rfl
        _ = (number (counters.start tx 0) (places tx txMeta)).map (placeCursor ledger) ++
              (number ((counters.after (containers txMeta).transaction).start (tx + 1) 0)
                (ledgerPlaces (tx + 1) rest)).map (placeCursor ledger) := by
            rw [insertStages_eq, insertOperations_eq ledger _ hstart,
              ih _ (by omega) (by omega) fun m hm => hops m (List.mem_cons_of_mem _ hm),
              places, number_append, List.map_append]
        _ = (number (counters.start tx 0) (ledgerPlaces tx (txMeta :: rest))).map
              (placeCursor ledger) := by
            rw [ledgerPlaces, number_append, hrest, List.map_append]

end StellarRpc

/-- A transaction moves each counter on by at most its events. -/
theorem StellarRpc.Counters.after_le (counters : StellarRpc.Counters)
    (events : List TransactionEvent) :
    (counters.after events).beforeAll ≤ counters.beforeAll + events.length ∧
      (counters.after events).afterAll ≤ counters.afterAll + events.length := by
  induction events generalizing counters with
  | nil => exact ⟨Nat.le_refl _, Nat.le_refl _⟩
  | cons event rest ih =>
      have h := ih (counters.next event.stage)
      have hnext : (counters.next event.stage).beforeAll ≤ counters.beforeAll + 1 ∧
          (counters.next event.stage).afterAll ≤ counters.afterAll + 1 := by
        cases event.stage <;> simp [StellarRpc.Counters.next]
      simp only [StellarRpc.Counters.after, List.foldl_cons, List.length_cons] at h ⊢
      omega

/-! ## The extraction assigns the loop's ids -/

private theorem toNat_succ {counter : UInt32} {n : ℕ} (h : counter.toNat = n)
    (hfits : n + 1 < 2 ^ 32) : (counter + 1).toNat = n + 1 := by
  rw [UInt32.toNat_add, h]
  exact Nat.mod_eq_of_lt hfits

/-- The counters a transaction starts from are those of the loop. -/
theorem countStages_eq {beforeAll afterAll : UInt32} (counters : StellarRpc.Counters)
    (hbefore : beforeAll.toNat = counters.beforeAll) (hafter : afterAll.toNat = counters.afterAll)
    (events : List TransactionEvent) (hbefore' : counters.beforeAll + events.length < 2 ^ 32)
    (hafter' : counters.afterAll + events.length < 2 ^ 32) :
    (countStages (beforeAll, afterAll) events).1.toNat = (counters.after events).beforeAll ∧
      (countStages (beforeAll, afterAll) events).2.toNat = (counters.after events).afterAll := by
  induction events generalizing beforeAll afterAll counters with
  | nil => exact ⟨hbefore, hafter⟩
  | cons event rest ih =>
      rw [List.length_cons] at hbefore' hafter'
      unfold countStages
      cases hstage : event.stage with
      | beforeAllTxs =>
          simpa [StellarRpc.Counters.after, hstage] using
            ih (counters.next .beforeAllTxs) (toNat_succ hbefore (by omega)) hafter
              (by simp [StellarRpc.Counters.next]; omega) (by simp [StellarRpc.Counters.next]; omega)
      | afterAllTxs =>
          simpa [StellarRpc.Counters.after, hstage] using
            ih (counters.next .afterAllTxs) hbefore (toNat_succ hafter (by omega))
              (by simp [StellarRpc.Counters.next]; omega) (by simp [StellarRpc.Counters.next]; omega)
      | afterTx =>
          simpa [StellarRpc.Counters.after, hstage] using
            ih (counters.next .afterTx) hbefore hafter
              (by simp [StellarRpc.Counters.next]; omega) (by simp [StellarRpc.Counters.next]; omega)

section

variable [Crates]

theorem stageEvents_eq (ledger : LedgerEvents) (transactionHash : String) (order : UInt32)
    (stages : StageCounters) (counters : StellarRpc.Counters) {afterTx : ℕ}
    (hbefore : stages.beforeAll.toNat = counters.beforeAll)
    (hafter : stages.afterAll.toNat = counters.afterAll) (htx : stages.afterTx.toNat = afterTx)
    (events : List TransactionEvent) (hbefore' : counters.beforeAll + events.length < 2 ^ 32)
    (hafter' : counters.afterAll + events.length < 2 ^ 32)
    (htx' : afterTx + events.length < 2 ^ 32) :
    (ledger.stageEvents transactionHash order stages events).map (·.eventId.cursor) =
      StellarRpc.insertStages ledger.ledgerSequence.toNat order.toNat counters afterTx events := by
  induction events generalizing stages counters afterTx with
  | nil => rfl
  | cons event rest ih =>
      rw [List.length_cons] at hbefore' hafter' htx'
      have hbefore'' : counters.beforeAll + rest.length < 2 ^ 32 := by omega
      have hafter'' : counters.afterAll + rest.length < 2 ^ 32 := by omega
      have htx'' : afterTx + rest.length < 2 ^ 32 := by omega
      unfold LedgerEvents.stageEvents StellarRpc.insertStages
      -- each stage has a counter of its own
      cases hstage : event.stage with
      | beforeAllTxs =>
          have hnext := toNat_succ hbefore (by omega)
          simp only [nextStageId, List.map_cons]
          rw [ih { stages with beforeAll := stages.beforeAll + 1 } (counters.next .beforeAllTxs) hnext hafter htx
            (by simp [StellarRpc.Counters.next]; omega) hafter'' htx'']
          simp [EventId.cursor, hbefore]
      | afterAllTxs =>
          have hnext := toNat_succ hafter (by omega)
          simp only [nextStageId, List.map_cons]
          rw [ih { stages with afterAll := stages.afterAll + 1 } (counters.next .afterAllTxs) hbefore hnext htx
            hbefore'' (by simp [StellarRpc.Counters.next]; omega) htx'']
          simp [EventId.cursor, hafter]
      | afterTx =>
          have hnext := toNat_succ htx (by omega)
          simp only [nextStageId, List.map_cons]
          rw [ih { stages with afterTx := stages.afterTx + 1 } counters hbefore hafter hnext hbefore''
            hafter'' (by omega)]
          simp [EventId.cursor, htx]

/-- The events of an operation that all have a number. -/
def numberedEvents (ledger : LedgerEvents) (transactionHash : String) (order : UInt32) (op : UInt16)
    (events : List ContractEvent) : List ExtractedEvent :=
  events.zipIdx.map fun (event, n) =>
    ⟨transactionHash, ⟨ledger.ledgerSequence, order, op, UInt32.ofNat n⟩, .operation op,
      decode event, ledger.createdAt⟩

theorem operationEvents_eq (ledger : LedgerEvents) (transactionHash : String) (order : UInt32)
    (op : UInt16) {events : List ContractEvent} (hfits : events.length < 2 ^ 32) :
    ledger.operationEvents transactionHash order op events =
      some (numberedEvents ledger transactionHash order op events) := by
  apply Traverse.mapM_eq_pure
  rintro ⟨event, n⟩ hentry
  have hlt : n < events.length := List.snd_lt_of_mem_zipIdx hentry
  show (u32TryFrom n).bind _ = _
  rw [u32TryFrom_of_lt (by omega)]
  rfl

theorem cursor_numberedEvents (ledger : LedgerEvents) (transactionHash : String) (order : UInt32)
    (op : UInt16) {events : List ContractEvent} (hfits : events.length < 2 ^ 32) :
    (numberedEvents ledger transactionHash order op events).map (·.eventId.cursor) =
      (List.range events.length).map fun event =>
        ⟨ledger.ledgerSequence.toNat, order.toNat, op.toNat, event⟩ := by
  unfold numberedEvents
  rw [List.map_map, List.range_eq_range', ← List.zipIdx_map_snd 0 events, List.map_map]
  apply List.map_congr_left
  intro entry hentry
  have hlt := List.snd_lt_of_mem_zipIdx hentry
  have hmod : entry.2 % 2 ^ 32 = entry.2 := Nat.mod_eq_of_lt (by omega)
  simpa [EventId.cursor] using hmod

/-- Extracting one transaction assigns what the loop body does. -/
theorem extract_eq {ledger : LedgerEvents} {txIndex : ℕ} {txMeta : TransactionMeta}
    {starts : UInt32 × UInt32} {counters : StellarRpc.Counters}
    (hmeta : ledger.txMetas[txIndex]? = some txMeta) (hstarts : ledger.starts[txIndex]? = some starts)
    (hbefore : starts.1.toNat = counters.beforeAll) (hafter : starts.2.toNat = counters.afterAll)
    (htx : txIndex + 1 < 2 ^ 20 - 1) (hops : (containers txMeta).operations.length ≤ 4095)
    (hbefore' : counters.beforeAll + eventCount txMeta < 2 ^ 32)
    (hafter' : counters.afterAll + eventCount txMeta < 2 ^ 32) (transactionHash : String) :
    ∃ extracted, ledger.extract txIndex transactionHash = some extracted ∧
      extracted.events.map (·.eventId.cursor) =
        StellarRpc.insertStages ledger.ledgerSequence.toNat (txIndex + 1) counters 0
            (containers txMeta).transaction ++
          StellarRpc.insertOperations ledger.ledgerSequence.toNat (txIndex + 1)
            (containers txMeta).operations := by
  obtain ⟨beforeAll, afterAll⟩ := starts
  have horder : (UInt32.ofNat (txIndex + 1)).toNat = txIndex + 1 :=
    UInt32.toNat_ofNat_of_lt' (show txIndex + 1 < 2 ^ 32 by omega)
  have hlen : ∀ events ∈ (containers txMeta).operations, events.length < 2 ^ 32 := by
    intro events hevents
    have hle := List.single_le_sum (by simp) _ (List.mem_map_of_mem (f := List.length) hevents)
    unfold eventCount at hbefore'
    omega
  -- operation numbers fit 16 bits, so none fails
  have hoperations : (containers txMeta).operations.zipIdx.mapM (fun (events, op) => do
      let op ← u16TryFrom op
      ledger.operationEvents transactionHash (UInt32.ofNat (txIndex + 1)) op events) =
      some ((containers txMeta).operations.zipIdx.map fun (events, op) =>
        numberedEvents ledger transactionHash (UInt32.ofNat (txIndex + 1)) (UInt16.ofNat op)
          events) := by
    apply Traverse.mapM_eq_pure
    rintro ⟨events, op⟩ hentry
    have hop : op < (containers txMeta).operations.length := List.snd_lt_of_mem_zipIdx hentry
    show (u16TryFrom op).bind _ = _
    rw [u16TryFrom_of_lt (by omega), Option.bind_some,
      operationEvents_eq _ _ _ _ (hlen _ (List.fst_mem_of_mem_zipIdx hentry))]
    rfl
  refine ⟨⟨ledger.stageEvents transactionHash (UInt32.ofNat (txIndex + 1))
      ⟨beforeAll, afterAll, 0⟩ (containers txMeta).transaction ++
    ((containers txMeta).operations.zipIdx.map fun (events, op) =>
      numberedEvents ledger transactionHash (UInt32.ofNat (txIndex + 1)) (UInt16.ofNat op)
        events).flatten, (containers txMeta).diagnostic.map decode⟩, ?_, ?_⟩
  · unfold LedgerEvents.extract
    rw [hmeta, u32TryFrom_of_lt (show txIndex + 1 < 2 ^ 32 by omega), hstarts]
    show Option.bind (List.mapM _ _) _ = _
    rw [hoperations]
    rfl
  · have hcount : (containers txMeta).transaction.length ≤ eventCount txMeta := by
      unfold eventCount
      omega
    rw [List.map_append, stageEvents_eq _ _ _ ⟨beforeAll, afterAll, 0⟩ counters hbefore hafter rfl
      _ (by omega) (by omega) (show 0 + _ < 2 ^ 32 by omega), horder]
    congr 1
    rw [List.map_flatten, List.map_map]
    unfold StellarRpc.insertOperations
    congr 1
    apply List.map_congr_left
    intro entry hentry
    have hop := List.snd_lt_of_mem_zipIdx hentry
    have hop' : (UInt16.ofNat entry.2).toNat = entry.2 := 
      UInt16.toNat_ofNat_of_lt' (show entry.2 < 2 ^ 16 by omega)
    simp only [Function.comp_def]
    rw [cursor_numberedEvents _ _ _ _ (hlen _ (List.fst_mem_of_mem_zipIdx hentry)), horder, hop']

/-- The events of a ledger, each transaction extracted in order. -/
def LedgerEvents.extractAll (ledger : LedgerEvents) (transactionHash : ℕ → String) :
    Option (List ExtractedEvent) := do
  let extracted ← (List.range ledger.txMetas.length).mapM fun txIndex =>
    ledger.extract txIndex (transactionHash txIndex)
  some (extracted.flatMap TxEvents.events)

/-- Extracting the transactions from `k` on assigns what the loop does from the
counters it has reached there. -/
theorem extractFrom_eq (ledger : LedgerEvents) (transactionHash : ℕ → String)
    {rest : List TransactionMeta} {k : ℕ} (starts : UInt32 × UInt32)
    (counters : StellarRpc.Counters)
    (hmetas : ∀ i, ledger.txMetas[k + i]? = rest[i]?)
    (hstarts : ∀ i, ledger.starts[k + i]? = (stageStarts starts rest)[i]?)
    (hbefore : starts.1.toNat = counters.beforeAll) (hafter : starts.2.toNat = counters.afterAll)
    (htx : k + rest.length < 2 ^ 20 - 1)
    (hops : ∀ txMeta ∈ rest, (containers txMeta).operations.length ≤ 4095)
    (hbefore' : counters.beforeAll + (rest.map eventCount).sum < 2 ^ 32)
    (hafter' : counters.afterAll + (rest.map eventCount).sum < 2 ^ 32) :
    ∃ extracted, (List.range' k rest.length).mapM (fun txIndex =>
        ledger.extract txIndex (transactionHash txIndex)) = some extracted ∧
      (extracted.flatMap TxEvents.events).map (·.eventId.cursor) =
        StellarRpc.insertTransactions ledger.ledgerSequence.toNat counters (k + 1) rest := by
  induction rest generalizing k starts counters with
  | nil => exact ⟨[], rfl, rfl⟩
  | cons txMeta rest ih =>
      rw [List.length_cons] at htx
      rw [List.map_cons, List.sum_cons] at hbefore' hafter'
      -- the first of the rest stands at `k`, with the counters reached there
      have hmeta : ledger.txMetas[k]? = some txMeta := by simpa using hmetas 0
      have hstart : ledger.starts[k]? = some starts := by simpa [stageStarts] using hstarts 0
      have hcount : (containers txMeta).transaction.length ≤ eventCount txMeta := by
        unfold eventCount
        omega
      obtain ⟨first, hfirst, hfirstIds⟩ := extract_eq hmeta hstart hbefore hafter (by omega)
        (hops _ List.mem_cons_self) (by omega) (by omega) (transactionHash k)
      obtain ⟨hbeforeNext, hafterNext⟩ := countStages_eq counters hbefore hafter
        (containers txMeta).transaction (by omega) (by omega)
      have hafterLe := counters.after_le (containers txMeta).transaction
      obtain ⟨later, hlater, hlaterIds⟩ := ih
        (countStages starts (containers txMeta).transaction)
        (counters.after (containers txMeta).transaction)
        (fun i => by rw [Nat.add_assoc, Nat.add_comm 1 i, hmetas]; rfl)
        (fun i => by rw [Nat.add_assoc, Nat.add_comm 1 i, hstarts]; rfl)
        hbeforeNext hafterNext (by omega) (fun m hm => hops m (List.mem_cons_of_mem _ hm))
        (by omega) (by omega)
      refine ⟨first :: later, ?_, ?_⟩
      · rw [List.length_cons, List.range'_succ, List.mapM_cons, hfirst, hlater]
        rfl
      · rw [List.flatMap_cons, List.map_append, hfirstIds, hlaterIds]
        rfl

end

/-! ## Ids as text -/

/-- The packed part of an id, as its parts. -/
theorem toNat_toid {id : EventId} (h : id.cursor.Packable) :
    id.toid.toNat = id.cursor.ledger * 2 ^ 32 + id.cursor.tx * 2 ^ 12 + id.cursor.op := by
  obtain ⟨hledger, htx, hop⟩ := h
  unfold EventId.toid
  simp only [EventId.cursor] at hledger htx hop ⊢
  have hhigh : (id.ledgerSequence.toUInt64 <<< 32).toNat = id.ledgerSequence.toNat * 2 ^ 32 := by
    rw [UInt64.toNat_shiftLeft, UInt32.toNat_toUInt64, Nat.shiftLeft_eq]
    exact Nat.mod_eq_of_lt (show id.ledgerSequence.toNat * 2 ^ 32 < 2 ^ 64 by omega)
  have hmiddle : (id.transactionIndex.toUInt64 <<< 12).toNat =
      id.transactionIndex.toNat * 2 ^ 12 := by
    rw [UInt64.toNat_shiftLeft, UInt32.toNat_toUInt64, Nat.shiftLeft_eq]
    exact Nat.mod_eq_of_lt (show id.transactionIndex.toNat * 2 ^ 12 < 2 ^ 64 by omega)
  have hsum : 2 ^ 32 * id.ledgerSequence.toNat + 2 ^ 12 * id.transactionIndex.toNat =
      2 ^ 12 * (2 ^ 20 * id.ledgerSequence.toNat + id.transactionIndex.toNat) := by omega
  -- each field lies below the lowest bit of the one before it
  calc (id.ledgerSequence.toUInt64 <<< 32 ||| id.transactionIndex.toUInt64 <<< 12 |||
        id.operationIndex.toUInt64).toNat
      = 2 ^ 32 * id.ledgerSequence.toNat ||| 2 ^ 12 * id.transactionIndex.toNat |||
          id.operationIndex.toNat := by
        rw [UInt64.toNat_or, UInt64.toNat_or, hhigh, hmiddle, UInt16.toNat_toUInt64,
          Nat.mul_comm, Nat.mul_comm (2 ^ 12)]
    _ = 2 ^ 32 * id.ledgerSequence.toNat + 2 ^ 12 * id.transactionIndex.toNat |||
          id.operationIndex.toNat := by
        rw [Nat.two_pow_add_eq_or_of_lt (by omega)]
    _ = 2 ^ 12 * (2 ^ 20 * id.ledgerSequence.toNat + id.transactionIndex.toNat) +
          id.operationIndex.toNat := by
        rw [hsum, Nat.two_pow_add_eq_or_of_lt hop]
    _ = id.ledgerSequence.toNat * 2 ^ 32 + id.transactionIndex.toNat * 2 ^ 12 +
          id.operationIndex.toNat := by omega

theorem toid_lt_iff {a b : EventId} (ha : a.cursor.Packable) (hb : b.cursor.Packable) :
    a.toid.toNat < b.toid.toNat ∨ a.toid.toNat = b.toid.toNat ∧
        a.eventIndex.toNat < b.eventIndex.toNat ↔ a.cursor.Before b.cursor := by
  rw [toNat_toid ha, toNat_toid hb]
  obtain ⟨-, hatx, haop⟩ := ha
  obtain ⟨-, hbtx, hbop⟩ := hb
  unfold Cursor.Before
  simp only [EventId.cursor] at hatx haop hbtx hbop ⊢
  omega

theorem toNat_toid_lt {id : EventId} (h : id.cursor.Packable) : id.toid.toNat < 10 ^ 19 := by
  rw [toNat_toid h]
  obtain ⟨hledger, htx, hop⟩ := h
  omega

theorem toNat_eventIndex_lt (id : EventId) : id.eventIndex.toNat < 10 ^ 10 := by
  have h := id.eventIndex.toNat_lt
  omega

theorem toRpcString_lt_iff {a b : EventId} (ha : a.cursor.Packable) (hb : b.cursor.Packable) :
    a.toRpcString < b.toRpcString ↔ a.cursor.Before b.cursor := by
  have halen := length_padZeros (by omega) (toNat_toid_lt ha)
  have hblen := length_padZeros (by omega) (toNat_toid_lt hb)
  rw [← toid_lt_iff ha hb, String.lt_iff]
  unfold EventId.toRpcString
  rw [String.toList_ofList, String.toList_ofList, append_lt_append_iff (by rw [halen, hblen]),
    padZeros_lt_iff (by omega) (toNat_toid_lt ha) (toNat_toid_lt hb), List.cons_lt_cons_iff,
    padZeros_lt_iff (by omega) (toNat_eventIndex_lt a) (toNat_eventIndex_lt b),
    (padZeros_injective 19).eq_iff]
  have hirrefl : ¬ ('-' < '-') := by decide
  tauto

theorem toRpcString_injective {a b : EventId} (ha : a.cursor.Packable) (hb : b.cursor.Packable)
    (h : a.toRpcString = b.toRpcString) : a = b := by
  have hlt := (toRpcString_lt_iff ha hb).not.mp (by rw [h]; exact String.lt_irrefl _)
  have hgt := (toRpcString_lt_iff hb ha).not.mp (by rw [h]; exact String.lt_irrefl _)
  obtain ⟨aLedger, aTx, aOp, aEvent⟩ := a
  obtain ⟨bLedger, bTx, bOp, bEvent⟩ := b
  simp only [Cursor.Before, EventId.cursor] at hlt hgt
  simp only [EventId.mk.injEq, ← UInt32.toNat_inj, ← UInt16.toNat_inj]
  omega

/-! ## One ledger -/

theorem extractAll_eq [Crates] (ledgerSequence : UInt32) (createdAt : ℤ)
    {txMetas : List TransactionMeta} (h : WithinLimits txMetas) (transactionHash : ℕ → String) :
    ∃ events,
      (LedgerEvents.new ledgerSequence createdAt txMetas).extractAll transactionHash =
        some events ∧
      events.map (·.eventId.cursor) = StellarRpc.insertEvents ledgerSequence.toNat txMetas := by
  have hevents : 0 + (txMetas.map eventCount).sum < 2 ^ 32 := by
    rw [Nat.zero_add]
    exact h.events
  have htx : 0 + txMetas.length < 2 ^ 20 - 1 := by
    rw [Nat.zero_add]
    exact h.transactions
  obtain ⟨extracted, hextracted, hids⟩ :=
    extractFrom_eq (LedgerEvents.new ledgerSequence createdAt txMetas) transactionHash (0, 0)
      ⟨0, 0⟩ (fun i => by rw [Nat.zero_add]; rfl) (fun i => by rw [Nat.zero_add]; rfl) rfl rfl htx
      h.operations hevents hevents
  refine ⟨extracted.flatMap TxEvents.events, ?_, hids⟩
  unfold LedgerEvents.extractAll
  rw [List.range_eq_range']
  show Option.bind (List.mapM _ (List.range' 0 txMetas.length)) _ = _
  rw [hextracted]
  rfl

theorem insertEvents_eq (ledger : ℕ) {txMetas : List TransactionMeta} (h : WithinLimits txMetas) :
    StellarRpc.insertEvents ledger txMetas =
      (number (StellarRpc.Counters.start ⟨0, 0⟩ 1 0) (ledgerPlaces 1 txMetas)).map
        (placeCursor ledger) :=
  have htx := h.transactions
  StellarRpc.insertTransactions_eq _ _ (by omega) (by omega) h.operations

theorem placeCursor_injective (ledger : ℕ) : Function.Injective (placeCursor ledger) := by
  rintro ⟨⟨tx, op⟩, n⟩ ⟨⟨tx', op'⟩, n'⟩ heq
  simp_all [placeCursor]

/-- The event numbers at one place. -/
theorem events_at_place (ledger : ℕ) {txMetas : List TransactionMeta} (h : WithinLimits txMetas)
    (tx op : ℕ) :
    ((StellarRpc.insertEvents ledger txMetas).filter
      fun cursor => cursor.tx = tx ∧ cursor.op = op).map Cursor.event =
        List.range ((ledgerPlaces 1 txMetas).count ⟨tx, op⟩) := by
  have hplace : ∀ numbered : Place × ℕ,
      ((placeCursor ledger numbered).tx = tx ∧ (placeCursor ledger numbered).op = op) ↔
        numbered.1 = ⟨tx, op⟩ := by
    rintro ⟨⟨tx', op'⟩, n⟩
    simp [placeCursor]
  have hzero : StellarRpc.Counters.start ⟨0, 0⟩ 1 0 ⟨tx, op⟩ = 0 := by
    simp [StellarRpc.Counters.start]
  have hrange := filter_number (StellarRpc.Counters.start ⟨0, 0⟩ 1 0) (ledgerPlaces 1 txMetas)
    ⟨tx, op⟩
  rw [hzero] at hrange
  rw [insertEvents_eq ledger h, List.filter_map, List.map_map, List.range_eq_range', ← hrange]
  simp only [Function.comp_def, hplace]
  rfl

/-- Two transactions, each with a fee event and an event of its one operation. -/
def twoFees : List TransactionMeta :=
  let event : ContractEvent := ⟨none, .contract, [], .void⟩
  List.replicate 2 (.v4 [] [⟨[], [event]⟩] [] none [⟨.beforeAllTxs, event⟩] [])

end SorobanExplorer
