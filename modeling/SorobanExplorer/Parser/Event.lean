import SorobanExplorer.Lib.Decimal
import SorobanExplorer.Parser.ScVal

/-!
# Events and their ids

`LedgerEvents` reads a ledger's events one transaction at a time.  An event's id
packs the ledger, the transaction and the operation it belongs to, and an event
number.  Transaction-level events before or after all transactions are numbered
across the whole ledger, so the counters each transaction starts from are
computed from every meta up front.
-/

namespace SorobanExplorer

open Text

/-! ## Ids -/

structure EventId where
  ledgerSequence : UInt32
  transactionIndex : UInt32
  operationIndex : UInt16
  eventIndex : UInt32
  deriving DecidableEq

namespace EventId

/-- Transaction part of a `beforeAllTxs` event. -/
def beforeAllTxs : UInt32 := 0

/-- Transaction part of an `afterAllTxs` event: the largest 20-bit value. -/
def afterAllTxs : UInt32 := ((1 : UInt32) <<< (20 : UInt32)) - 1

/-- Operation part of an `afterTx` event: the largest 12-bit value. -/
def afterTxOperation : UInt16 := ((1 : UInt16) <<< (12 : UInt16)) - 1

@[simp] theorem toNat_beforeAllTxs : beforeAllTxs.toNat = 0 := rfl

@[simp] theorem toNat_afterAllTxs : afterAllTxs.toNat = 2 ^ 20 - 1 := rfl

@[simp] theorem toNat_afterTxOperation : afterTxOperation.toNat = 2 ^ 12 - 1 := rfl

def toid (id : EventId) : UInt64 :=
  (id.ledgerSequence.toUInt64 <<< 32) ||| (id.transactionIndex.toUInt64 <<< 12) |||
    id.operationIndex.toUInt64

/-- The id as text: two zero-padded decimals. -/
def toRpcString (id : EventId) : String :=
  .ofList (padZeros 19 id.toid.toNat ++ '-' :: padZeros 10 id.eventIndex.toNat)

end EventId

/-! ## Extracted events -/

/-- Where an event sits in its transaction. -/
inductive EventOrigin
  | transaction (stage : TransactionEventStage)
  | operation (index : UInt16)
  deriving DecidableEq

/-- What an event says. -/
structure EventBody where
  eventType : ContractEventType
  contractId : Option String
  topics : Json
  data : Json
  deriving DecidableEq

structure ExtractedEvent where
  transactionHash : String
  eventId : EventId
  origin : EventOrigin
  body : EventBody
  createdAt : ℤ
  deriving DecidableEq

structure TxEvents where
  events : List ExtractedEvent
  diagnostic : List EventBody

/-! ## Containers -/

/-- One transaction's three event containers. -/
structure Containers where
  transaction : List TransactionEvent
  operations : List (List ContractEvent)
  diagnostic : List ContractEvent

def containers : TransactionMeta → Containers
  | .v3 _ _ _ (some soroban) => ⟨[], [soroban.events], soroban.diagnosticEvents⟩
  | .v3 _ _ _ none => ⟨[], [], []⟩
  | .v4 _ operations _ _ events diagnosticEvents =>
      ⟨events, operations.map OperationMetaV2.events, diagnosticEvents⟩
  | .v0 _ | .v1 _ _ | .v2 _ _ _ => ⟨[], [], []⟩

/-! ## Numbering -/

/-- The ledger-wide counters `(beforeAll, afterAll)` past a transaction's events. -/
def countStages : UInt32 × UInt32 → List TransactionEvent → UInt32 × UInt32
  | counters, [] => counters
  | (beforeAll, afterAll), event :: rest =>
      match event.stage with
      | .beforeAllTxs => countStages (beforeAll + 1, afterAll) rest
      | .afterAllTxs => countStages (beforeAll, afterAll + 1) rest
      | .afterTx => countStages (beforeAll, afterAll) rest

/-- The ledger-wide counters as each transaction starts. -/
def stageStarts : UInt32 × UInt32 → List TransactionMeta → List (UInt32 × UInt32)
  | _, [] => []
  | counters, txMeta :: rest =>
      counters :: stageStarts (countStages counters (containers txMeta).transaction) rest

/-- One ledger's events, a transaction at a time. -/
structure LedgerEvents where
  ledgerSequence : UInt32
  createdAt : ℤ
  txMetas : List TransactionMeta
  starts : List (UInt32 × UInt32)

def LedgerEvents.new (ledgerSequence : UInt32) (createdAt : ℤ) (txMetas : List TransactionMeta) :
    LedgerEvents :=
  ⟨ledgerSequence, createdAt, txMetas, stageStarts (0, 0) txMetas⟩

/-- The counters `(beforeAll, afterAll, afterTx)` while a transaction's own
events are numbered. -/
structure StageCounters where
  beforeAll : UInt32
  afterAll : UInt32
  afterTx : UInt32

/-- A transaction-level event's id, and the counters moved on. -/
def nextStageId (ledgerSequence applicationOrder : UInt32) (counters : StageCounters) :
    TransactionEventStage → EventId × StageCounters
  | .beforeAllTxs => (⟨ledgerSequence, EventId.beforeAllTxs, 0, counters.beforeAll⟩,
      { counters with beforeAll := counters.beforeAll + 1 })
  | .afterAllTxs => (⟨ledgerSequence, EventId.afterAllTxs, 0, counters.afterAll⟩,
      { counters with afterAll := counters.afterAll + 1 })
  | .afterTx => (⟨ledgerSequence, applicationOrder, EventId.afterTxOperation, counters.afterTx⟩,
      { counters with afterTx := counters.afterTx + 1 })

/-- A position as a 32-bit number; the code panics where there is none. -/
def u32TryFrom (n : ℕ) : Option UInt32 :=
  if n < 2 ^ 32 then some (UInt32.ofNat n) else none

/-- A position as a 16-bit number; the code panics where there is none. -/
def u16TryFrom (n : ℕ) : Option UInt16 :=
  if n < 2 ^ 16 then some (UInt16.ofNat n) else none

theorem u32TryFrom_of_lt {n : ℕ} (h : n < 2 ^ 32) : u32TryFrom n = some (UInt32.ofNat n) :=
  if_pos h

theorem u16TryFrom_of_lt {n : ℕ} (h : n < 2 ^ 16) : u16TryFrom n = some (UInt16.ofNat n) :=
  if_pos h

variable [Crates]

def decode (event : ContractEvent) : EventBody where
  eventType := event.type
  contractId := event.contractId.map fun id => Crates.scAddressStrkey (.contract id)
  topics := .arr (event.topics.map scvalToTypedJson)
  data := scvalToTypedJson event.data

namespace LedgerEvents

/-- The events of the transaction-level container, numbered in order. -/
def stageEvents (ledger : LedgerEvents) (transactionHash : String) (applicationOrder : UInt32) :
    StageCounters → List TransactionEvent → List ExtractedEvent
  | _, [] => []
  | counters, event :: rest =>
      let (eventId, next) :=
        nextStageId ledger.ledgerSequence applicationOrder counters event.stage
      ⟨transactionHash, eventId, .transaction event.stage, decode event.event, ledger.createdAt⟩ ::
        stageEvents ledger transactionHash applicationOrder next rest

/-- The events of one operation, numbered from 0. -/
def operationEvents (ledger : LedgerEvents) (transactionHash : String) (applicationOrder : UInt32)
    (op : UInt16) (events : List ContractEvent) : Option (List ExtractedEvent) :=
  events.zipIdx.mapM fun (event, n) => do
    let n ← u32TryFrom n
    some ⟨transactionHash, ⟨ledger.ledgerSequence, applicationOrder, op, n⟩, .operation op,
      decode event, ledger.createdAt⟩

/-- The events of the transaction at apply position `txIndex`; `none` where the
code panics. -/
def extract (ledger : LedgerEvents) (txIndex : ℕ) (transactionHash : String) : Option TxEvents :=
  match ledger.txMetas[txIndex]? with
  | none => some ⟨[], []⟩
  | some txMeta => do
      let containers := containers txMeta
      let applicationOrder ← u32TryFrom (txIndex + 1)
      let (beforeAll, afterAll) ← ledger.starts[txIndex]?
      let stages := stageEvents ledger transactionHash applicationOrder ⟨beforeAll, afterAll, 0⟩
        containers.transaction
      let operations ← containers.operations.zipIdx.mapM fun (events, op) => do
        let op ← u16TryFrom op
        operationEvents ledger transactionHash applicationOrder op events
      some ⟨stages ++ operations.flatten, containers.diagnostic.map decode⟩

end LedgerEvents

end SorobanExplorer
