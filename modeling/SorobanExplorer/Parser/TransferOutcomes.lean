import SorobanExplorer.Parser.AssetTransfers

/-!
# What becomes of each event

`extractAssetTransfers` looks at every event on its own, so its two lists are
the accepted and the rejected events in the order they came.  Each event with a
token verb is in exactly one of them.
-/

namespace SorobanExplorer

open Text

section

variable [Crates]

/-- The transfer an event becomes, if it becomes one. -/
def acceptedTransfer (operations : List ExtractedOperation) (txSourceAccount : String)
    (txSourceMuxedId : Option UInt64) (netId : Hash) (event : ExtractedEvent) :
    Option ExtractedAssetTransfer :=
  (eventTransfer operations txSourceAccount txSourceMuxedId netId event).bind Except.toOption

/-- The reject an event becomes, if it becomes one. -/
def rejectedTransfer (operations : List ExtractedOperation) (txSourceAccount : String)
    (txSourceMuxedId : Option UInt64) (netId : Hash) (event : ExtractedEvent) :
    Option TransferReject :=
  (eventTransfer operations txSourceAccount txSourceMuxedId netId event).bind fun
    | .ok _ => none
    | .error reject => some reject

theorem extractAssetTransfers_eq (events : List ExtractedEvent)
    (operations : List ExtractedOperation) (txSourceAccount : String)
    (txSourceMuxedId : Option UInt64) (netId : Hash) :
    extractAssetTransfers events operations txSourceAccount txSourceMuxedId netId =
      ⟨events.filterMap (acceptedTransfer operations txSourceAccount txSourceMuxedId netId),
        events.filterMap (rejectedTransfer operations txSourceAccount txSourceMuxedId netId)⟩ := by
  have hfold : ∀ (events : List ExtractedEvent) (extraction : AssetTransferExtraction),
      events.foldl (fun extraction event => extraction.push
        (eventTransfer operations txSourceAccount txSourceMuxedId netId event)) extraction =
      ⟨extraction.transfers ++
          events.filterMap (acceptedTransfer operations txSourceAccount txSourceMuxedId netId),
        extraction.rejects ++
          events.filterMap (rejectedTransfer operations txSourceAccount txSourceMuxedId netId)⟩ := by
    intro events
    induction events with
    | nil => intro extraction; simp
    | cons event rest ih =>
        intro extraction
        rw [List.foldl_cons, ih]
        cases h : eventTransfer operations txSourceAccount txSourceMuxedId netId event with
        | none => simp [AssetTransferExtraction.push, acceptedTransfer, rejectedTransfer, h]
        | some outcome =>
            cases outcome <;>
              simp [AssetTransferExtraction.push, acceptedTransfer, rejectedTransfer, h,
                Except.toOption]
  unfold extractAssetTransfers
  rw [hfold]
  simp

/-- An accepted event is an operation's, decodes, passes the gate and states an
amount or a token id. -/
structure Accepts (netId : Hash) (event : ExtractedEvent) (emitter : String) (token : TokenEvent) :
    Prop where
  emitter_eq : event.body.contractId = some emitter
  token_eq : parseTokenEvent event.body.topics = some token
  origin : ∃ operationIndex, event.origin = .operation operationIndex
  gate : assetGate token.asset emitter event.body.topics netId
  amount : tokenEventAmount event.body.data ≠ .unrecognised

omit [Crates] in
theorem tokenVerb_of_parseTokenEvent {topics : Json} {token : TokenEvent}
    (h : parseTokenEvent topics = some token) : tokenVerb topics = some token.kind := by
  unfold parseTokenEvent at h
  simp only [bind, Option.bind_eq_some_iff, Option.some.injEq] at h
  obtain ⟨elements, -, kind, hkind, ⟨sender, recipient, assetIdx⟩, -, rfl⟩ := h
  exact hkind

theorem acceptedTransfer_of_accepts (operations : List ExtractedOperation)
    (txSourceAccount : String) (txSourceMuxedId : Option UInt64) {netId : Hash}
    {event : ExtractedEvent} {emitter : String} {token : TokenEvent}
    (h : Accepts netId event emitter token) :
    ∃ transfer, acceptedTransfer operations txSourceAccount txSourceMuxedId netId event =
      some transfer ∧ transfer.asset = token.asset ∧ transfer.emitter = emitter := by
  obtain ⟨operationIndex, horigin⟩ := h.origin
  have hverb := tokenVerb_of_parseTokenEvent h.token_eq
  unfold acceptedTransfer eventTransfer
  rw [hverb]
  simp only [Option.map_some, Option.bind_some, h.emitter_eq, h.token_eq, decodedTransfer, horigin,
    h.gate]
  cases hamount : tokenEventAmount event.body.data with
  | unrecognised => exact absurd hamount h.amount
  | _ => exact ⟨_, rfl, rfl, rfl⟩

theorem accepts_of_acceptedTransfer {operations : List ExtractedOperation}
    {txSourceAccount : String} {txSourceMuxedId : Option UInt64} {netId : Hash}
    {event : ExtractedEvent} {transfer : ExtractedAssetTransfer}
    (h : acceptedTransfer operations txSourceAccount txSourceMuxedId netId event =
      some transfer) :
    ∃ token, Accepts netId event transfer.emitter token ∧ transfer.asset = token.asset := by
  unfold acceptedTransfer eventTransfer at h
  cases hverb : tokenVerb event.body.topics with
  | none => simp [hverb] at h
  | some kind =>
    cases hemitter : event.body.contractId with
    | none => simp [hverb, hemitter, Except.toOption] at h
    | some emitter =>
      cases htoken : parseTokenEvent event.body.topics with
      | none => simp [hverb, hemitter, htoken, Except.toOption] at h
      | some token =>
        cases horigin : event.origin with
        | transaction stage =>
            simp [hverb, hemitter, htoken, decodedTransfer, horigin, Except.mapError,
              Except.toOption] at h
        | operation operationIndex =>
          -- past the verb, the emitter and the shape, the gate decides
          by_cases hgate : assetGate token.asset emitter event.body.topics netId
          · cases hamount : tokenEventAmount event.body.data <;>
              simp [hverb, hemitter, htoken, decodedTransfer, horigin, hgate, hamount,
                Except.mapError, Except.toOption] at h
            all_goals
              subst h
              exact ⟨token, ⟨hemitter, htoken, ⟨_, horigin⟩, hgate, by simp [hamount]⟩, rfl⟩
          · simp [hverb, hemitter, htoken, decodedTransfer, horigin, hgate, Except.mapError,
              Except.toOption] at h

end

/-! ## The partition -/

/-- What an outcome keeps of its event: the transaction, and where it happened. -/
def Records (event : ExtractedEvent) : Except TransferReject ExtractedAssetTransfer → Prop
  | .ok transfer => transfer.transactionHash = event.transactionHash ∧
      (∃ operationIndex, event.origin = .operation operationIndex ∧
        transfer.opIndex = operationIndex.toUInt32) ∧
      transfer.eventPosInOp = event.eventId.eventIndex ∧
      tokenVerb event.body.topics = some transfer.kind
  | .error reject => reject.transactionHash = event.transactionHash ∧
      reject.eventId = event.eventId

/-- Every event with a token verb has one outcome, and the outcomes in order are
the transfers and the counted rejects. -/
def Partitioned (events : List ExtractedEvent) (extraction : AssetTransferExtraction) : Prop :=
  ∃ outcomes : List (Except TransferReject ExtractedAssetTransfer),
    List.Forall₂ Records (events.filter fun event => (tokenVerb event.body.topics).isSome)
      outcomes ∧
    extraction.transfers = outcomes.filterMap Except.toOption ∧
    extraction.rejects = outcomes.filterMap (fun
      | .ok _ => none
      | .error reject => some reject) ∧
    extraction.rejectCounts.total = extraction.rejects.length

theorem RejectCounts.total_add (counts : RejectCounts) (reject : TransferReject) :
    (counts.add reject).total = counts.total + 1 := by
  unfold RejectCounts.add
  cases reject.kind <;> simp [RejectCounts.total] <;> omega

theorem RejectCounts.total_absorb (counts other : RejectCounts) :
    (counts.absorb other).total = counts.total + other.total := by
  simp [RejectCounts.absorb, RejectCounts.total]
  omega

theorem AssetTransferExtraction.total_rejectCounts (extraction : AssetTransferExtraction) :
    extraction.rejectCounts.total = extraction.rejects.length := by
  have hfold : ∀ (rejects : List TransferReject) (counts : RejectCounts),
      (rejects.foldl RejectCounts.add counts).total = counts.total + rejects.length := by
    intro rejects
    induction rejects with
    | nil => simp
    | cons reject rest ih =>
        intro counts
        rw [List.foldl_cons, ih, RejectCounts.total_add, List.length_cons]
        omega
  unfold AssetTransferExtraction.rejectCounts
  rw [hfold]
  simp [RejectCounts.total]

theorem records_eventTransfer [Crates] {operations : List ExtractedOperation}
    {txSourceAccount : String} {txSourceMuxedId : Option UInt64} {netId : Hash}
    {event : ExtractedEvent} {outcome : Except TransferReject ExtractedAssetTransfer}
    (h : eventTransfer operations txSourceAccount txSourceMuxedId netId event = some outcome) :
    Records event outcome := by
  unfold eventTransfer at h
  obtain ⟨kind, hverb, rfl⟩ := Option.map_eq_some_iff.mp h
  cases hemitter : event.body.contractId with
  | none => simp [Records]
  | some emitter =>
    cases htoken : parseTokenEvent event.body.topics with
    | none => simp [Records]
    | some token =>
      have hkind := tokenVerb_of_parseTokenEvent htoken
      cases horigin : event.origin with
      | transaction stage => simp [decodedTransfer, horigin, Except.mapError, Records]
      | operation operationIndex =>
        by_cases hgate : assetGate token.asset emitter event.body.topics netId
        · cases hamount : tokenEventAmount event.body.data <;>
            simp [decodedTransfer, horigin, hgate, hamount, Except.mapError, Records, hkind]
        · simp [decodedTransfer, horigin, hgate, Except.mapError, Records]

theorem isSome_eventTransfer [Crates] (operations : List ExtractedOperation)
    (txSourceAccount : String) (txSourceMuxedId : Option UInt64) (netId : Hash)
    (event : ExtractedEvent) :
    (eventTransfer operations txSourceAccount txSourceMuxedId netId event).isSome =
      (tokenVerb event.body.topics).isSome := by
  simp [eventTransfer]

theorem partitioned_extractAssetTransfers [Crates] (events : List ExtractedEvent)
    (operations : List ExtractedOperation) (txSourceAccount : String)
    (txSourceMuxedId : Option UInt64) (netId : Hash) :
    Partitioned events
      (extractAssetTransfers events operations txSourceAccount txSourceMuxedId netId) := by
  refine ⟨events.filterMap (eventTransfer operations txSourceAccount txSourceMuxedId netId),
    ?_, ?_, ?_, AssetTransferExtraction.total_rejectCounts _⟩
  · induction events with
    | nil => exact .nil
    | cons event rest ih =>
        have hsome := isSome_eventTransfer operations txSourceAccount txSourceMuxedId netId event
        cases h : eventTransfer operations txSourceAccount txSourceMuxedId netId event with
        | none => simpa [h, ← hsome] using ih
        | some outcome => simpa [h, ← hsome] using ⟨records_eventTransfer h, ih⟩
  · rw [extractAssetTransfers_eq, List.filterMap_filterMap]
    rfl
  · rw [extractAssetTransfers_eq, List.filterMap_filterMap]
    rfl

end SorobanExplorer
