import Mathlib.Data.Option.Basic
import SorobanExplorer.Parser.TransferOutcomes

/-!
# Who may move a labelled asset

The address check of a labelled event is made on its last topic; the asset the
row reports is read right after the address operands.  Where the label is the
last topic the two are one text, and the emitter is the asset's own contract.
An event with further topics carries two labels, and only the last is checked.
-/

namespace SorobanExplorer

open Text

section

variable [Crates]

/-! ## The contract of a label -/

/-- The contract of the asset an event names; a bespoke token has no other than
its emitter. -/
def EventAsset.contract (netId : Hash) : EventAsset → Option String
  | .native => deriveSacStrkey "" "" netId
  | .credit code issuer => deriveSacStrkey code issuer netId
  | .bespoke => none

omit [Crates] in
/-- A non-empty string topic is a string topic. -/
theorem topicStringValue_eq {topic : Json} {text : String}
    (h : topicStringValue topic = some text) : typedStr topic "string" = some text := by
  unfold topicStringValue at h
  unfold typedStr typed
  split at h
  · next htype =>
      obtain ⟨type, htype, hname⟩ := Option.bind_eq_some_iff.mp htype
      obtain ⟨hvalue, -⟩ := Option.filter_eq_some_iff.mp h
      obtain ⟨value, hvalue, htext⟩ := Option.bind_eq_some_iff.mp hvalue
      simp [htype, hname, hvalue, htext]
  · exact absurd h (by simp)

/-- The label of an event that has one derives what its text does. -/
theorem contract_eventAsset {netId : Hash} {topic : Json} {text : String} {asset : Asset}
    (htext : topicStringValue topic = some text) (hasset : parseSacAssetString text = some asset)
    (hlabel : eventAsset (some topic) ≠ .bespoke) :
    (eventAsset (some topic)).contract netId = some (deriveSacContractId (.asset asset) netId) := by
  have htyped := topicStringValue_eq htext
  by_cases hnative : text = "native"
  · subst hnative
    simp [parseSacAssetString] at hasset
    subst hasset
    simp [eventAsset, htyped, EventAsset.contract, deriveSacStrkey]
  · unfold parseSacAssetString at hasset
    rw [if_neg hnative] at hasset
    cases hsplit : splitOnceColon text with
    | none => simp [hsplit] at hasset
    | some parts =>
        obtain ⟨code, issuer⟩ := parts
        have hparts : code ≠ "" ∧ issuer ≠ "" := by
          by_contra hempty
          simp [eventAsset, htyped, hnative, hsplit, hempty] at hlabel
        simp only [hsplit, bind, Option.bind_eq_some_iff, Option.some.injEq, exists_eq_left']
          at hasset
        obtain ⟨-, -, account, haccount, hbuild⟩ := hasset
        simp [eventAsset, htyped, hnative, hsplit, hparts, EventAsset.contract, deriveSacStrkey,
          haccount, hbuild]

omit [Crates] in
theorem arr_of_asArray {value : Json} {elements : List Json}
    (h : value.asArray = some elements) : value = .arr elements := by
  cases value with
  | arr _ => exact congrArg Json.arr (Option.some.inj h)
  | _ => exact absurd h (by simp [Json.asArray])

/-- The gate proves the last topic's asset to be the emitter's. -/
theorem exists_of_gate {netId : Hash} {emitter : String} {topics : Json}
    (h : (sacOverrideFromEventTopics emitter topics netId).isSome) :
    ∃ elements last text asset, topics = .arr elements ∧ elements.getLast? = some last ∧
      topicStringValue last = some text ∧ parseSacAssetString text = some asset ∧
      deriveSacContractId (.asset asset) netId = emitter := by
  obtain ⟨override, h⟩ := Option.isSome_iff_exists.mp h
  unfold sacOverrideFromEventTopics at h
  simp only [bind, Option.bind_eq_some_iff, Option.some.injEq] at h
  obtain ⟨elements, helements, -, -, signature, -, -, -, text, ⟨last, hlast, htext⟩, asset, hasset,
    _, hguard, -⟩ := h
  exact ⟨elements, last, text, asset, arr_of_asArray helements, hlast, htext, hasset,
    (Option.guard_eq_some' _).mp hguard⟩

omit [Crates] in
/-- The asset of a decoded event is read right after its operands. -/
theorem asset_of_parseTokenEvent {topics : Json} {token : TokenEvent}
    (h : parseTokenEvent topics = some token) :
    ∃ elements assetIdx, topics = .arr elements ∧
      (tokenOperands elements token.kind).map (·.2.2) = some assetIdx ∧
      token.asset = eventAsset elements[assetIdx]? := by
  unfold parseTokenEvent at h
  simp only [bind, Option.bind_eq_some_iff, Option.some.injEq] at h
  obtain ⟨elements, helements, kind, -, ⟨sender, recipient, assetIdx⟩, hoperands, rfl⟩ := h
  exact ⟨elements, assetIdx, arr_of_asArray helements, by simp [hoperands], rfl⟩

/-- A label in the last topic of an accepted event is its emitter's. -/
theorem contract_of_label_last {netId : Hash} {event : ExtractedEvent} {emitter : String}
    {token : TokenEvent} (h : Accepts netId event emitter token) {elements : List Json}
    (htopics : event.body.topics = .arr elements) {assetIdx : ℕ}
    (hasset : token.asset = eventAsset elements[assetIdx]?) (hlabel : token.asset ≠ .bespoke)
    (hlast : elements.length ≤ assetIdx + 1) : token.asset.contract netId = some emitter := by
  have hgate : (sacOverrideFromEventTopics emitter event.body.topics netId).isSome := by
    have hgate := h.gate
    unfold assetGate at hgate
    simpa [hlabel] using hgate
  obtain ⟨elements', last, text, asset, htopics', hlast', htext, hparse, hderived⟩ :=
    exists_of_gate hgate
  obtain rfl : elements = elements' := by simpa [htopics] using htopics'
  have hindex : elements[assetIdx]? = some last := by
    have hlt : assetIdx < elements.length := by
      by_contra hge
      rw [List.getElem?_eq_none (by omega)] at hasset
      exact hlabel hasset
    rw [← hlast', List.getLast?_eq_getElem?]
    congr 1
    omega
  rw [hasset, hindex] at hlabel ⊢
  rw [contract_eventAsset htext hparse hlabel, hderived]

/-- An accepted event with topics after its label, whose label is not of the
contract that the last topic was checked for. -/
def Mislabelled (netId : Hash) (event : ExtractedEvent) : Prop :=
  ∃ emitter token elements assetIdx, Accepts netId event emitter token ∧
    event.body.topics = .arr elements ∧
    (tokenOperands elements token.kind).map (·.2.2) = some assetIdx ∧
    assetIdx + 1 < elements.length ∧
    token.asset ≠ .bespoke ∧ token.asset.contract netId ≠ some emitter

/-- Every labelled transfer was emitted by its asset's own contract exactly when
no accepted event is mislabelled. -/
theorem labelledTransfers_authentic_iff (events : List ExtractedEvent)
    (operations : List ExtractedOperation) (txSourceAccount : String)
    (txSourceMuxedId : Option UInt64) (netId : Hash) :
    (∀ transfer ∈ (extractAssetTransfers events operations txSourceAccount txSourceMuxedId
        netId).transfers, transfer.asset ≠ .bespoke →
      transfer.asset.contract netId = some transfer.emitter) ↔
    ∀ event ∈ events, ¬ Mislabelled netId event := by
  rw [extractAssetTransfers_eq]
  constructor
  · rintro h event hevent ⟨emitter, token, elements, assetIdx, haccepts, -, -, -, hlabel, hcontract⟩
    obtain ⟨transfer, htransfer, hasset, hemitter⟩ := acceptedTransfer_of_accepts operations
      txSourceAccount txSourceMuxedId haccepts
    have hauthentic := h transfer (List.mem_filterMap.mpr ⟨event, hevent, htransfer⟩)
    rw [hasset, hemitter] at hauthentic
    exact hcontract (hauthentic hlabel)
  · intro h transfer htransfer hlabel
    obtain ⟨event, hevent, htransfer⟩ := List.mem_filterMap.mp htransfer
    obtain ⟨token, haccepts, hasset⟩ := accepts_of_acceptedTransfer htransfer
    rw [hasset] at hlabel ⊢
    by_contra hcontract
    obtain ⟨elements, assetIdx, htopics, hoperands, hlabelled⟩ :=
      asset_of_parseTokenEvent haccepts.token_eq
    by_cases hlast : assetIdx + 1 < elements.length
    · exact h event hevent ⟨_, token, elements, assetIdx, haccepts, htopics, hoperands, hlast,
        hlabel, hcontract⟩
    · exact hcontract
        (contract_of_label_last haccepts htopics hlabelled hlabel (by omega))

end

/-! ## A second label -/

/-- A transfer that names `USDC` after its addresses and `EVIL`, both issued by
the pinned account, last. -/
def twoLabels : ExtractedEvent where
  transactionHash := "aa"
  eventId := ⟨60000000, 1, 0, 0⟩
  origin := .operation 0
  body :=
    { eventType := .contract
      contractId := some "CDCN6G3FWWDP7I75YXQCUNJLZ34WO2C2ZNTX55ZUXZUWYJ6XV7DMMP7M"
      topics := .arr [typedJson "sym" (.str "transfer"),
        typedJson "address" (.str Crates.pinnedAccountStrkey),
        typedJson "address" (.str Crates.pinnedAccountStrkey),
        typedJson "string" (.str ("USDC:" ++ Crates.pinnedAccountStrkey)),
        typedJson "string" (.str ("EVIL:" ++ Crates.pinnedAccountStrkey))]
      data := typedJson "i128" (.str "50000000") }
  createdAt := 1750000000

/-- The contract of `EVIL` moves `USDC`. -/
theorem not_labelledTransfers_authentic_twoLabels :
    let _ : Crates := Crates.pinned
    ¬ ∀ transfer ∈ (extractAssetTransfers [twoLabels] [] Crates.pinnedAccountStrkey none
        Crates.pinnedNetwork).transfers, transfer.asset ≠ .bespoke →
      transfer.asset.contract Crates.pinnedNetwork = some transfer.emitter := by
  let _ : Crates := Crates.pinned
  decide

end SorobanExplorer
