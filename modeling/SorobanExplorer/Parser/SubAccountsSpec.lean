import SorobanExplorer.Lib.KeyedFold
import SorobanExplorer.Parser.SubAccounts

/-!
# Which transfers get the recipient's id

Each event is looked at on its own, so whether its transfer gets the operation's id is a
question about one movement: it must reach the destination, in the asset delivered.  The
delivery does, and a trade on the way may: one with an offer of the recipient that buys
the asset, or one that pays the asset to a source that is its own destination.
-/

namespace SorobanExplorer

open KeyedFold Text

section

variable [Crates]

/-! ## The token event of a movement -/

/-- A movement whose ends are plain addresses and whose asset has a label. -/
structure Movement.Rendered (m : Movement) : Prop where
  sender : m.sender ≠ ""
  recipient : m.recipient ≠ ""
  plain : m.recipient.toList.head? ≠ some 'M' ∧ m.recipient.toList.head? ≠ some 'W'
  labelled : labelledAsset m.asset ≠ .bespoke

def Movement.token (m : Movement) : TokenEvent where
  kind := m.kind
  sender := if m.kind = .mint then none else some m.sender
  recipient := if m.kind = .burn then none else some m.recipient
  asset := labelledAsset m.asset

/-- A movement reaches an address as a credit; to the issuer it is a burn, unless from
the issuer. -/
def Movement.Reaches (m : Movement) (address : String) : Prop :=
  m.recipient = address ∧ (issuerStrkey m.asset = some address → m.sender = address)

instance (m : Movement) (address : String) : Decidable (m.Reaches address) :=
  inferInstanceAs (Decidable (_ ∧ _))

theorem Movement.kind_eq_burn (m : Movement) :
    m.kind = .burn ↔ issuerStrkey m.asset = some m.recipient ∧ m.sender ≠ m.recipient := by
  unfold kind
  split_ifs with hmint hburn
  · constructor
    · intro h
      cases h
    · intro h
      exact absurd (Option.some.inj (hmint.1.symm.trans h.1)) hmint.2
  · exact iff_of_true rfl hburn
  · exact iff_of_false (fun h => by cases h) hburn

/-- The event of a movement names the address it reaches. -/
theorem Movement.reaches_iff (m : Movement) (address : String) :
    m.Reaches address ↔ m.token.recipient = some address := by
  have hrecipient : m.token.recipient = if m.kind = .burn then none else some m.recipient := rfl
  rw [hrecipient]
  constructor
  · rintro ⟨rfl, hissuer⟩
    rw [if_neg]
    intro hburn
    obtain ⟨hto, hne⟩ := m.kind_eq_burn.mp hburn
    exact hne (hissuer hto)
  · intro hnamed
    split_ifs at hnamed with hkind
    obtain rfl := Option.some.inj hnamed
    refine ⟨rfl, fun hissuer => ?_⟩
    by_contra hne
    exact hkind (m.kind_eq_burn.mpr ⟨hissuer, hne⟩)

omit [Crates] in
theorem tokenVerb_sym (verb : String) (rest : List Json) :
    tokenVerb (.arr (typedJson "sym" (.str verb) :: rest)) =
      if eqIgnoreAsciiCase verb "transfer" then some .transfer
      else if eqIgnoreAsciiCase verb "mint" then some .mint
      else if eqIgnoreAsciiCase verb "burn" then some .burn
      else if eqIgnoreAsciiCase verb "clawback" then some .clawback
      else none := by
  simp [tokenVerb, typedJson]

/-- The topics of a movement decode to its token event. -/
theorem parseTokenEvent_topics {m : Movement} (h : m.Rendered) :
    parseTokenEvent m.topics = some m.token := by
  have haddress : ∀ strkey : String, strkey ≠ "" →
      addressOf (typedJson "address" (.str strkey)) = some strkey := by
    intro strkey hstrkey
    simp [addressOf, typedStr, typed, typedJson, Option.filter, hstrkey]
  have hlabel : addressOf (typedJson "string" (.str (assetLabel m.asset))) = none := by
    simp [addressOf, typedStr, typed, typedJson]
  have hsender := haddress m.sender h.sender
  have hrecipient := haddress m.recipient h.recipient
  unfold Movement.topics parseTokenEvent
  cases hkind : m.kind with
  | mint =>
      have hverb : ∀ rest, tokenVerb (.arr (typedJson "sym" (.str "mint") :: rest)) = some .mint :=
        fun rest => (tokenVerb_sym "mint" rest).trans (by decide)
      simp [hverb, tokenOperands, operandAfterOptionalAdmin, hrecipient, hlabel, Movement.token,
        hkind, labelledAsset]
  | burn =>
      have hverb : ∀ rest, tokenVerb (.arr (typedJson "sym" (.str "burn") :: rest)) = some .burn :=
        fun rest => (tokenVerb_sym "burn" rest).trans (by decide)
      simp [hverb, tokenOperands, hsender, Movement.token, hkind, labelledAsset]
  | transfer =>
      have hverb : ∀ rest,
          tokenVerb (.arr (typedJson "sym" (.str "transfer") :: rest)) = some .transfer :=
        fun rest => (tokenVerb_sym "transfer" rest).trans (by decide)
      simp [hverb, tokenOperands, hsender, hrecipient, Movement.token, hkind, labelledAsset]
  | clawback =>
      -- No movement is a clawback.
      unfold Movement.kind at hkind
      split_ifs at hkind

/-! ## The operation -/

omit [Crates] in
/-- A credit asset is named by a text that splits at a colon, neither part empty. -/
theorem eventAsset_eq_credit {text code issuer : String} :
    eventAsset (some (typedJson "string" (.str text))) = .credit code issuer ↔
      text ≠ "native" ∧ splitOnceColon text = some (code, issuer) ∧ code ≠ "" ∧ issuer ≠ "" := by
  have htext : typedStr (typedJson "string" (.str text)) "string" = some text := by
    simp [typedStr, typed, typedJson]
  unfold eventAsset
  rw [Option.bind_some, htext]
  dsimp only
  by_cases hnative : text = "native"
  · simp [hnative]
  · rw [if_neg hnative]
    cases hsplit : splitOnceColon text with
    | none => simp
    | some parts =>
        obtain ⟨code', issuer'⟩ := parts
        dsimp only
        constructor
        · intro h
          split_ifs at h with hparts
          obtain ⟨rfl, rfl⟩ := EventAsset.credit.inj h
          exact ⟨hnative, rfl, hparts⟩
        · rintro ⟨-, hsame, hparts⟩
          obtain ⟨rfl, rfl⟩ := Prod.mk.inj (Option.some.inj hsame)
          rw [if_pos hparts]

omit [Crates] in
theorem eventAsset_eq_native {text : String} :
    eventAsset (some (typedJson "string" (.str text))) = .native ↔ text = "native" := by
  have htext : typedStr (typedJson "string" (.str text)) "string" = some text := by
    simp [typedStr, typed, typedJson]
  unfold eventAsset
  rw [Option.bind_some, htext]
  dsimp only
  split_ifs with hnative
  · exact iff_of_true rfl hnative
  · refine iff_of_false ?_ hnative
    cases splitOnceColon text with
    | none => exact fun h => by cases h
    | some parts =>
        dsimp only
        split_ifs <;> exact fun h => by cases h

/-- The text of the asset in an operation's details. -/
def deliveredText (op : ExtractedOperation) : Option String :=
  ((op.details.get? "destAsset").or (op.details.get? "asset")).bind Json.asStr

theorem deliveredText_extractPayment (transactionHash : String) (index : UInt32)
    (source : Option MuxedAccount) (body : PaymentBody) (claims : PoolClaims) :
    deliveredText (extractPayment transactionHash index source body claims) =
        some (assetLabel body.delivered) ∨
      deliveredText (extractPayment transactionHash index source body claims) = none ∧
        body.delivered = .native := by
  unfold deliveredText extractPayment appendPoolClaims
  cases body with
  | payment destination asset amount =>
      left
      split_ifs <;> simp [PaymentBody.opDetails, formatOperationAsset, PaymentBody.delivered]
  | pathPaymentStrictReceive sendAsset sendMax destination destAsset destAmount path =>
      left
      split_ifs <;> simp [PaymentBody.opDetails, formatOperationAsset, PaymentBody.delivered]
  | pathPaymentStrictSend sendAsset sendAmount destination destAsset destMin path =>
      left
      split_ifs <;> simp [PaymentBody.opDetails, formatOperationAsset, PaymentBody.delivered]
  | accountMerge destination =>
      right
      split_ifs <;> simp [PaymentBody.opDetails, PaymentBody.delivered]

theorem destination_extractPayment (transactionHash : String) (index : UInt32)
    (source : Option MuxedAccount) (body : PaymentBody) (claims : PoolClaims) :
    ((extractPayment transactionHash index source body claims).details.get? "destination").bind
      Json.asStr = some (muxedToGStrkey body.destination) := by
  unfold extractPayment appendPoolClaims
  cases body <;> split_ifs <;> simp [PaymentBody.opDetails, PaymentBody.destination]

section

variable {op : ExtractedOperation} {text code issuer : String}

omit [Crates] in
theorem opDelivers_native_of_some (h : deliveredText op = some text) :
    opDelivers op .native = true ↔ text = "native" := by
  unfold deliveredText at h
  unfold opDelivers
  rw [h]
  by_cases hnative : text = "native"
  · simp [hnative]
  · simp [hnative]

omit [Crates] in
theorem opDelivers_native_of_none (h : deliveredText op = none) :
    opDelivers op .native = true := by
  unfold deliveredText at h
  unfold opDelivers
  rw [h]

omit [Crates] in
theorem opDelivers_credit_of_some (h : deliveredText op = some text) :
    opDelivers op (.credit code issuer) = true ↔
      splitOnceColon text = some (code, issuer) := by
  unfold deliveredText at h
  unfold opDelivers
  rw [h]
  simp

omit [Crates] in
theorem not_opDelivers_credit_of_none (h : deliveredText op = none) :
    ¬ opDelivers op (.credit code issuer) = true := by
  unfold deliveredText at h
  unfold opDelivers
  rw [h]
  simp

end

/-- An operation delivers the asset its details name. -/
theorem opDelivers_extractPayment (transactionHash : String) (index : UInt32)
    (source : Option MuxedAccount) (body : PaymentBody) (claims : PoolClaims) {asset : Asset}
    (hasset : labelledAsset asset ≠ .bespoke) :
    opDelivers (extractPayment transactionHash index source body claims) (labelledAsset asset) ↔
      labelledAsset asset = labelledAsset body.delivered := by
  have htext := deliveredText_extractPayment transactionHash index source body claims
  set op := extractPayment transactionHash index source body claims with hop
  cases hkind : labelledAsset asset with
  | bespoke => exact absurd hkind hasset
  | native =>
      rcases htext with htext | ⟨htext, hdelivered⟩
      · rw [opDelivers_native_of_some htext, eq_comm (a := EventAsset.native), labelledAsset,
          eventAsset_eq_native]
      · rw [hdelivered]
        exact iff_of_true (opDelivers_native_of_none htext) (eventAsset_eq_native.mpr rfl).symm
  | credit code issuer =>
      obtain ⟨-, -, hparts⟩ := eventAsset_eq_credit.mp hkind
      rcases htext with htext | ⟨htext, hdelivered⟩
      · rw [opDelivers_credit_of_some htext, eq_comm (a := EventAsset.credit code issuer),
          labelledAsset, eventAsset_eq_credit]
        -- the label of the native asset does not split
        have hsplits : splitOnceColon (assetLabel body.delivered) = some (code, issuer) →
            assetLabel body.delivered ≠ "native" := by
          intro hsplit heq
          have hnone : splitOnceColon "native" = none := by decide
          rw [heq, hnone] at hsplit
          cases hsplit
        constructor
        · exact fun hsplit => ⟨hsplits hsplit, hsplit, hparts⟩
        · exact fun h => h.2.1
      · rw [hdelivered]
        refine iff_of_false (not_opDelivers_credit_of_none htext) fun h => ?_
        have hnative : labelledAsset .native = .native := eventAsset_eq_native.mpr rfl
        rw [hnative] at h
        cases h

/-! ## One transfer -/

variable {operations : List ExtractedOperation} {txSourceAccount : String}
  {txSourceMuxedId : Option UInt64} {netId : Hash}

/-- The operation an event belongs to. -/
def operationAt (operations : List ExtractedOperation) (index : UInt16) : Option ExtractedOperation :=
  operations[index.toNat]?.filter fun op => op.operationIndex = index.toUInt32

/-- The recipient's id of an accepted event's transfer, and the operation it is of. -/
theorem acceptedTransfer_recipient {event : ExtractedEvent} {emitter : String} {token : TokenEvent}
    (h : Accepts netId event emitter token) {index : UInt16}
    (horigin : event.origin = .operation index) :
    ∃ transfer, acceptedTransfer operations txSourceAccount txSourceMuxedId netId event =
      some transfer ∧ transfer.opIndex = index.toUInt32 ∧
      transfer.recipientMuxedId = (transferEnd token.recipient
        (recipientId (operationAt operations index) token.asset
          (eventToMuxedId event.body.data))).2 := by
  have hverb := tokenVerb_of_parseTokenEvent h.token_eq
  unfold acceptedTransfer eventTransfer
  rw [hverb]
  simp only [Option.map_some, Option.bind_some, h.emitter_eq, h.token_eq, decodedTransfer, horigin,
    h.gate]
  cases hamount : tokenEventAmount event.body.data with
  | unrecognised => exact absurd hamount h.amount
  | fungible amount => exact ⟨_, rfl, rfl, rfl⟩
  | nonFungible => exact ⟨_, rfl, rfl, rfl⟩

theorem Reports.accepts {index : UInt16} {event : ExtractedEvent} {m : Movement}
    (h : Reports netId index event m) (hm : m.Rendered) :
    ∃ emitter, Accepts netId event emitter m.token := by
  obtain ⟨emitter, hemitter, hgate⟩ := h.emitter
  refine ⟨emitter, hemitter, h.topics ▸ parseTokenEvent_topics hm, ⟨index, h.origin⟩, ?_, h.amount⟩
  rw [h.topics]
  simp [assetGate, hgate]

theorem splitMuxed_plain {strkey : String}
    (h : strkey.toList.head? ≠ some 'M' ∧ strkey.toList.head? ≠ some 'W') :
    splitMuxed strkey = (strkey, none) :=
  if_pos h

section

variable {transactionHash : String} {index : UInt16} {source : Option MuxedAccount}
  {body : PaymentBody} {claims : PoolClaims}

/-- A payment's id is for its destination, in the asset it delivers. -/
theorem recipientId_extractPayment {index : UInt32} {asset : Asset}
    (hasset : labelledAsset asset ≠ .bespoke) (eventToMuxedId : Option UInt64) (address : String) :
    recipientId (some (extractPayment transactionHash index source body claims))
        (labelledAsset asset) eventToMuxedId address =
      if address = muxedToGStrkey body.destination ∧
          labelledAsset asset = labelledAsset body.delivered then
        muxedId body.destination
      else none := by
  have hdestination := destination_extractPayment transactionHash index source body claims
  have hdelivers := opDelivers_extractPayment transactionHash index source body claims hasset
  set op := extractPayment transactionHash index source body claims with hop
  have htype : op.opType ≠ .invokeHostFunction := by
    rw [hop]
    cases body <;> exact fun h => by cases h
  have hid : op.destinationMuxedId = muxedId body.destination := rfl
  have hclassic : (some op).any (·.opType = .invokeHostFunction) = false := by simp [htype]
  rw [recipientId, hclassic, if_neg Bool.false_ne_true]
  by_cases hto : address = muxedToGStrkey body.destination
  · by_cases hsame : labelledAsset asset = labelledAsset body.delivered
    · rw [if_pos ⟨hto, hsame⟩]
      simp [hdestination, hto, hdelivers.mpr hsame, hid, Option.filter]
    · rw [if_neg fun h => hsame h.2]
      have hnot : opDelivers op (labelledAsset asset) = false :=
        Bool.eq_false_iff.mpr fun h => hsame (hdelivers.mp h)
      simp [hdestination, hto, hnot, Option.filter]
  · rw [if_neg fun h => hto h.1]
    simp [hdestination, Ne.symm hto, Option.filter]

/-- The transfer of a movement gets the operation's id exactly when the movement reaches
the destination in the asset delivered. -/
theorem recipientMuxedId_of_reports {event : ExtractedEvent} {m : Movement}
    (h : Reports netId index event m) (hm : m.Rendered)
    (hop : operations[index.toNat]? =
      some (extractPayment transactionHash index.toUInt32 source body claims)) :
    ∃ transfer, acceptedTransfer operations txSourceAccount txSourceMuxedId netId event =
      some transfer ∧ transfer.opIndex = index.toUInt32 ∧
      transfer.recipientMuxedId =
        if m.Reaches (muxedToGStrkey body.destination) ∧
            labelledAsset m.asset = labelledAsset body.delivered then
          muxedId body.destination
        else none := by
  obtain ⟨emitter, haccepts⟩ := h.accepts hm
  obtain ⟨transfer, htransfer, hindex, hrecipient⟩ :=
    @acceptedTransfer_recipient _ operations txSourceAccount txSourceMuxedId _ _ _ _ haccepts _
      h.origin
  refine ⟨transfer, htransfer, hindex, hrecipient.trans ?_⟩
  have hat : operationAt operations index =
      some (extractPayment transactionHash index.toUInt32 source body claims) := by
    rw [operationAt, hop, Option.filter_some, if_pos]
    exact decide_eq_true rfl
  have hreaches := m.reaches_iff (muxedToGStrkey body.destination)
  rw [hat]
  cases hnamed : m.token.recipient with
  | none =>
      rw [hnamed] at hreaches
      rw [if_neg fun hboth => by cases hreaches.mp hboth.1]
      rfl
  | some address =>
      obtain rfl : m.recipient = address := ((m.reaches_iff address).mpr hnamed).1
      rw [hnamed, Option.some_inj] at hreaches
      -- the end of the transfer is the movement's recipient
      have hend : (transferEnd (some m.recipient) (recipientId
          (some (extractPayment transactionHash index.toUInt32 source body claims)) m.token.asset
          (eventToMuxedId event.body.data))).2 =
          recipientId (some (extractPayment transactionHash index.toUInt32 source body claims))
            (labelledAsset m.asset) (eventToMuxedId event.body.data) m.recipient := by
        simp only [transferEnd, splitMuxed_plain hm.plain, Option.none_or]
        rfl
      rw [hend, recipientId_extractPayment hm.labelled]
      by_cases hto : m.recipient = muxedToGStrkey body.destination
      · simp only [hto, hreaches.mpr hto, true_and]
      · rw [if_neg fun h => hto h.1, if_neg fun h => hto (hreaches.mp h.1)]

end

/-! ## All transfers of an operation -/

/-- The transfers of an operation are those of its events. -/
theorem transfers_filter_opIndex (events : List ExtractedEvent) (index : UInt16) :
    ((extractAssetTransfers events operations txSourceAccount txSourceMuxedId
        netId).transfers.filter (·.opIndex = index.toUInt32)) =
      (events.filter (·.origin = .operation index)).filterMap
        (acceptedTransfer operations txSourceAccount txSourceMuxedId netId) := by
  rw [extractAssetTransfers_eq, List.filter_filterMap, List.filterMap_filter]
  apply List.filterMap_congr
  intro event _
  cases haccepted : acceptedTransfer operations txSourceAccount txSourceMuxedId netId event with
  | none => simp
  | some transfer =>
      obtain ⟨outcome, houtcome, htransfer⟩ := Option.bind_eq_some_iff.mp haccepted
      have hrecords := records_eventTransfer houtcome
      cases outcome with
      | error reject => cases htransfer
      | ok accepted =>
          obtain rfl : accepted = transfer := Option.some.inj htransfer
          obtain ⟨-, ⟨operationIndex, horigin, hindex⟩, -⟩ := hrecords
          have hinj : operationIndex.toUInt32 = index.toUInt32 ↔ operationIndex = index := by
            constructor
            · intro h
              have hnat := congrArg UInt32.toNat h
              rw [UInt16.toNat_toUInt32, UInt16.toNat_toUInt32] at hnat
              exact UInt16.toNat_inj.mp hnat
            · exact congrArg UInt16.toUInt32
          simp [Option.filter, hindex, horigin, hinj]

section

variable {transactionHash : String} {index : UInt16} {source : Option MuxedAccount}
  {body : PaymentBody} {claims : PoolClaims} {crossings : List Crossing} {id : UInt64}

/-- A movement that gets the operation's id: it reaches the destination in the asset
delivered. -/
def PaymentBody.Credits (body : PaymentBody) (m : Movement) : Prop :=
  m.Reaches (muxedToGStrkey body.destination) ∧
    labelledAsset m.asset = labelledAsset body.delivered

instance (body : PaymentBody) (m : Movement) : Decidable (body.Credits m) :=
  inferInstanceAs (Decidable (_ ∧ _))

/-- The recipients' ids of a payment's transfers. -/
theorem recipientMuxedIds_of_reports {events : List ExtractedEvent} {movements : List Movement}
    (hop : operations[index.toNat]? =
      some (extractPayment transactionHash index.toUInt32 source body claims))
    (hrendered : ∀ m ∈ movements, m.Rendered)
    (hreports : List.Forall₂ (Reports netId index)
      (events.filter (·.origin = .operation index)) movements) :
    ((extractAssetTransfers events operations txSourceAccount txSourceMuxedId
        netId).transfers.filter (·.opIndex = index.toUInt32)).map (·.recipientMuxedId) =
      movements.map fun m => if body.Credits m then muxedId body.destination else none := by
  rw [transfers_filter_opIndex]
  generalize events.filter (·.origin = .operation index) = own at hreports
  induction hreports with
  | nil => rfl
  | @cons event m own movements hreport _ ih =>
      obtain ⟨transfer, htransfer, -, hrecipient⟩ :=
        @recipientMuxedId_of_reports _ _ txSourceAccount txSourceMuxedId _ _ _ _ _ _ _ _ hreport
          (hrendered m List.mem_cons_self) hop
      rw [List.filterMap_cons_some htransfer, List.map_cons, List.map_cons, hrecipient,
        ih fun other hother => hrendered other (List.mem_cons_of_mem _ hother)]
      rfl

omit [Crates] in
/-- Only the last of a list's elements has a property. -/
theorem map_ite_eq_last {α β : Type} {p : α → Prop} [DecidablePred p] {before : List α} {last : α}
    {value : β} :
    ((before ++ [last]).map fun a => if p a then some value else none) =
        List.replicate before.length none ++ [some value] ↔
      (∀ a ∈ before, ¬ p a) ∧ p last := by
  induction before with
  | nil => by_cases hlast : p last <;> simp [hlast]
  | cons a before ih =>
      rw [List.cons_append, List.map_cons, List.length_cons, List.replicate_succ, List.cons_append,
        List.cons.injEq, ih, List.forall_mem_cons, and_assoc]
      by_cases ha : p a <;> simp [ha]

end

/-- A call's transfer takes its recipient's id from the topic or from the event. -/
theorem recipientMuxedId_of_call {event : ExtractedEvent} {transfer : ExtractedAssetTransfer}
    (htransfer : acceptedTransfer operations txSourceAccount txSourceMuxedId netId event =
      some transfer) {index : UInt16} (horigin : event.origin = .operation index)
    {op : ExtractedOperation} (hop : operationAt operations index = some op)
    (hcall : op.opType = .invokeHostFunction) :
    ∃ token, parseTokenEvent event.body.topics = some token ∧
      transfer.recipientMuxedId = token.recipient.bind fun strkey =>
        (splitMuxed strkey).2.or (eventToMuxedId event.body.data) := by
  obtain ⟨token, haccepts, -⟩ := accepts_of_acceptedTransfer htransfer
  obtain ⟨transfer', htransfer', -, hrecipient⟩ :=
    @acceptedTransfer_recipient _ operations txSourceAccount txSourceMuxedId _ _ _ _ haccepts _
      horigin
  obtain rfl : transfer = transfer' := Option.some.inj (htransfer.symm.trans htransfer')
  refine ⟨token, haccepts.token_eq, hrecipient.trans ?_⟩
  rw [hop]
  cases token.recipient with
  | none => rfl
  | some strkey => simp [transferEnd, recipientId, hcall]

/-- A payment's id goes to its delivery and no other of its transfers exactly when the
delivery reaches the destination and no trade on the way reaches it in the asset delivered;
the transfers of a call take theirs from the topic or the event. -/
theorem recipientMuxedIds_iff (events : List ExtractedEvent) (operations : List ExtractedOperation)
    (txSourceAccount : String) (txSourceMuxedId : Option UInt64) (netId : Hash) :
    (∀ (transactionHash : String) (index : UInt16) (source : Option MuxedAccount)
      (body : PaymentBody) (claims : PoolClaims) (crossings : List Crossing) (id : UInt64),
      operations[index.toNat]? =
        some (extractPayment transactionHash index.toUInt32 source body claims) →
      muxedId body.destination = some id →
      let opSource := (source.map muxedToGStrkey).getD txSourceAccount
      (∀ m ∈ body.movements opSource crossings, m.Rendered) →
      List.Forall₂ (Reports netId index) (events.filter (·.origin = .operation index))
        (body.movements opSource crossings) →
      (((extractAssetTransfers events operations txSourceAccount txSourceMuxedId
          netId).transfers.filter (·.opIndex = index.toUInt32)).map (·.recipientMuxedId) =
          List.replicate (crossings.flatMap (Crossing.movements opSource)).length none ++ [some id] ↔
        (∀ crossing ∈ crossings, ∀ m ∈ crossing.movements opSource, ¬ body.Credits m) ∧
          (issuerStrkey body.delivered = some (muxedToGStrkey body.destination) →
            opSource = muxedToGStrkey body.destination))) ∧
    ∀ event ∈ events, ∀ transfer,
      acceptedTransfer operations txSourceAccount txSourceMuxedId netId event = some transfer →
      ∀ index, event.origin = .operation index →
      ∀ op, operationAt operations index = some op → op.opType = .invokeHostFunction →
      ∃ token, parseTokenEvent event.body.topics = some token ∧
        transfer.recipientMuxedId = token.recipient.bind fun strkey =>
          (splitMuxed strkey).2.or (eventToMuxedId event.body.data) := by
  constructor
  · intro transactionHash index source body claims crossings id hop hid opSource hrendered hreports
    -- the issuer is credited by nobody but itself
    have hdelivery : body.Credits (body.delivery opSource) ↔
        (issuerStrkey body.delivered = some (muxedToGStrkey body.destination) →
          opSource = muxedToGStrkey body.destination) :=
      ⟨fun h => h.1.2, fun h => ⟨⟨rfl, h⟩, rfl⟩⟩
    rw [recipientMuxedIds_of_reports hop hrendered hreports, hid, PaymentBody.movements,
      map_ite_eq_last, hdelivery, List.forall_mem_flatMap]
  · intro event _ transfer htransfer index horigin op hop hcall
    exact recipientMuxedId_of_call htransfer horigin hop hcall

end

/-! ## A path that comes back to its own asset -/

def pathSource : AccountId := Hash.ofBytes (List.replicate 32 0x11)

def pathDestination : AccountId := Hash.ofBytes (List.replicate 32 0x22)

def pathSourceStrkey : String := "GAIRCEIRCEIRCEIRCEIRCEIRCEIRCEIRCEIRCEIRCEIRCEIRCEIRCF6M"

def pathDestinationStrkey : String := "GARCEIRCEIRCEIRCEIRCEIRCEIRCEIRCEIRCEIRCEIRCEIRCEIRCFRVX"

def pathPool : String := "LAZTGMZTGMZTGMZTGMZTGMZTGMZTGMZTGMZTGMZTGMZTGMZTGMZTG7DK"

/-- The contract of the native asset on the public network. -/
def nativeContract : ContractId :=
  0x25b4fcd859aec2fa6348438c489b3c3c10c98b6d21be4fd3cb30cb68953ef977

def nativeContractStrkey : String := "CAS3J7GYLGXMF6TDJBBYYSE3HQ6BBSMLNUQ34T6TZMYMW2EVH34XOWMA"

def usdcContractStrkey : String := "CA4QICK4VJWTAEFPBLUIHFO7PYIPHX7RCP53YR2OJXJHC7SQ74F62IF6"

/-- The pinned functions, with two accounts and the native contract more. -/
@[reducible] def Crates.traded : Crates :=
  { Crates.pinned with
    accountStrkey := fun id =>
      if id = pathSource then pathSourceStrkey
      else if id = pathDestination then pathDestinationStrkey
      else if id = Crates.pinnedAccount then Crates.pinnedAccountStrkey else ""
    scAddressStrkey := fun address =>
      if address = .contract nativeContract then nativeContractStrkey
      else Crates.pinned.scAddressStrkey address
    contractIdHash := fun networkId preimage =>
      if networkId = Crates.pinnedNetwork ∧ preimage = .asset .native then nativeContract
      else Crates.pinned.contractIdHash networkId preimage }

def usdc : Asset :=
  .creditAlphanum4 ⟨[0x55, 0x53, 0x44, 0x43], Crates.length_pinnedCode⟩ Crates.pinnedAccount

/-- Native sent to a sub-account of the destination by way of `USDC`. -/
def roundPath : PaymentBody :=
  .pathPaymentStrictSend .native 10000000 (.muxedEd25519 7 pathDestination) .native 9000000 [usdc]

/-- The event of a movement, emitted by a contract. -/
def pathEvent (emitter : String) (eventIndex : UInt32) (m : Movement) : ExtractedEvent where
  transactionHash := ""
  eventId := ⟨60000000, 1, 0, eventIndex⟩
  origin := .operation 0
  body := ⟨.contract, some emitter, @Movement.topics Crates.traded m,
    typedJson "i128" (.str "9000000")⟩
  createdAt := 0

/-- The trades of the path with the pool, or with an offer of the recipient first. -/
def poolTrades : List Crossing := [⟨pathPool, usdc, .native⟩, ⟨pathPool, .native, usdc⟩]

def recipientTrades : List Crossing :=
  [⟨pathDestinationStrkey, usdc, .native⟩, ⟨pathPool, .native, usdc⟩]

def pathEvents (trades : List Crossing) : List ExtractedEvent :=
  ((@PaymentBody.movements Crates.traded pathSourceStrkey roundPath trades).zipIdx).map
    fun (m, i) => pathEvent (if m.asset = .native then nativeContractStrkey else usdcContractStrkey)
      (.ofNat i) m

def roundOperation : ExtractedOperation :=
  @extractPayment Crates.traded "" 0 none roundPath ⟨[], []⟩

/-- The movements of the two paths have plain ends and labelled assets. -/
theorem rendered_path {trades : List Crossing} (h : trades = poolTrades ∨ trades = recipientTrades) :
    ∀ m ∈ @PaymentBody.movements Crates.traded pathSourceStrkey roundPath trades,
      @Movement.Rendered Crates.traded m := by
  let _ : Crates := Crates.traded
  have hends : ∀ m ∈ @PaymentBody.movements Crates.traded pathSourceStrkey roundPath trades,
      m.sender ≠ "" ∧ m.recipient ≠ "" ∧
        (m.recipient.toList.head? ≠ some 'M' ∧ m.recipient.toList.head? ≠ some 'W') ∧
        @labelledAsset Crates.traded m.asset ≠ .bespoke := by
    rcases h with rfl | rfl <;> decide
  intro m hm
  obtain ⟨hsender, hrecipient, hplain, hlabelled⟩ := hends m hm
  exact ⟨hsender, hrecipient, hplain, hlabelled⟩

/-- Every movement of the two paths is reported. -/
theorem reports_path {trades : List Crossing} (h : trades = poolTrades ∨ trades = recipientTrades) :
    List.Forall₂ (@Reports Crates.traded Crates.pinnedNetwork 0)
      ((pathEvents trades).filter (·.origin = .operation 0))
      (@PaymentBody.movements Crates.traded pathSourceStrkey roundPath trades) := by
  let _ : Crates := Crates.traded
  have hamount : tokenEventAmount (typedJson "i128" (.str "9000000")) ≠ .unrecognised := by decide
  have hreport : ∀ emitter i m,
      (@sacOverrideFromEventTopics Crates.traded emitter (@Movement.topics Crates.traded m)
        Crates.pinnedNetwork).isSome →
      @Reports Crates.traded Crates.pinnedNetwork 0 (pathEvent emitter i m) m :=
    fun emitter i m hgate => @Reports.mk Crates.traded _ _ _ _ rfl rfl ⟨emitter, rfl, hgate⟩ hamount
  rcases h with rfl | rfl
  · refine .cons (hreport _ _ _ ?_) (.cons (hreport _ _ _ ?_) (.cons (hreport _ _ _ ?_)
      (.cons (hreport _ _ _ ?_) (.cons (hreport _ _ _ ?_) .nil)))) <;> decide
  · refine .cons (hreport _ _ _ ?_) (.cons (hreport _ _ _ ?_) (.cons (hreport _ _ _ ?_)
      (.cons (hreport _ _ _ ?_) (.cons (hreport _ _ _ ?_) .nil)))) <;> decide

theorem recipientMuxedIds_iff_pool :
    ((@extractAssetTransfers Crates.traded (pathEvents poolTrades) [roundOperation] pathSourceStrkey
        none Crates.pinnedNetwork).transfers.filter (·.opIndex = 0)).map (·.recipientMuxedId) =
      [none, none, none, none, some 7] := by
  let _ : Crates := Crates.traded
  exact ((recipientMuxedIds_iff (pathEvents poolTrades) [roundOperation] pathSourceStrkey none
    Crates.pinnedNetwork).1 "" 0 none roundPath ⟨[], []⟩ poolTrades 7 rfl rfl
    (rendered_path (.inl rfl)) (reports_path (.inl rfl))).mpr (by decide)

/-- The offer crossed pays the recipient native too, and its transfer gets the id. -/
theorem not_recipientMuxedIds_recipient :
    List.Forall₂ (@Reports Crates.traded Crates.pinnedNetwork 0)
      ((pathEvents recipientTrades).filter (·.origin = .operation 0))
      (@PaymentBody.movements Crates.traded pathSourceStrkey roundPath recipientTrades) ∧
    ((@extractAssetTransfers Crates.traded (pathEvents recipientTrades) [roundOperation]
        pathSourceStrkey none Crates.pinnedNetwork).transfers.filter (·.opIndex = 0)).map
        (·.recipientMuxedId) =
      [some 7, none, none, none, some 7] ∧
    [some 7, none, none, none, some 7] ≠ List.replicate 4 none ++ [some (7 : UInt64)] := by
  let _ : Crates := Crates.traded
  refine ⟨reports_path (.inr rfl), ?_, by decide⟩
  have hop : [roundOperation][(0 : UInt16).toNat]? =
      some (extractPayment "" (0 : UInt16).toUInt32 none roundPath ⟨[], []⟩) := rfl
  exact (recipientMuxedIds_of_reports hop (rendered_path (.inr rfl))
    (reports_path (.inr rfl))).trans (by decide)

end SorobanExplorer
