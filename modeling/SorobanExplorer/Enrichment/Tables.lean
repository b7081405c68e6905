import Mathlib.Data.Prod.Lex
import Mathlib.Data.String.Basic
import SorobanExplorer.Enrichment.Services
import SorobanExplorer.Lib.Broker
import SorobanExplorer.Lib.Fleet
import SorobanExplorer.Lib.Versioned

/-!
# The enrichment tables and their queue

What the services share: the two enrichment tables, the tables their keys come from, and the
queue.  An insert whose answer is lost may still land, and any part of a batch the queue was
sent may be in it.  The queue delivers a message any number of times, and at some point gives
it up.

## Strategy

`Sound` is what every move keeps: the rows are safe to show, and no message was lost.  Only
the answer to `respond` takes a message away, so that is where a worker has to show that the
message has its row.
-/

namespace SorobanExplorer.Enrichment

open Interaction Relation Delivery

structure World where
  /-- The rows of `asset_enrichment` and of `nft_enrichment`. -/
  rows : List EnrichmentRow
  /-- All rows that were sent, stored or not. -/
  sent : List EnrichmentRow
  /-- The keys of `assets` and of `nfts`. -/
  base : List EnrichmentMessage
  broker : Broker String Body
  /-- What a batch was sent and the queue did not take; the publisher logs it. -/
  refused : List EnrichmentMessage

namespace World

def empty : World := ⟨[], [], [], Broker.empty, []⟩

/-- A row marks its key as tried. -/
def HasRow (s : World) (message : EnrichmentMessage) : Prop :=
  ∃ row ∈ s.rows, row.message = message

def send (s : World) (rows : List EnrichmentRow) : World := { s with sent := rows ++ s.sent }

def land (s : World) (rows : List EnrichmentRow) : World := { s with rows := rows ++ s.rows }

/-- An insert: the rows are on their way, and stored if it is acknowledged. -/
def insert (s : World) (rows : List EnrichmentRow) : Except String Unit → World
  | .ok () => (s.send rows).land rows
  | .error _ => s.send rows

/-- A `FINAL` read of the enrichment tables. -/
def IsFinal (s : World) (rows : List EnrichmentRow) : Prop :=
  Versioned.IsFinal EnrichmentRow.message EnrichmentRow.version s.rows rows

end World

/-! ## What a drain reads -/

/-- The sort key of a table; texts are ordered by their bytes. -/
def sortKey : EnrichmentMessage → ℤ ×ₗ String ×ₗ ℤ ×ₗ ℤ
  | ⟨.sep1Assets, key⟩ => toLex (key.assetType.toInt, toLex (key.assetCode,
      toLex (key.issuerId.toInt, key.contractId.toInt)))
  | ⟨.nftTokenUri, key⟩ => toLex (key.contractId.toInt, toLex (key.tokenId, toLex (0, 0)))

/-- The keys a drain is about: of the assets only the classic credits. -/
def InScope : EnrichmentMessage → Prop
  | ⟨.sep1Assets, key⟩ => key.assetType = 1
  | ⟨.nftTokenUri, _⟩ => True

/-- A row the fetch found nothing for. -/
def EnrichmentRow.IsSentinel : EnrichmentRow → Prop
  | ⟨.sep1Assets, _, values, _⟩ => values.iconUrl = some "" ∧ values.name = some ""
  | ⟨.nftTokenUri, _, values, _⟩ => values.name = some "" ∧ values.mediaUrl = some ""

/-- `sep1_base` and `nft_base`, where `final` is the read of the side table. -/
def Candidate (s : World) (final : List EnrichmentRow) (mode : DrainMode)
    (message : EnrichmentMessage) : Prop :=
  match mode with
  | .untried => message ∈ s.base ∧ InScope message ∧ ¬ s.HasRow message
  | .all => message ∈ s.base ∧ InScope message
  | .sentinels => (∃ row ∈ final, row.message = message ∧ row.IsSentinel) ∧
      (message.kind = .nftTokenUri → message ∈ s.base)

/-- A key beyond the last chunk. -/
def Past {kind : Kind} (cursor : Option kind.Key) (key : kind.Key) : Prop :=
  ∀ last, cursor = some last → sortKey ⟨kind, last⟩ < sortKey ⟨kind, key⟩

/-- The first keys past the cursor, in order. -/
structure IsChunk (kind : Kind) (candidate : EnrichmentMessage → Prop) (cursor : Option kind.Key)
    (chunk : ℤ) (keys : List kind.Key) : Prop where
  mem : ∀ key ∈ keys, candidate ⟨kind, key⟩ ∧ Past cursor key
  sorted : keys.Pairwise fun a b => sortKey ⟨kind, a⟩ < sortKey ⟨kind, b⟩
  length_le : (keys.length : ℤ) ≤ chunk
  /-- What is left out comes after a full chunk. -/
  first : ∀ key, candidate ⟨kind, key⟩ → Past cursor key → key ∉ keys →
    (keys.length : ℤ) = chunk ∧ ∀ other ∈ keys, sortKey ⟨kind, other⟩ < sortKey ⟨kind, key⟩

/-! ## Answers -/

/-- The row of a token of the collection that has no collection name, with the name. -/
def restamp (contractId : Int64) (collectionName : String) (version : ℤ) :
    EnrichmentRow → Option EnrichmentRow
  | ⟨.nftTokenUri, key, values, _⟩ =>
      if key.contractId = contractId ∧ values.collectionName.getD "" = "" then
        some (nftRow key { values with collectionName := some collectionName } version)
      else none
  | ⟨.sep1Assets, _, _, _⟩ => none

/-- The queue takes some entries of a batch, each under an id of its own. -/
inductive Sends : World → List EnrichmentMessage → World → Prop
  | nil {s : World} : Sends s [] s
  | taken {s s' : World} {id : String} {entry : EnrichmentMessage} {rest : List EnrichmentMessage}
      (hfresh : id ∉ s.broker.accepted.map (·.id))
      (hrest : Sends { s with broker := s.broker.accept ⟨id, some (.ok entry)⟩ } rest s') :
      Sends s (entry :: rest) s'
  | refused {s s' : World} {entry : EnrichmentMessage} {rest : List EnrichmentMessage}
      (hrest : Sends { s with refused := entry :: s.refused } rest s') : Sends s (entry :: rest) s'

/-- A record of an event is a delivery of a queued message. -/
def IsDelivery (messages : List (Message String Body)) (record : SqsMessage) : Prop :=
  ∃ m ∈ messages, record.body = m.body ∧ ∀ id, record.messageId = some id → id = m.id

def World.Answers (s : World) :
    (op : StoreOp) → enrichmentStore.Ans op → World → Prop
  | .issuer _, _, s' => s' = s
  | .contractStrkey _, _, s' => s' = s
  | .insert row, answer, s' => s' = s.insert [row] answer
  | .unenriched kind keys, answer, s' => s' = s ∧ ∀ missing, answer = .ok missing →
      ∀ key, key ∈ missing ↔ key ∈ keys ∧ ¬ s.HasRow ⟨kind, key⟩
  | .candidateTotal _ _, _, s' => s' = s
  | .collectionTotal, _, s' => s' = s
  | .selectChunk kind cursor chunk mode, answer, s' => s' = s ∧ ∀ keys, answer = .ok keys →
      ∃ final, s.IsFinal final ∧ IsChunk kind (Candidate s final mode) cursor chunk keys
  | .collectionCandidates limit, answer, s' => s' = s ∧ ∀ ids, answer = .ok ids →
      (ids.length : ℤ) ≤ limit ∧ ids.Nodup
  | .rewriteCollectionName contractId collectionName version, answer, s' =>
      ∃ final, s.IsFinal final ∧
        s' = s.insert (final.filterMap (restamp contractId collectionName version)) answer
  | .sendMessageBatch entries, _, s' => Sends s entries s'
  | .receive, (event : List SqsMessage), s' =>
      s' = s ∧ ∀ record ∈ event, IsDelivery s.broker.queue record
  | .respond _ none, _, s' => s' = s
  | .respond event (some failures), _, s' => ∃ ids, (∀ id ∈ ids, id ∉ failures ∧
      ∃ record ∈ event, record.messageId = some id) ∧
        s' = { s with broker := s.broker.acknowledge ids }

/-- What happens by itself: a row that was sent lands, a key is indexed, and the queue gives
messages up, queues them again, and is sent some by others. -/
inductive World.Drift : World → World → Prop
  | land {s : World} {row : EnrichmentRow} (hsent : row ∈ s.sent) : Drift s (s.land [row])
  | index {s : World} (message : EnrichmentMessage) :
      Drift s { s with base := message :: s.base }
  | giveUp {s : World} {m : Message String Body} (hqueued : m ∈ s.broker.queue) :
      Drift s { s with broker := s.broker.giveUp m }
  | redrive {s : World} {m : Message String Body} (habandoned : m ∈ s.broker.abandoned) :
      Drift s { s with broker := s.broker.redrive m }
  | produce {s : World} {id : String} (body : Body)
      (hfresh : id ∉ s.broker.accepted.map (·.id)) :
      Drift s { s with broker := s.broker.accept ⟨id, body⟩ }

def tables : Environment enrichmentStore where
  State := World
  answers := World.Answers
  drift := World.Drift

/-! ## The tables only grow -/

/-- Everything recorded in `s` is recorded in `s'`. -/
structure World.Grows (s s' : World) : Prop where
  rows : s.rows ⊆ s'.rows
  base : s.base ⊆ s'.base
  accepted : s.broker.accepted ⊆ s'.broker.accepted
  refused : s.refused ⊆ s'.refused

namespace World

variable {s s' : World}

theorem Grows.refl (s : World) : s.Grows s :=
  ⟨fun _ h => h, fun _ h => h, fun _ h => h, fun _ h => h⟩

theorem Grows.trans {s s' s'' : World} (h : s.Grows s') (h' : s'.Grows s'') : s.Grows s'' :=
  ⟨fun _ hm => h'.rows (h.rows hm), fun _ hm => h'.base (h.base hm),
    fun _ hm => h'.accepted (h.accepted hm), fun _ hm => h'.refused (h.refused hm)⟩

theorem grows_insert (rows : List EnrichmentRow) (answer : Except String Unit) :
    s.Grows (s.insert rows answer) := by
  cases answer with
  | error error => exact { Grows.refl s with }
  | ok value => exact { Grows.refl s with rows := List.subset_append_right _ _ }

theorem grows_sends {entries : List EnrichmentMessage} (h : Sends s entries s') : s.Grows s' := by
  induction h with
  | nil => exact .refl _
  | @taken s s' id entry rest hfresh hrest ih =>
      have haccept : s.Grows { s with broker := s.broker.accept ⟨id, some (.ok entry)⟩ } :=
        { Grows.refl s with accepted := List.subset_cons_self _ _ }
      exact haccept.trans ih
  | @refused s s' entry rest hrest ih =>
      have hrefuse : s.Grows { s with refused := entry :: s.refused } :=
        { Grows.refl s with refused := List.subset_cons_self _ _ }
      exact hrefuse.trans ih

theorem Answers.grows {op : StoreOp} {answer : enrichmentStore.Ans op}
    (h : s.Answers op answer s') : s.Grows s' := by
  cases op with
  | issuer issuerId => cases h; exact .refl s
  | contractStrkey contractId => cases h; exact .refl s
  | insert row => cases h; exact grows_insert _ _
  | unenriched kind keys => cases h.1; exact .refl s
  | candidateTotal kind mode => cases h; exact .refl s
  | collectionTotal => cases h; exact .refl s
  | selectChunk kind cursor chunk mode => cases h.1; exact .refl s
  | collectionCandidates limit => cases h.1; exact .refl s
  | rewriteCollectionName contractId collectionName version =>
      obtain ⟨final, -, rfl⟩ := h
      exact grows_insert _ _
  | sendMessageBatch entries => exact grows_sends h
  | receive => cases h.1; exact .refl s
  | respond event failures =>
      cases failures with
      | none => cases h; exact .refl s
      | some failures =>
          obtain ⟨ids, -, rfl⟩ := h
          exact { Grows.refl s with }

theorem Drift.grows (h : s.Drift s') : s.Grows s' := by
  cases h with
  | land hsent => exact { Grows.refl s with rows := List.subset_append_right _ _ }
  | index message => exact { Grows.refl s with base := List.subset_cons_self _ _ }
  | giveUp hqueued => exact { Grows.refl s with }
  | redrive habandoned => exact { Grows.refl s with }
  | produce body hfresh => exact { Grows.refl s with accepted := List.subset_cons_self _ _ }

end World

theorem moves_tables : Moves tables World.Grows :=
  ⟨fun _ _ _ _ h => World.Answers.grows h, fun _ _ h => World.Drift.grows h⟩

/-! ## Facts that stay -/

open World in
theorem lasting_hasRow (message : EnrichmentMessage) :
    Lasting Grows fun s => s.HasRow message := by
  intro s s' h hgrows
  obtain ⟨row, hrow, hmessage⟩ := h
  exact ⟨row, hgrows.rows hrow, hmessage⟩

/-- A message was dealt with once its key has a row.  One that is no message is dropped. -/
def Handled (s : World) : Body → Prop
  | some (.ok message) => s.HasRow message
  | _ => True

theorem lasting_handled (body : Body) : Lasting World.Grows fun s => Handled s body := by
  intro s s' h hgrows
  cases body with
  | none => trivial
  | some body =>
      cases body with
      | error error => trivial
      | ok message => exact lasting_hasRow message s s' h hgrows

/-- The queue took the message, or a batch reported that it did not. -/
def Offered (s : World) (message : EnrichmentMessage) : Prop :=
  (∃ m ∈ s.broker.accepted, m.body = some (.ok message)) ∨ message ∈ s.refused

theorem lasting_offered (message : EnrichmentMessage) :
    Lasting World.Grows fun s => Offered s message := by
  intro s s' h hgrows
  rcases h with ⟨m, hm, hbody⟩ | hrefused
  · exact .inl ⟨m, hgrows.accepted hm, hbody⟩
  · exact .inr (hgrows.refused hrefused)

theorem lasting_isDelivery (record : SqsMessage) :
    Lasting World.Grows fun s => IsDelivery s.broker.accepted record := by
  intro s s' h hgrows
  obtain ⟨m, hm, hrecord⟩ := h
  exact ⟨m, hgrows.accepted hm, hrecord⟩

/-! ## The invariant -/

/-- What a page may show of a row: an icon or a media address it can load, names of bounded
length, and no name where no file gives one. -/
def SafeRow [DataUrls] : EnrichmentRow → Prop
  | ⟨.sep1Assets, key, values, _⟩ =>
      (∃ icon, values.iconUrl = some icon ∧ SafeIcon icon) ∧
      (∀ name, values.name = some name → name.utf8ByteSize ≤ MAX_NAME_BYTES) ∧
      values.name.isSome = (sentinelName key.assetType).isSome
  | ⟨.nftTokenUri, _, values, _⟩ =>
      (∃ name, values.name = some name ∧ name.length ≤ MAX_NAME_CHARS) ∧
      (∃ media, values.mediaUrl = some media ∧ SafeMedia media) ∧
      ∃ collection, values.collectionName = some collection ∧
        collection.length ≤ MAX_COLLECTION_NAME_CHARS

structure Sound [DataUrls] (s : World) : Prop where
  broker : s.broker.Keeps (Handled s)
  rows_sent : ∀ row ∈ s.rows, row ∈ s.sent
  safe : ∀ row ∈ s.sent, SafeRow row

variable [DataUrls] {s s' : World}

theorem sound_empty : Sound World.empty where
  broker := Broker.keeps_empty
  rows_sent := fun row h => by cases h
  safe := fun row h => by cases h

theorem Sound.insert (hs : Sound s) {rows : List EnrichmentRow} (hsafe : ∀ row ∈ rows, SafeRow row)
    (answer : Except String Unit) : Sound (s.insert rows answer) := by
  have hhandled : ∀ body, Handled s body → Handled (s.insert rows answer) body :=
    fun body h => lasting_handled body s _ h (World.grows_insert rows answer)
  have hsent : ∀ row ∈ rows ++ s.sent, SafeRow row := by
    intro row hrow
    rcases List.mem_append.mp hrow with hnew | hold
    · exact hsafe row hnew
    · exact hs.safe row hold
  cases answer with
  | error error =>
      exact ⟨hs.broker.mono hhandled,
        fun row hrow => List.mem_append_right _ (hs.rows_sent row hrow), hsent⟩
  | ok value =>
      refine ⟨hs.broker.mono hhandled, fun row hrow => ?_, hsent⟩
      rcases List.mem_append.mp hrow with hnew | hold
      · exact List.mem_append_left _ hnew
      · exact List.mem_append_right _ (hs.rows_sent row hold)

/-- A copy of a row under the name of its collection is as safe as the row. -/
theorem SafeRow.restamp {contractId : Int64} {collectionName : String} {version : ℤ}
    (hname : collectionName.length ≤ MAX_COLLECTION_NAME_CHARS) {row copy : EnrichmentRow}
    (hrow : SafeRow row) (hcopy : restamp contractId collectionName version row = some copy) :
    SafeRow copy := by
  obtain ⟨kind, key, values, rowVersion⟩ := row
  cases kind with
  | sep1Assets => cases hcopy
  | nftTokenUri =>
      unfold Enrichment.restamp at hcopy
      dsimp only at hcopy
      split_ifs at hcopy
      cases hcopy
      exact ⟨hrow.1, hrow.2.1, collectionName, rfl, hname⟩

theorem Sound.sends (hs : Sound s) {entries : List EnrichmentMessage} (h : Sends s entries s') :
    Sound s' ∧ ∀ entry ∈ entries, Offered s' entry := by
  induction h with
  | nil => exact ⟨hs, fun entry h => by cases h⟩
  | @taken s s' id entry rest hfresh hrest ih =>
      obtain ⟨hs', hofferedRest⟩ := ih ⟨hs.broker.accept hfresh, hs.rows_sent, hs.safe⟩
      refine ⟨hs', fun other hother => ?_⟩
      rcases List.mem_cons.mp hother with rfl | hmem
      · exact .inl ⟨_, (World.grows_sends hrest).accepted List.mem_cons_self, rfl⟩
      · exact hofferedRest other hmem
  | @refused s s' entry rest hrest ih =>
      obtain ⟨hs', hofferedRest⟩ := ih ⟨hs.broker, hs.rows_sent, hs.safe⟩
      refine ⟨hs', fun other hother => ?_⟩
      rcases List.mem_cons.mp hother with rfl | hmem
      · exact .inr ((World.grows_sends hrest).refused List.mem_cons_self)
      · exact hofferedRest other hmem

/-- Messages are taken from the queue by their ids, and each has been dealt with. -/
theorem Sound.acknowledge (hs : Sound s) {event : List SqsMessage} {failures ids : List String}
    (hevent : ∀ record ∈ event, IsDelivery s.broker.accepted record)
    (hhandled : ∀ record ∈ event, ∀ id, record.messageId = some id → id ∉ failures →
      Handled s record.body)
    (hids : ∀ id ∈ ids, id ∉ failures ∧ ∃ record ∈ event, record.messageId = some id) :
    Sound { s with broker := s.broker.acknowledge ids } := by
  refine ⟨hs.broker.acknowledge fun m hm hid => ?_, hs.rows_sent, hs.safe⟩
  obtain ⟨hreported, record, hrecord, hrecordId⟩ := hids m.id hid
  obtain ⟨other, hother, hbody, hotherId⟩ := hevent record hrecord
  have hsame : m = other := hs.broker.eq_of_id hm hother (hotherId m.id hrecordId)
  rw [hsame, ← hbody]
  exact hhandled record hrecord m.id hrecordId hreported

theorem stable_sound : Stable tables Sound := by
  intro s s' hs hdrift
  cases hdrift with
  | @land row hsent =>
      have hhandled : ∀ body, Handled s body → Handled (s.land [row]) body :=
        fun body h => lasting_handled body s _ h (World.Drift.land hsent).grows
      refine ⟨hs.broker.mono hhandled, fun other hother => ?_, hs.safe⟩
      rcases List.mem_cons.mp hother with rfl | hold
      · exact hsent
      · exact hs.rows_sent other hold
  | index message => exact ⟨hs.broker, hs.rows_sent, hs.safe⟩
  | giveUp hqueued => exact ⟨hs.broker.giveUp hqueued, hs.rows_sent, hs.safe⟩
  | redrive habandoned => exact ⟨hs.broker.redrive habandoned, hs.rows_sent, hs.safe⟩
  | produce body hfresh => exact ⟨hs.broker.accept hfresh, hs.rows_sent, hs.safe⟩

end SorobanExplorer.Enrichment
