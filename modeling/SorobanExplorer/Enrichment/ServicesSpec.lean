import SorobanExplorer.Enrichment.Tables

/-!
# What an enrichment service leaves behind

Each program is followed among the others by what it leaves behind: a row for its key, or an
outcome that is reported (`enrich_spec`).  `establishes_frame` carries what was known before
a request past it.  The worker turns the rows into handled messages (`invocation_spec`), the
publisher its candidates into offered ones (`publish_spec`), and the drain moves a cursor
behind which every key was tried (`drainLoop_spec`).
-/

namespace SorobanExplorer.Enrichment

open Interaction Delivery World

/-! ## The services -/

inductive Role
  | publisher
  | worker
  | drain
  | collections
  deriving DecidableEq

def Role.Result : Role → Type
  | .publisher | .worker => Unit
  | .drain => Except String (Option BackfillReport)
  | .collections => Except String BackfillReport

/-- What each service runs: a publisher any batch, a drain any arguments. -/
def Role.programs [DataUrls] : (role : Role) → Prog services role.Result → Prop
  | .publisher => fun p => ∃ kind candidates, p = publish kind candidates
  | .worker => fun p => p = invocation
  | .drain => fun p => ∃ kind args fuel, p = (runDrain kind args fuel).run
  | .collections => fun p => ∃ limit, p = (runNftCollectionName limit).run

/-- A service: its clock and the network may answer anything. -/
def enricher [DataUrls] (role : Role) : Service tables where
  own := fetcher
  State := Unit
  answers := fun _ _ _ _ => True
  Result := role.Result
  programs := role.programs

variable [DataUrls] {role : Role} {s : World × Unit} {α : Type}

/-- A program, run by a service among the others, leaves `Q` behind. -/
abbrev Role.Establishes (role : Role) (p : Prog services α) (Q : α → World → Prop)
    (s : World × Unit) : Prop :=
  (enricher role).Establishes Sound Grows p Q s

/-- A program that may fail leaves `Q` behind when it does not. -/
abbrev Role.EstablishesTry (role : Role) {ε : Type} (p : ExceptT ε (Prog services) α)
    (Q : α → World → Prop) (s : World × Unit) : Prop :=
  UpholdsTry ((enricher role).worldAmong Sound Grows) ((enricher role).Shared Sound) p
    (fun value s => Q value s.1) (fun _ => True) s

theorem settled_trivial (hs : Sound s.1) :
    Settled ((enricher role).worldAmong Sound Grows) ((enricher role).Shared Sound)
      (fun _ => True) s :=
  settled_of_lasting (P := fun _ => True) moves_tables stable_sound (lasting_const _ True) hs
    trivial

/-! ## Requests -/

theorem askStore_spec {op : StoreOp} {Q : enrichmentStore.Ans op → World → Prop}
    (hQ : ∀ answer, Lasting Grows (Q answer)) (hs : Sound s.1)
    (hanswer : ∀ s answer s', Sound s → s.Answers op answer s' → Sound s' ∧ Q answer s') :
    role.Establishes (askStore op) Q s :=
  establishes_shared (P := fun _ => True) moves_tables stable_sound op (lasting_const _ True) hQ hs
    trivial fun s answer s' hs _ h => hanswer s answer s' hs h

theorem askStore_reads {op : StoreOp}
    (hreads : ∀ s answer s', World.Answers s op answer s' → s' = s)
    (hs : Sound s.1) : role.Establishes (askStore op) (fun _ _ => True) s := by
  refine askStore_spec (fun _ => lasting_const _ True) hs fun s answer s' hs h => ?_
  rw [hreads s answer s' h]
  exact ⟨hs, trivial⟩

theorem askFetcher_spec (op : FetchOp) (hs : Sound s.1) :
    role.Establishes (askFetcher op) (fun _ _ => True) s :=
  @establishes_own _ _ (enricher role) Sound (fun _ => True) Grows s moves_tables stable_sound op
    (lasting_const _ True) hs trivial

theorem lift_askFetcher_bind {ε β : Type} {op : FetchOp}
    {next : fetcher.Ans op → ExceptT ε (Prog services) β} {Q : β → World → Prop} (hs : Sound s.1)
    (hnext : ∀ answer s, Sound s.1 → role.EstablishesTry (next answer) Q s) :
    role.EstablishesTry (ExceptT.lift (askFetcher op) >>= next) Q s := by
  refine upholdsTry_bind (upholdsTry_lift (upholds_imp ?_ (askFetcher_spec op hs)))
  intro answer s' hs'
  exact hnext answer s' hs'.inv.1

theorem query_spec {p : Prog services (Except String α)} {Q : α → World → Prop}
    (h : role.Establishes p (fun answer s => ∀ value, answer = .ok value → Q value s) s) :
    role.EstablishesTry (query p) Q s := by
  refine upholds_bind (upholds_imp ?_ h)
  intro answer s' hs'
  cases answer with
  | error error => exact settled_trivial hs'.inv.1
  | ok value => exact hs'.imp fun _ h => h.now value rfl

/-- A request that changes nothing, and what is done with its answer. -/
theorem query_bind {β γ : Type} {p : Prog services (Except String γ)} {next : γ → Enrich β}
    {Q : β → World → Prop} (h : role.Establishes p (fun _ _ => True) s)
    (hnext : ∀ value s, Sound s.1 → role.EstablishesTry (next value) Q s) :
    role.EstablishesTry (query p >>= next) Q s := by
  have hquery : role.EstablishesTry (query p) (fun _ _ => True) s :=
    query_spec (establishes_imp h fun _ _ _ _ _ => trivial)
  refine upholdsTry_bind (upholdsTry_imp ?_ (fun _ h => h) hquery)
  intro value s' hs'
  exact hnext value s' hs'.inv.1

/-- An insert of a safe row leaves the row behind. -/
theorem insert_spec {row : EnrichmentRow} (hsafe : SafeRow row) (hs : Sound s.1) :
    role.EstablishesTry (query (askStore (.insert row))) (fun _ s => s.HasRow row.message) s := by
  refine query_spec (askStore_spec ?_ hs ?_)
  · intro answer s s' h hgrows value hanswer
    exact lasting_hasRow row.message s s' (h value hanswer) hgrows
  · rintro s answer s' hs rfl
    refine ⟨hs.insert (fun other hother => List.mem_singleton.mp hother ▸ hsafe) answer, ?_⟩
    intro value hanswer
    cases hanswer
    exact ⟨row, List.mem_cons_self, rfl⟩

/-! ## One key -/

theorem insertAsset_spec {key : AssetKey} {iconUrl : String} {name : Option String}
    (hicon : SafeIcon iconUrl)
    (hname : ∀ text, name = some text → text.utf8ByteSize ≤ MAX_NAME_BYTES)
    (hsome : name.isSome = (sentinelName key.assetType).isSome) (hs : Sound s.1) :
    role.EstablishesTry (insertAsset key iconUrl name)
      (fun _ s => s.HasRow ⟨.sep1Assets, key⟩) s := by
  refine lift_askFetcher_bind hs fun version s hs => ?_
  have hsafe : SafeRow (assetRow key ⟨some iconUrl, name⟩ version) :=
    ⟨⟨iconUrl, rfl, hicon⟩, hname, hsome⟩
  refine upholdsTry_bind (upholdsTry_imp ?_ (fun _ h => h) (insert_spec hsafe hs))
  intro _ s' hs'
  exact upholdsTry_pure hs'

/-- The sentinels are safe. -/
theorem permanentFail_spec {key : AssetKey} (hs : Sound s.1) :
    role.EstablishesTry (insertAssetColumns key (permanentFailOutcome key.assetType))
      (fun _ s => s.HasRow ⟨.sep1Assets, key⟩) s := by
  refine insertAsset_spec (.inl rfl) ?_ rfl hs
  intro text htext
  unfold permanentFailOutcome sentinelName at htext
  dsimp only at htext
  split_ifs at htext
  cases htext
  decide

/-- Whatever the file of the issuer says, the key gets a safe row or the task fails. -/
theorem enrichAssetFromSep1_spec (key : AssetKey) (hs : Sound s.1) :
    role.EstablishesTry (enrichAssetFromSep1 key) (fun _ s => s.HasRow ⟨.sep1Assets, key⟩) s := by
  refine query_bind (askStore_reads (fun _ _ _ h => h) hs) fun issuer s hs => ?_
  cases issuer with
  | none => exact permanentFail_spec hs
  | some issuer =>
      dsimp only
      cases nonBlank issuer.homeDomain with
      | none => exact permanentFail_spec hs
      | some homeDomain =>
          refine lift_askFetcher_bind hs fun fetched s hs => ?_
          cases fetched with
          | ok parsed =>
              exact insertAsset_spec (safeIcon_resolveIcon _)
                (fun _ h => resolveName_bounded h) (isSome_resolveName _ _) hs
          | error error =>
              dsimp only
              split_ifs with htransient
              · exact upholdsTry_throw (settled_trivial hs)
              · exact permanentFail_spec hs

theorem insertNft_spec {key : NftKey} {name mediaUrl collectionName : String}
    (hname : name.length ≤ MAX_NAME_CHARS) (hmedia : SafeMedia mediaUrl)
    (hcollection : collectionName.length ≤ MAX_COLLECTION_NAME_CHARS) (hs : Sound s.1) :
    role.EstablishesTry (insertNft key name mediaUrl collectionName)
      (fun _ s => s.HasRow ⟨.nftTokenUri, key⟩) s := by
  refine lift_askFetcher_bind hs fun version s hs => ?_
  have hsafe : SafeRow (nftRow key ⟨some name, some mediaUrl, some collectionName⟩ version) :=
    ⟨⟨name, rfl, hname⟩, ⟨mediaUrl, rfl, hmedia⟩, collectionName, rfl, hcollection⟩
  refine upholdsTry_bind (upholdsTry_imp ?_ (fun _ h => h) (insert_spec hsafe hs))
  intro _ s' hs'
  exact upholdsTry_pure hs'

/-- Columns that are safe to insert. -/
def SafeColumns (columns : String × String × String) : Prop :=
  columns.1.length ≤ MAX_NAME_CHARS ∧ SafeMedia columns.2.1 ∧
    columns.2.2.length ≤ MAX_COLLECTION_NAME_CHARS

theorem safeColumns_extractColumns (json : Json) : SafeColumns (extractColumns json) :=
  ⟨trimmedString_bounded rfl _ _, safeMedia_mediaOf _, trimmedString_bounded rfl _ _⟩

theorem safeColumns_empty : SafeColumns ("", "", "") :=
  ⟨Nat.zero_le _, .inl rfl, Nat.zero_le _⟩

theorem resolveColumns_spec (contractStrkey tokenId : String) (hs : Sound s.1) :
    role.EstablishesTry (resolveColumns contractStrkey tokenId)
      (fun columns _ => SafeColumns columns) s := by
  have hsettled : ∀ {columns : String × String × String} {s : World × Unit}, SafeColumns columns →
      Sound s.1 → Settled ((enricher role).worldAmong Sound Grows) ((enricher role).Shared Sound)
        (fun _ => SafeColumns columns) s :=
    fun hcolumns hs => (settled_trivial hs).imp fun _ _ => hcolumns
  refine lift_askFetcher_bind hs fun resolved s hs => ?_
  cases resolved with
  | ok json =>
      cases json with
      | none => exact upholdsTry_pure (hsettled safeColumns_empty hs)
      | some json => exact upholdsTry_pure (hsettled (safeColumns_extractColumns json) hs)
  | error error =>
      dsimp only
      split_ifs with htransient
      · exact upholdsTry_throw (settled_trivial hs)
      · exact upholdsTry_pure (hsettled safeColumns_empty hs)

theorem resolveCollectionName_spec (contractStrkey : String) (hs : Sound s.1) :
    role.EstablishesTry (resolveCollectionName contractStrkey)
      (fun name _ => (name.getD "").length ≤ MAX_COLLECTION_NAME_CHARS) s := by
  refine lift_askFetcher_bind hs fun simulated s hs => ?_
  have hnone : ((none : Option String).getD "").length ≤ MAX_COLLECTION_NAME_CHARS :=
    Nat.zero_le _
  cases simulated with
  | ok decoded =>
      refine upholdsTry_pure ((settled_trivial hs).imp fun _ _ => ?_)
      cases hname : decoded.bind usableCollectionName with
      | none => exact hnone
      | some name =>
          obtain ⟨raw, -, husable⟩ := Option.bind_eq_some_iff.mp hname
          exact usableCollectionName_bounded husable
  | error error =>
      dsimp only
      split_ifs with htransient
      · exact upholdsTry_throw (settled_trivial hs)
      · exact upholdsTry_pure ((settled_trivial hs).imp fun _ _ => hnone)

/-- Whatever the contract and its metadata say, the key gets a safe row or the task fails. -/
theorem enrichNftTokenUri_spec (key : NftKey) (hs : Sound s.1) :
    role.EstablishesTry (enrichNftTokenUri key) (fun _ s => s.HasRow ⟨.nftTokenUri, key⟩) s := by
  refine query_bind (askStore_reads (fun _ _ _ h => h) hs) fun strkey s hs => ?_
  cases strkey.bind id with
  | none => exact insertNft_spec (Nat.zero_le _) (.inl rfl) (Nat.zero_le _) hs
  | some contractStrkey =>
      dsimp only
      refine upholdsTry_bind (upholdsTry_imp ?_ (fun _ h => h) (resolveColumns_spec _ _ hs))
      intro columns s₁ hs₁
      obtain ⟨hname, hmedia, hcollection⟩ := hs₁.now
      dsimp only
      split_ifs with hgiven
      · exact insertNft_spec hname hmedia hcollection hs₁.inv.1
      · refine upholdsTry_bind (upholdsTry_imp ?_ (fun _ h => h)
          (resolveCollectionName_spec contractStrkey hs₁.inv.1))
        intro fetched s₂ hs₂
        exact insertNft_spec hname hmedia hs₂.now hs₂.inv.1

/-- **One unit of work.**  A task that does not fail leaves a row for its key. -/
theorem enrich_spec (message : EnrichmentMessage) (hs : Sound s.1) :
    role.EstablishesTry (enrich message) (fun _ s => s.HasRow message) s := by
  obtain ⟨kind, key⟩ := message
  cases kind with
  | sep1Assets => exact enrichAssetFromSep1_spec key hs
  | nftTokenUri => exact enrichNftTokenUri_spec key hs

/-! ## The worker -/

/-- A record that is not reported for another delivery was dealt with. -/
theorem handleRecord_spec (record : SqsMessage) (messageId : String) (hs : Sound s.1) :
    role.Establishes (handleRecord record).run (fun outcome s =>
      classifyOutcome messageId outcome = none → Handled s record.body) s := by
  unfold handleRecord
  cases hparsed : parseMessage record with
  | error error =>
      have hhandled : ∀ s, Handled s record.body := by
        intro s
        unfold parseMessage at hparsed
        cases hbody : record.body with
        | none => trivial
        | some body =>
            cases body with
            | error error => trivial
            | ok message =>
                rw [hbody] at hparsed
                cases hparsed
      exact (settled_trivial hs).imp fun s _ _ => hhandled s.1
  | ok message =>
      have hbody : record.body = some (.ok message) := by
        unfold parseMessage at hparsed
        cases hbody : record.body with
        | none => rw [hbody] at hparsed; cases hparsed
        | some body =>
            rw [hbody] at hparsed
            cases body with
            | error error => cases hparsed
            | ok other => cases hparsed; rfl
      -- the task fails with an error worth a retry, and such an error is reported
      refine upholds_bind (upholds_bind (upholds_imp ?_ (enrich_spec message hs)))
      intro result s' hs'
      cases result with
      | ok outcome =>
          refine hs'.imp fun s h => h.imp fun s h _ => ?_
          rw [hbody]
          exact h.now
      | error error => exact hs'.imp fun s h => h.imp fun s _ hnone => by cases hnone

omit [DataUrls] in
theorem requireMessageId_eq_ok {record : SqsMessage} {id : String} :
    requireMessageId record = .ok id ↔ record.messageId = some id := by
  unfold requireMessageId
  cases record.messageId <;> simp

/-- What a worker knows of an event while it handles it. -/
theorem handleRecords_spec : ∀ (records : List SqsMessage) (failures : List String)
    {s : World × Unit}, Sound s.1 →
    role.Establishes (handleRecords failures records) (fun reported s =>
      ∀ ids, reported = some ids → failures ⊆ ids ∧ ∀ record ∈ records, ∀ id,
        record.messageId = some id → id ∉ ids → Handled s record.body) s := by
  intro records
  induction records with
  | nil =>
      intro failures s hs
      refine (settled_trivial hs).imp fun s _ ids hids => ?_
      cases hids
      exact ⟨fun _ h => h, fun record hrecord => by cases hrecord⟩
  | cons record records ih =>
      intro failures s hs
      unfold handleRecords
      cases hid : requireMessageId record with
      | error error => exact (settled_trivial hs).imp fun s _ ids hids => by cases hids
      | ok messageId =>
          dsimp only
          refine establishes_bind (handleRecord_spec record messageId hs) ?_
          intro outcome s hs houtcome
          -- what the first record led to outlasts the rest of the event
          have hlasting : Lasting Grows fun s : World =>
              classifyOutcome messageId outcome = none → Handled s record.body :=
            fun s s' h hgrows hnone => lasting_handled record.body s s' (h hnone) hgrows
          refine establishes_imp (establishes_frame moves_tables hlasting
            (ih (failures ++ (classifyOutcome messageId outcome).toList) hs) houtcome) ?_
          rintro reported s ⟨hrest, hfirst⟩ ids hids
          obtain ⟨hsubset, hrecords⟩ := hrest ids hids
          refine ⟨fun id h => hsubset (List.mem_append_left _ h), fun other hother => ?_⟩
          rcases List.mem_cons.mp hother with rfl | hmem
          · intro id hid' hmissing
            have hsame : messageId = id :=
              Option.some.inj ((requireMessageId_eq_ok.mp hid).symm.trans hid')
            refine hfirst ?_
            cases hclassified : classifyOutcome messageId outcome with
            | none => rfl
            | some reportedId =>
                -- only a transient failure is reported, under the record's own id
                have hreported : reportedId = messageId := by
                  rcases outcome with (error | error) | value
                  · cases hclassified
                  · exact (Option.some.inj hclassified).symm
                  · cases hclassified
                have hmem : id ∈ ids := by
                  rw [← hsame, ← hreported]
                  exact hsubset (by simp [hclassified])
                exact absurd hmem hmissing
          · exact hrecords other hmem

/-- An event is made of messages the queue took. -/
abbrev Delivered (event : List SqsMessage) (s : World) : Prop :=
  ∀ record ∈ event, IsDelivery s.broker.accepted record

omit [DataUrls] in
theorem lasting_delivered (event : List SqsMessage) : Lasting Grows (Delivered event) :=
  fun s s' h hgrows record hrecord => lasting_isDelivery record s s' (h record hrecord) hgrows

theorem receive_spec (hs : Sound s.1) :
    role.Establishes (askStore .receive) (fun event s => Delivered event s) s := by
  refine askStore_spec lasting_delivered hs ?_
  rintro s event s' hs ⟨rfl, hdelivered⟩
  refine ⟨hs, fun record hrecord => ?_⟩
  obtain ⟨m, hm, hsame⟩ := hdelivered record hrecord
  exact ⟨m, hs.broker.queued hm, hsame⟩

/-- The records of an event that are not to be delivered again were dealt with. -/
abbrev Reported (event : List SqsMessage) (reported : Option (List String)) (s : World) : Prop :=
  ∀ failures, reported = some failures → ∀ record ∈ event, ∀ id, record.messageId = some id →
    id ∉ failures → Handled s record.body

omit [DataUrls] in
theorem lasting_reported (event : List SqsMessage) (reported : Option (List String)) :
    Lasting Grows (Reported event reported) :=
  fun s s' h hgrows failures hreported record hrecord id hid hmissing =>
    lasting_handled record.body s s' (h failures hreported record hrecord id hid hmissing) hgrows

theorem respond_spec {event : List SqsMessage} {reported : Option (List String)} (hs : Sound s.1)
    (hevent : Delivered event s.1) (hreported : Reported event reported s.1) :
    role.Establishes (askStore (.respond event reported)) (fun _ _ => True) s := by
  refine @establishes_shared _ _ (enricher role) Sound
    (fun s => Delivered event s ∧ Reported event reported s) Grows s moves_tables stable_sound
    (.respond event reported) (fun _ _ => True)
    ((lasting_delivered event).and (lasting_reported event reported))
    (fun _ => lasting_const _ True) hs ⟨hevent, hreported⟩ ?_
  intro s answer s' hs hknown hanswer
  obtain ⟨hevent, hreported⟩ := hknown
  refine ⟨?_, trivial⟩
  cases reported with
  | none =>
      cases hanswer
      exact hs
  | some failures =>
      obtain ⟨ids, hids, rfl⟩ := hanswer
      exact hs.acknowledge hevent (hreported failures rfl) hids

/-- **One invocation.**  Only messages that were dealt with are taken from the queue. -/
theorem invocation_spec (hs : Sound s.1) :
    role.Establishes invocation (fun _ _ => True) s := by
  refine establishes_bind (receive_spec hs) fun event s hs hevent => ?_
  refine establishes_bind (establishes_frame moves_tables (lasting_delivered event)
    (handleRecords_spec event [] hs) hevent) ?_
  intro reported s hs hhandled
  obtain ⟨hhandled, hevent⟩ := hhandled
  refine respond_spec hs hevent fun failures hreported record hrecord id hid hmissing => ?_
  exact (hhandled failures hreported).2 record hrecord id hid hmissing

/-! ## The publisher -/

/-- Nothing more is to be done about a key: it has a row, or it was offered to the queue. -/
def Traced (s : World) (message : EnrichmentMessage) : Prop :=
  s.HasRow message ∨ Offered s message

omit [DataUrls] in
theorem lasting_traced {kind : Kind} (keys : List kind.Key) :
    Lasting Grows fun s => ∀ key ∈ keys, Traced s ⟨kind, key⟩ := by
  intro s s' h hgrows key hkey
  rcases h key hkey with hrow | hoffered
  · exact .inl (lasting_hasRow _ s s' hrow hgrows)
  · exact .inr (lasting_offered _ s s' hoffered hgrows)

theorem sendMessageBatch_spec {kind : Kind} (keys : List kind.Key) (hs : Sound s.1) :
    role.Establishes (askStore (.sendMessageBatch (keys.map fun key => ⟨kind, key⟩)))
      (fun _ s => ∀ key ∈ keys, Traced s ⟨kind, key⟩) s := by
  refine askStore_spec (fun _ => lasting_traced keys) hs ?_
  intro s answer s' hs hsends
  obtain ⟨hs', hoffered⟩ := hs.sends hsends
  exact ⟨hs', fun key hkey => .inr (hoffered _ (List.mem_map_of_mem hkey))⟩

omit [DataUrls] in
theorem mem_chunksOfTen {γ : Type} {keys : List γ} {key : γ} (h : key ∈ keys) :
    ∃ chunk ∈ chunksOfTen keys, key ∈ chunk := by
  obtain ⟨i, hi, rfl⟩ := List.mem_iff_getElem.mp h
  refine ⟨(keys.drop (10 * (i / 10))).take 10, ?_, ?_⟩
  · exact List.mem_map.mpr ⟨i / 10, List.mem_range.mpr (by omega), rfl⟩
  · refine List.mem_iff_getElem.mpr ⟨i % 10, ?_, ?_⟩
    · rw [List.length_take, List.length_drop]
      omega
    · rw [List.getElem_take, List.getElem_drop]
      congr 1
      omega

/-- Chunk by chunk, every key is offered. -/
theorem publishMessages_spec (kind : Kind) (keys : List kind.Key) (hs : Sound s.1) :
    role.Establishes (publishMessages kind keys) (fun _ s => ∀ key ∈ keys, Traced s ⟨kind, key⟩)
      s := by
  have hchunks : ∀ (chunks : List (List kind.Key)) {s : World × Unit}, Sound s.1 →
      role.Establishes (chunks.forM fun chunk => do
        let _ ← askStore (.sendMessageBatch (chunk.map fun key => ⟨kind, key⟩)))
        (fun _ s => ∀ chunk ∈ chunks, ∀ key ∈ chunk, Traced s ⟨kind, key⟩) s := by
    intro chunks
    induction chunks with
    | nil => exact fun hs => (settled_trivial hs).imp fun _ _ chunk hchunk => by cases hchunk
    | cons chunk chunks ih =>
        intro s hs
        have hsend : role.Establishes (do
            let _ ← askStore (.sendMessageBatch (chunk.map fun key => ⟨kind, key⟩)))
            (fun (_ : Unit) s => ∀ key ∈ chunk, Traced s ⟨kind, key⟩) s := by
          refine establishes_bind (sendMessageBatch_spec chunk hs) fun _ s hs h => ?_
          exact establishes_ret moves_tables stable_sound (lasting_traced chunk) hs h
        refine establishes_bind hsend fun _ s hs hchunk => ?_
        refine establishes_imp
          (establishes_frame moves_tables (lasting_traced chunk) (ih hs) hchunk)
          fun _ s hboth other hother => ?_
        rcases List.mem_cons.mp hother with rfl | hmem
        · exact hboth.2
        · exact hboth.1 other hmem
  refine establishes_imp (hchunks (chunksOfTen keys) hs) fun _ s h key hkey => ?_
  obtain ⟨chunk, hchunk, hmem⟩ := mem_chunksOfTen hkey
  exact h chunk hchunk key hmem

/-- What the filter leaves out has a row. -/
theorem unenrichedKeys_spec (kind : Kind) (candidates : List kind.Key) (hs : Sound s.1) :
    role.Establishes (unenrichedKeys kind candidates) (fun answer s => ∀ missing,
      answer = .ok missing → ∀ key ∈ candidates, key ∉ missing → s.HasRow ⟨kind, key⟩) s := by
  unfold unenrichedKeys
  by_cases hnone : candidates.eraseDups = []
  · rw [if_pos hnone]
    refine (settled_trivial hs).imp fun s _ missing _ key hkey => ?_
    have hdeduped : key ∈ candidates.eraseDups := List.mem_eraseDups.mpr hkey
    rw [hnone] at hdeduped
    cases hdeduped
  · rw [if_neg hnone]
    refine askStore_spec ?_ hs ?_
    · intro answer s s' h hgrows missing hanswer key hkey hout
      exact lasting_hasRow _ s s' (h missing hanswer key hkey hout) hgrows
    · rintro s answer s' hs ⟨rfl, hfiltered⟩
      refine ⟨hs, fun missing hanswer key hkey hout => ?_⟩
      by_contra hrow
      exact hout ((hfiltered missing hanswer key).mpr ⟨List.mem_eraseDups.mpr hkey, hrow⟩)

/-- **Publishing.**  Every candidate has a row, or its message was offered to the queue. -/
theorem publish_spec (kind : Kind) (candidates : List kind.Key) (hs : Sound s.1) :
    role.Establishes (publish kind candidates)
      (fun _ s => ∀ key ∈ candidates, Traced s ⟨kind, key⟩) s := by
  unfold publish
  split_ifs with hnone
  · refine (settled_trivial hs).imp fun s _ key hkey => ?_
    rw [hnone] at hkey
    cases hkey
  · refine establishes_bind (unenrichedKeys_spec kind candidates hs) fun missing s hs hmissing => ?_
    cases missing with
    | error error =>
        -- what cannot be told is published
        exact publishMessages_spec kind candidates hs
    | ok missing =>
        have hlasting : Lasting Grows fun s : World =>
            ∀ key ∈ candidates, key ∉ missing → s.HasRow ⟨kind, key⟩ :=
          fun s s' h hgrows key hkey hout => lasting_hasRow _ s s' (h key hkey hout) hgrows
        have hpublished := establishes_frame moves_tables hlasting
          (publishMessages_spec kind missing hs) (hmissing missing rfl)
        refine establishes_imp hpublished fun _ s hboth key hkey => ?_
        by_cases hmem : key ∈ missing
        · exact hboth.1 key hmem
        · exact .inl (hboth.2 key hkey hmem)

/-! ## The drain -/

/-- The keys a drain reports as neither enriched nor known to have nothing. -/
def BackfillReport.failures (report : BackfillReport) : ℕ := report.unreachable + report.dbFailed

/-- Every key that was processed is counted once. -/
def BackfillReport.Balanced (report : BackfillReport) : Prop :=
  report.processed = report.enriched + report.sentinel + report.failures

omit [DataUrls] in
theorem balanced_new : BackfillReport.new.Balanced := rfl

/-- A task is counted once, as a failure unless it left an outcome. -/
structure Counted (report report' : BackfillReport) (result : Except EnrichError EnrichOutcome) :
    Prop where
  processed : report'.processed = report.processed + 1
  balanced : report.Balanced → report'.Balanced
  failures : report.failures ≤ report'.failures
  outcome : report'.failures = 0 → ∃ outcome, result = .ok outcome

omit [DataUrls] in
theorem counted_tally (report : BackfillReport) (result : Except EnrichError EnrichOutcome) :
    Counted report (tally report result) result := by
  rcases result with (_ | _) | (_ | _)
  all_goals
    constructor
    · rfl
    · simp only [BackfillReport.Balanced, BackfillReport.failures, tally]
      omega
    · simp only [BackfillReport.failures, tally]
      omega
    · simp [BackfillReport.failures, tally]

omit [DataUrls] in
theorem counted_collectJoin (report : BackfillReport) (panicked : Bool)
    (result : Except EnrichError EnrichOutcome) :
    Counted report (collectJoin report panicked result) result := by
  cases panicked with
  | false => exact counted_tally report result
  | true =>
      have hcounted := counted_tally report (.error .database)
      refine ⟨hcounted.processed, hcounted.balanced, hcounted.failures, fun hnone => ?_⟩
      obtain ⟨outcome, houtcome⟩ := hcounted.outcome hnone
      cases houtcome

/-- What a drain knows after some of its tasks: each is counted, and left `P` behind unless a
failure was counted. -/
structure Drained {γ : Type} (P : γ → World → Prop) (start : BackfillReport) (done : List γ)
    (report : BackfillReport) (s : World) : Prop where
  processed : report.processed = start.processed + done.length
  balanced : report.Balanced
  failures : start.failures ≤ report.failures
  tried : report.failures = 0 → ∀ item ∈ done, P item s

omit [DataUrls] in
theorem lasting_drained {γ : Type} {P : γ → World → Prop} (hP : ∀ item, Lasting Grows (P item))
    (start : BackfillReport) (done : List γ) (report : BackfillReport) :
    Lasting Grows (Drained P start done report) :=
  fun s s' h hgrows => ⟨h.processed, h.balanced, h.failures, fun hnone item hitem =>
    hP item s s' (h.tried hnone item hitem) hgrows⟩

theorem drainTask_spec {γ : Type} {P : γ → World → Prop} {task : γ → Enrich EnrichOutcome}
    (hP : ∀ item, Lasting Grows (P item))
    (htask : ∀ item s, Sound s.1 → role.EstablishesTry (task item) (fun _ => P item) s)
    {start report : BackfillReport} {done : List γ} (item : γ) (hs : Sound s.1)
    (hdrained : Drained P start done report s.1) :
    role.Establishes (drainTask task report item) (Drained P start (done ++ [item])) s := by
  have hresult : role.Establishes (task item).run
      (fun result s => ∀ outcome, result = .ok outcome → P item s) s := by
    refine upholds_imp ?_ (htask item s hs)
    intro result s' hs' outcome houtcome
    rw [houtcome] at hs'
    exact hs'.now
  refine establishes_bind (establishes_frame moves_tables (lasting_drained hP start done report)
    hresult hdrained) fun result s hs hknown => ?_
  obtain ⟨hresult, hdrained⟩ := hknown
  -- a row that is there stays, whoever else works
  have hlasting : Lasting Grows fun s : World =>
      (∀ outcome, result = .ok outcome → P item s) ∧ Drained P start done report s :=
    Lasting.and (fun s s' h hgrows outcome houtcome => hP item s s' (h outcome houtcome) hgrows)
      (lasting_drained hP start done report)
  refine establishes_bind (establishes_frame moves_tables hlasting
    (askFetcher_spec .joinPanicked hs) ⟨hresult, hdrained⟩) fun panicked s hs hknown => ?_
  obtain ⟨-, hresult, hdrained⟩ := hknown
  refine establishes_ret moves_tables stable_sound (lasting_drained hP start _ _) hs ?_
  have hcounted := counted_collectJoin report panicked result
  refine ⟨?_, hcounted.balanced hdrained.balanced, hdrained.failures.trans hcounted.failures, ?_⟩
  · rw [hcounted.processed, hdrained.processed, List.length_append, List.length_singleton]
    rfl
  · -- a count of no failures says so for every task before, too
    intro hnone other hother
    rcases List.mem_append.mp hother with hdone | hnew
    · have hnoneBefore : report.failures = 0 := by
        have hle := hcounted.failures
        omega
      exact hdrained.tried hnoneBefore other hdone
    · obtain ⟨outcome, houtcome⟩ := hcounted.outcome hnone
      rw [List.mem_singleton.mp hnew]
      exact hresult outcome houtcome

/-- A chunk of tasks. -/
theorem drainTasks_spec {γ : Type} {P : γ → World → Prop} {task : γ → Enrich EnrichOutcome}
    (hP : ∀ item, Lasting Grows (P item))
    (htask : ∀ item s, Sound s.1 → role.EstablishesTry (task item) (fun _ => P item) s)
    {report : BackfillReport} (items : List γ) (hs : Sound s.1) (hbalanced : report.Balanced) :
    role.Establishes (items.foldlM (drainTask task) report) (Drained P report items) s := by
  refine upholds_imp (fun _ _ h => h.now.2) (upholds_foldlM
    (K := fun done acc (s : World × Unit) => Sound s.1 ∧ Drained P report done acc s.1) ?_ ?_ []
    ⟨hs, ?_⟩)
  · intro done acc s h
    exact (settled_of_lasting moves_tables stable_sound (lasting_drained hP report done acc) h.1
      h.2).imp fun _ h => ⟨h.inv.1, h.now⟩
  · intro done item acc s _ h
    exact upholds_imp (fun _ _ h => ⟨h.inv.1, h.now⟩) (drainTask_spec hP htask item h.1 h.2)
  · exact ⟨rfl, hbalanced, le_rfl, fun _ item hitem => by cases hitem⟩

/-- A key that a drain is to try: it was a candidate, and still is unless it has a row. -/
structure Sought {kind : Kind} (args : DrainArgs) (key : kind.Key) (s : World) : Prop where
  mode : args.mode ≠ .sentinels
  inScope : InScope ⟨kind, key⟩
  mem : ⟨kind, key⟩ ∈ s.base

omit [DataUrls] in
theorem lasting_sought {kind : Kind} (args : DrainArgs) (key : kind.Key) :
    Lasting Grows (Sought args key) :=
  fun _ _ h hgrows => ⟨h.mode, h.inScope, hgrows.base h.mem⟩

/-- What a chunk says of a key: it has a row, lies before the chunk or in it, or comes after
all of a full one. -/
def Located {kind : Kind} (key : kind.Key) (cursor : Option kind.Key) (chunk : ℤ)
    (keys : List kind.Key) (s : World) : Prop :=
  Past cursor key → key ∉ keys → s.HasRow ⟨kind, key⟩ ∨
    (keys.length : ℤ) = chunk ∧ ∀ other ∈ keys, sortKey ⟨kind, other⟩ < sortKey ⟨kind, key⟩

omit [DataUrls] in
theorem lasting_located {kind : Kind} (key : kind.Key) (cursor : Option kind.Key) (chunk : ℤ)
    (keys : List kind.Key) : Lasting Grows (Located key cursor chunk keys) :=
  fun s s' h hgrows hpast hout =>
    (h hpast hout).imp_left fun hrow => lasting_hasRow _ s s' hrow hgrows

theorem selectChunk_spec {kind : Kind} {args : DrainArgs} {key : kind.Key} {sought : Prop}
    (cursor : Option kind.Key) (chunk : ℤ) (hs : Sound s.1)
    (hsought : sought → Sought args key s.1) :
    role.Establishes (askStore (.selectChunk kind cursor chunk args.mode)) (fun answer s =>
      ∀ keys, answer = .ok keys → (keys.length : ℤ) ≤ chunk ∧
        (sought → Sought args key s ∧ Located key cursor chunk keys s)) s := by
  have hlasting : Lasting Grows fun s : World => sought → Sought args key s :=
    fun s s' h hgrows hsought => lasting_sought args key s s' (h hsought) hgrows
  refine @establishes_shared _ _ (enricher role) Sound (fun s => sought → Sought args key s) Grows s
    moves_tables stable_sound (.selectChunk kind cursor chunk args.mode) _ hlasting ?_ hs hsought ?_
  · intro answer s s' h hgrows keys hanswer
    obtain ⟨hlength, hknown⟩ := h keys hanswer
    refine ⟨hlength, fun hsought => ?_⟩
    exact ((lasting_sought args key).and (lasting_located key cursor chunk keys)) s s'
      (hknown hsought) hgrows
  · rintro s answer s' hs hsought ⟨rfl, hselected⟩
    refine ⟨hs, fun keys hanswer => ?_⟩
    obtain ⟨final, -, hchunk⟩ := hselected keys hanswer
    refine ⟨hchunk.length_le, fun hwanted => ⟨hsought hwanted, fun hpast hout => ?_⟩⟩
    obtain ⟨hmode, hinScope, hmem⟩ := hsought hwanted
    -- a candidate that the chunk left out comes after it, and an untried key is a candidate
    by_cases hrow : s'.HasRow ⟨kind, key⟩
    · exact .inl hrow
    · refine .inr (hchunk.first key ?_ hpast hout)
      cases hargs : args.mode with
      | untried => exact ⟨hmem, hinScope, hrow⟩
      | sentinels => exact absurd hargs hmode
      | all => exact ⟨hmem, hinScope⟩

/-- What a drain that ended reports.  Unless its limit stopped it, a key that was sought has
been tried. -/
structure DrainResult {kind : Kind} (args : DrainArgs) (key : kind.Key) (sought : Prop)
    (report : BackfillReport) (s : World) : Prop where
  balanced : report.Balanced
  limit : ∀ cap, args.limit = some cap → report.processed ≤ cap
  tried : sought → (∀ cap, args.limit = some cap → report.processed < cap ∧ cap < 2 ^ 63) →
    report.failures = 0 → s.HasRow ⟨kind, key⟩

/-- Behind the cursor every key that was sought has a row, unless a failure was counted. -/
abbrev TriedBehind {kind : Kind} (key : kind.Key) (cursor : Option kind.Key)
    (report : BackfillReport) (sought : Prop) (s : World) : Prop :=
  sought → report.failures = 0 → ¬ Past cursor key → s.HasRow ⟨kind, key⟩

omit [DataUrls] in
theorem lasting_tried {kind : Kind} (key : kind.Key) (cursor : Option kind.Key)
    (report : BackfillReport) (sought : Prop) :
    Lasting Grows (TriedBehind key cursor report sought) :=
  fun s s' h hgrows hsought hnone hbehind =>
    lasting_hasRow _ s s' (h hsought hnone hbehind) hgrows

omit [DataUrls] in
/-- The tasks of a chunk move the cursor past it. -/
theorem triedBehind_chunk {kind : Kind} {key last : kind.Key} {cursor : Option kind.Key}
    {chunk : ℤ} {keys : List kind.Key} {report report' : BackfillReport} {sought : Prop}
    {s : World} (hlast : keys.getLast? = some last)
    (hlocated : sought → Located key cursor chunk keys s)
    (hbehind : TriedBehind key cursor report sought s)
    (hdrained : Drained (fun key s => s.HasRow ⟨kind, key⟩) report keys report' s) :
    TriedBehind key (some last) report' sought s := by
  intro hsought hnone hnotPast
  by_cases hmem : key ∈ keys
  · exact hdrained.tried hnone key hmem
  · by_cases hpast : Past cursor key
    · rcases hlocated hsought hpast hmem with hrow | ⟨-, hafter⟩
      · exact hrow
      · -- the key would come after the last of the chunk
        refine absurd (fun other hother => ?_) hnotPast
        cases hother
        exact hafter last (List.mem_of_getLast? hlast)
    · have hnoneBefore : report.failures = 0 := by
        have hle := hdrained.failures
        omega
      exact hbehind hsought hnoneBefore hpast

omit [DataUrls] in
/-- A drain that finds no more keys has tried the one that was sought. -/
theorem drainResult_of_exhausted {kind : Kind} {args : DrainArgs} {key : kind.Key}
    {cursor : Option kind.Key} {report : BackfillReport} {sought : Prop} {s : World}
    (hbalanced : report.Balanced) (hlimit : ∀ cap, args.limit = some cap → report.processed ≤ cap)
    (hlocated : sought → Located key cursor
      (effectiveChunk args.chunkSize args.limit report.processed) [] s)
    (hbehind : TriedBehind key cursor report sought s) : DrainResult args key sought report s := by
  refine ⟨hbalanced, hlimit, fun hsought hunlimited hnone => ?_⟩
  by_cases hpast : Past cursor key
  · -- an empty chunk is not a full one
    have hpos := effectiveChunk_pos args.chunkSize_pos hunlimited
    rcases hlocated hsought hpast List.not_mem_nil with hrow | ⟨hfull, -⟩
    · exact hrow
    · rw [List.length_nil] at hfull
      omega
  · exact hbehind hsought hnone hpast

theorem drainLoop_spec {kind : Kind} {args : DrainArgs} (key : kind.Key) (sought : Prop) :
    ∀ {fuel : ℕ} {cursor : Option kind.Key} {report : BackfillReport} {s : World × Unit},
      Sound s.1 → report.Balanced → (∀ cap, args.limit = some cap → report.processed ≤ cap) →
      (sought → Sought args key s.1) →
      (sought → report.failures = 0 → ¬ Past cursor key → s.1.HasRow ⟨kind, key⟩) →
      role.EstablishesTry (drainLoop kind args fuel cursor report) (fun result s =>
        ∀ final, result = some final → DrainResult args key sought final s) s := by
  intro fuel
  induction fuel with
  | zero => exact fun hs _ _ _ _ => (settled_trivial hs).imp fun s _ final hfinal => by cases hfinal
  | succ fuel ih =>
      intro cursor report s hs hbalanced hlimit hsought hbehind
      unfold drainLoop
      by_cases hreached : limitReached args.limit report.processed = true
      · rw [if_pos hreached]
        refine (settled_trivial hs).imp fun s _ final hfinal => ?_
        cases hfinal
        refine ⟨hbalanced, hlimit, fun _ hunlimited => ?_⟩
        -- the limit stops it
        obtain ⟨cap, hcap, hle⟩ := limitReached_iff.mp hreached
        have hless := (hunlimited cap hcap).1
        omega
      · rw [if_neg hreached]
        refine upholdsTry_bind (upholds_imp ?_ (establishes_frame moves_tables
          (lasting_tried key cursor report sought) (selectChunk_spec cursor _ hs hsought) hbehind))
        intro answer s₁ hs₁
        cases answer with
        | error error => trivial
        | ok keys =>
            dsimp only
            cases hlast : keys.getLast? with
            | none =>
                refine hs₁.imp fun s₂ hs₂ final hfinal => ?_
                obtain ⟨hchunk, hbehind⟩ := hs₂.now
                obtain ⟨-, hknown⟩ := hchunk keys rfl
                cases hfinal
                -- no candidate is left past the cursor
                have hempty : keys = [] := List.getLast?_eq_none_iff.mp hlast
                subst hempty
                exact drainResult_of_exhausted hbalanced hlimit (fun hsought => (hknown hsought).2)
                  hbehind
            | some last =>
                obtain ⟨hchunk, hbehind⟩ := hs₁.now
                obtain ⟨hlength, hknown⟩ := hchunk keys rfl
                -- the key is in the chunk, or still ahead of its last one
                have hlasting : Lasting Grows fun s : World =>
                    (sought → Sought args key s ∧ Located key cursor
                      (effectiveChunk args.chunkSize args.limit report.processed) keys s) ∧
                    TriedBehind key cursor report sought s :=
                  Lasting.and (fun s s' h hgrows hsought => ((lasting_sought args key).and
                    (lasting_located key cursor _ keys)) s s' (h hsought) hgrows)
                    (lasting_tried key cursor report sought)
                refine upholdsTry_bind (upholdsTry_lift (upholds_imp ?_
                  (establishes_frame moves_tables hlasting (drainTasks_spec
                    (fun key => lasting_hasRow ⟨kind, key⟩)
                    (fun key s hs => enrich_spec ⟨kind, key⟩ hs)
                    keys hs₁.inv.1 hbalanced) ⟨hknown, hbehind⟩)))
                intro report' s₂ hs₂
                obtain ⟨hdrained, hknown, hbehind⟩ := hs₂.now
                -- the next chunk begins past the last key, every key up to it tried
                refine ih hs₂.inv.1 hdrained.balanced (fun cap hcap => ?_)
                  (fun hsought => (hknown hsought).1)
                  (triedBehind_chunk hlast (fun hsought => (hknown hsought).2) hbehind hdrained)
                have hchunkLe := @effectiveChunk_le args.chunkSize _ _ (hlimit cap hcap)
                rw [hcap] at hlength
                have hprocessed := hdrained.processed
                omega

theorem runDrain_spec {kind : Kind} {args : DrainArgs} (key : kind.Key) (sought : Prop) (fuel : ℕ)
    (hs : Sound s.1) (hsought : sought → Sought args key s.1) :
    role.EstablishesTry (runDrain kind args fuel) (fun result s =>
      ∀ final, result = some final → DrainResult args key sought final s) s := by
  have hlasting : Lasting Grows fun s : World => sought → Sought args key s :=
    fun s s' h hgrows hsought => lasting_sought args key s s' (h hsought) hgrows
  refine upholdsTry_bind (upholds_imp ?_ (establishes_frame moves_tables hlasting
    (askStore_reads (fun _ _ _ h => h) hs) hsought))
  intro total s' hs'
  cases total with
  | error error => trivial
  | ok total =>
      have hnothingBehind : ∀ key : kind.Key, Past none key := fun key last hlast => by cases hlast
      exact drainLoop_spec key sought hs'.inv.1 balanced_new (fun _ _ => Nat.zero_le _) hs'.now.2
        fun _ _ hbehind => absurd (hnothingBehind key) hbehind

/-! ## The names of the collections -/

/-- Stamping a name on rows keeps them safe. -/
theorem rewriteCollectionName_spec {contractId : Int64} {collectionName : String} {version : ℤ}
    (hname : collectionName.length ≤ MAX_COLLECTION_NAME_CHARS) (hs : Sound s.1) :
    role.EstablishesTry
      (query (askStore (.rewriteCollectionName contractId collectionName version)))
      (fun _ _ => True) s := by
  refine query_spec (askStore_spec (fun _ => fun _ _ _ _ _ _ => trivial) hs ?_)
  rintro s answer s' hs ⟨final, hfinal, rfl⟩
  refine ⟨hs.insert (fun copy hcopy => ?_) answer, fun _ _ => trivial⟩
  obtain ⟨row, hrow, hrestamped⟩ := List.mem_filterMap.mp hcopy
  have hstored : row ∈ s.rows := (hfinal.survives row hrow).1
  exact (hs.safe row (hs.rows_sent row hstored)).restamp hname hrestamped

theorem backfillContractCollectionName_spec (contractId : Int64) (hs : Sound s.1) :
    role.EstablishesTry (backfillContractCollectionName contractId) (fun _ _ => True) s := by
  refine query_bind (askStore_reads (fun _ _ _ h => h) hs) fun strkey s hs => ?_
  cases strkey.bind id with
  | none => exact upholdsTry_pure (settled_trivial hs)
  | some contractStrkey =>
      dsimp only
      refine upholdsTry_bind (upholdsTry_imp ?_ (fun _ h => h)
        (resolveCollectionName_spec contractStrkey hs))
      intro name s₁ hs₁
      cases name with
      | none => exact upholdsTry_pure (settled_trivial hs₁.inv.1)
      | some name =>
          dsimp only
          refine lift_askFetcher_bind (Q := fun _ _ => True) hs₁.inv.1 fun version s₂ hs₂ => ?_
          refine upholdsTry_bind (upholdsTry_imp ?_ (fun _ h => h)
            (rewriteCollectionName_spec hs₁.now hs₂))
          exact fun _ s₃ hs₃ => upholdsTry_pure (settled_trivial hs₃.inv.1)

theorem runNftCollectionName_spec (limit : Option ℕ) (hs : Sound s.1) :
    role.EstablishesTry (runNftCollectionName limit) (fun report _ => report.Balanced) s := by
  refine upholdsTry_bind (upholds_imp ?_ (askStore_reads (fun _ _ _ h => h) hs))
  intro total s₁ hs₁
  cases total with
  | error error => trivial
  | ok total =>
      refine upholdsTry_bind (upholds_imp ?_ (askStore_reads (fun _ _ _ h => h.1) hs₁.inv.1))
      intro answer s₂ hs₂
      cases answer with
      | error error => trivial
      | ok ids =>
          have htasks : role.Establishes
              (ids.foldlM (drainTask backfillContractCollectionName) BackfillReport.new)
              (Drained (fun _ _ => True) BackfillReport.new ids) s₂ :=
            drainTasks_spec (fun _ => lasting_const _ True)
              (fun id s hs => backfillContractCollectionName_spec id hs) ids hs₂.inv.1 balanced_new
          exact upholdsTry_lift (establishes_imp htasks fun _ _ h => h.balanced)

end SorobanExplorer.Enrichment
