import SorobanExplorer.Persist.CommitMarker

/-!
# What the writer guarantees

One spec for each function of the writer.  They all have the same shape: a
persistent fact `P` the caller knows survives the call, on success and on
failure, and success adds what the function did.  `commit_spec` is where the
commit marker is earned: when `ledgers` is opened, every row the writer was
given has been acknowledged.
-/

namespace SorobanExplorer.Persist

open Interaction Store

variable {Row : Type} {seeded : List LedgerRow} {prior : LedgerRow → Store Row → Prop}
  {P : Store Row → Prop}

/-! ## Who else moves the store -/

/-- ClickHouse, moved between two requests by `drift`. -/
def driven (seeded : List LedgerRow) (drift : Store Row → Store Row → Prop) :
    Environment (clickHouse Row) where
  State := Store Row
  answers := Answers seeded
  drift := drift

/-- Moves a writer need not fear: they lose nothing and keep the invariant. -/
class Harmless (drift : Store Row → Store Row → Prop) (prior : LedgerRow → Store Row → Prop) :
    Prop where
  grows : ∀ s s', drift s s' → s.Grows s'
  consistent : (∀ row, Persistent (prior row)) → ∀ s s', s.Consistent prior → drift s s' →
    s'.Consistent prior

/-- A writer alone with its store: only late rows move it. -/
instance : @Harmless Row Drift prior where
  grows _ _ h := h.grows
  consistent hprior _ _ hs h := hs.drift hprior h

variable {drift : Store Row → Store Row → Prop} [Harmless drift prior]

/-- What a caller knows of the store: the invariant, and a fact of its own. -/
def Known (prior : LedgerRow → Store Row → Prop) (P : Store Row → Prop) (s : Store Row) : Prop :=
  s.Consistent prior ∧ P s

/-- The writer upholds the commit-marker invariant: `Q` on success, and `P`,
known before, on failure. -/
abbrev Guarantees (drift : Store Row → Store Row → Prop) (seeded : List LedgerRow)
    (prior : LedgerRow → Store Row → Prop) (P : Store Row → Prop) {α : Type} (p : Db Row α)
    (Q : α → Store Row → Prop) (s : Store Row) : Prop :=
  UpholdsTry (E := driven seeded drift) (Consistent prior) p Q P s

theorem settled_of_known (hprior : ∀ row, Persistent (prior row)) (hP : Persistent P)
    {s : Store Row} (hs : Known prior P s) :
    Settled (driven seeded drift) (Consistent prior) P s := by
  have hstable : Stable (driven seeded drift) (Known prior P) := by
    intro s s' h (hdrift : drift s s')
    exact ⟨Harmless.consistent hprior s s' h.1 hdrift,
      hP s s' h.2 (Harmless.grows prior s s' hdrift)⟩
  exact (hstable.settled (fun _ h => h.1) hs).imp fun _ h => h.now.2

omit [Harmless drift prior] in
theorem Guarantees.weaken (P' : Store Row → Prop) {α : Type} {p : Db Row α}
    {Q : α → Store Row → Prop} {s : Store Row} (h : Guarantees drift seeded prior P' p Q s)
    (himp : ∀ s, P' s → P s) : Guarantees drift seeded prior P p Q s :=
  upholdsTry_imp (fun _ _ hs => hs.now) himp h

theorem guarantees_pure (hprior : ∀ row, Persistent (prior row)) {α : Type} {value : α}
    {Q : α → Store Row → Prop} (hQ : Persistent (Q value)) {s : Store Row}
    (hs : Known prior (Q value) s) : Guarantees drift seeded prior P (pure value) Q s :=
  upholdsTry_pure (settled_of_known hprior hQ hs)

omit [Harmless drift prior] in
theorem guarantees_bind {α β : Type} {p : Db Row α} {next : α → Db Row β}
    {R : α → Store Row → Prop} {Q : β → Store Row → Prop} {s : Store Row}
    (h : Guarantees drift seeded prior P p R s)
    (hnext : ∀ value s, Known prior (R value) s →
      Guarantees drift seeded prior P (next value) Q s) :
    Guarantees drift seeded prior P (p >>= next) Q s :=
  upholdsTry_bind (upholdsTry_imp (fun value s' hs' => hnext value s' ⟨hs'.inv, hs'.now⟩)
    (fun _ h => h) h)

theorem guarantees_forM (hprior : ∀ row, Persistent (prior row)) {γ : Type}
    {body : γ → Db Row PUnit} {K : List γ → Store Row → Prop} (hK : ∀ done, Persistent (K done))
    {items : List γ}
    (hbody : ∀ done item s, item ∈ items → Known prior (K done) s →
      Guarantees drift seeded prior P (body item) (fun _ => K (done ++ [item])) s)
    {s : Store Row} (hs : Known prior (K []) s) :
    Guarantees drift seeded prior P (items.forM body) (fun _ => K items) s := by
  refine upholdsTry_imp (fun _ _ h => h.now.2) (fun _ h => h)
    (upholdsTry_forM (K := fun done => Known prior (K done)) ?_ ?_ [] hs)
  · intro done s h
    exact (settled_of_known hprior (hK done) h).imp fun s hs => ⟨hs.inv, hs.now⟩
  · intro done item s hitem h
    exact upholdsTry_imp (fun _ _ h => ⟨h.inv, h.now⟩) (fun _ h => h) (hbody done item s hitem h)

/-! ## Requests -/

theorem upholds_request (op : DbOp Row) (hprior : ∀ row, Persistent (prior row))
    (hP : Persistent P) {Q : (clickHouse Row).Ans op → Store Row → Prop}
    (hQ : ∀ answer, Persistent (Q answer)) {s : Store Row} (hs : Known prior P s)
    (hlicensed : ∀ s, P s → s.Licensed prior op)
    (hanswer : ∀ s answer s', Known prior P s → s.Answers seeded op answer s' → Q answer s') :
    Upholds (driven seeded drift) (Consistent prior) (.perform (I := clickHouse Row) op) Q s := by
  refine upholds_perform (P := Known prior P)
    ((settled_of_known hprior hP hs).imp fun s' h => ⟨h.inv, h.now⟩) ?_
  intro s' answer s'' hknown hans
  refine settled_of_known hprior (hQ answer) ⟨?_, hanswer s' answer s'' hknown hans⟩
  exact hknown.1.answer hprior (hlicensed s' hknown.2) hans

private theorem upholds_request_keeps (op : DbOp Row) (hprior : ∀ row, Persistent (prior row))
    (hP : Persistent P) {s : Store Row} (hs : Known prior P s)
    (hlicensed : ∀ s, P s → s.Licensed prior op) :
    Upholds (driven seeded drift) (Consistent prior) (.perform (I := clickHouse Row) op)
      (fun _ => P) s :=
  upholds_request op hprior hP (fun _ => hP) hs hlicensed
    fun s _ s' hknown hanswer => hP s s' hknown.2 (Answers.grows hanswer)

theorem openInsert_spec (hprior : ∀ row, Persistent (prior row)) (hP : Persistent P)
    {s : Store Row} (hs : Known prior P s) (writer : ℕ) (table : StreamTable) :
    Guarantees drift seeded prior P (Request.openInsert writer table) (fun _ => P) s := by
  refine upholds_imp ?_ (upholds_request_keeps (.openInsert writer table) hprior hP hs
    fun _ _ => trivial)
  rintro (_ | _) s' hs' <;> exact hs'.now

theorem write_spec (hprior : ∀ row, Persistent (prior row)) (hP : Persistent P)
    {s : Store Row} (hs : Known prior P s) (writer : ℕ) (table : StreamTable) (row : Row) :
    Guarantees drift seeded prior P (Request.write writer table row) (fun _ => P) s := by
  refine upholds_imp ?_ (upholds_request_keeps (.write writer table row) hprior hP hs
    fun _ _ => trivial)
  rintro (_ | _) s' hs' <;> exact hs'.now

theorem openLedgers_spec (hprior : ∀ row, Persistent (prior row)) (hP : Persistent P)
    {s : Store Row} (hs : Known prior P s) (writer : ℕ) :
    Guarantees drift seeded prior P (Request.openLedgers writer) (fun _ => P) s := by
  refine upholds_imp ?_ (upholds_request_keeps (.openLedgers writer) hprior hP hs
    fun _ _ => trivial)
  rintro (_ | _) s' hs' <;> exact hs'.now

/-- An acknowledged `end` is what acknowledges rows. -/
theorem endInsert_spec (hprior : ∀ row, Persistent (prior row)) (hP : Persistent P)
    {s : Store Row} (hs : Known prior P s) (writer : ℕ) (table : StreamTable) (rows : List Row) :
    Guarantees drift seeded prior P (Request.endInsert writer table rows)
      (fun _ s => P s ∧ ∀ row ∈ rows, (writer, table, row) ∈ s.acked) s := by
  refine upholds_request (.endInsert writer table rows) hprior hP ?_ hs
    (fun _ _ => trivial) ?_
  · rintro (_ | _)
    · exact hP
    · exact hP.and (persistent_acked writer table rows)
  · rintro s (_ | _) s' hknown hanswer
    · exact hP s s' hknown.2 hanswer.grows
    · refine ⟨hP s s' hknown.2 hanswer.grows, fun row hrow => ?_⟩
      cases hanswer
      exact List.mem_append_left _ (List.mem_map_of_mem hrow)

theorem writeLedgers_spec (hprior : ∀ row, Persistent (prior row)) (hP : Persistent P)
    {s : Store Row} (hs : Known prior P s) (writer : ℕ) (marker : Marker)
    (hready : ∀ s, P s → s.Complete marker ∧ prior marker.row s) :
    Guarantees drift seeded prior P (Request.writeLedgers writer marker)
      (fun _ s => P s ∧ marker ∈ s.sentLedgers) s := by
  refine upholds_request (.writeLedgers writer marker) hprior hP ?_ hs hready ?_
  · rintro (_ | _)
    · exact hP
    · exact hP.and fun s s' h hgrows => hgrows.sentLedgers h
  · rintro s (_ | _) s' hknown hanswer
    · exact hP s s' hknown.2 hanswer.grows
    · refine ⟨hP s s' hknown.2 hanswer.grows, ?_⟩
      cases hanswer
      exact List.mem_cons_self

theorem endLedgers_spec (hprior : ∀ row, Persistent (prior row)) (hP : Persistent P)
    {s : Store Row} (hs : Known prior P s) (writer : ℕ) (markers : List Marker)
    (hsent : ∀ s, P s → ∀ marker ∈ markers, marker ∈ s.sentLedgers) :
    Guarantees drift seeded prior P (Request.endLedgers writer markers)
      (fun _ s => P s ∧ ∀ marker ∈ markers, marker ∈ s.ledgers) s := by
  refine upholds_request (.endLedgers writer markers) hprior hP ?_ hs hsent ?_
  · rintro (_ | _)
    · exact hP
    · exact hP.and fun s s' h hgrows marker hmarker => hgrows.ledgers (h marker hmarker)
  · rintro s (_ | _) s' hknown hanswer
    · exact hP s s' hknown.2 hanswer.grows
    · refine ⟨hP s s' hknown.2 hanswer.grows, fun marker hmarker => ?_⟩
      cases hanswer
      exact List.mem_append_left _ hmarker

theorem stage_spec (hprior : ∀ row, Persistent (prior row)) (hP : Persistent P)
    {s : Store Row} (hs : Known prior P s) (ledger : LedgerRow) :
    Guarantees drift seeded prior P (Request.stage ledger)
      (fun staged s => P s ∧ s.stagings[staged.1]? =
        some { ledgerRows := [⟨staged.1, ledger⟩], rows := staged.2 }) s := by
  refine upholds_request (.stage ledger) hprior hP ?_ hs (fun _ _ => trivial) ?_
  · rintro (_ | _)
    · exact hP
    · exact hP.and (persistent_staging _ _)
  · rintro s (_ | ⟨staging, rows⟩) s' hknown hanswer
    · exact hP s s' hknown.2 hanswer.grows
    · refine ⟨hP s s' hknown.2 hanswer.grows, ?_⟩
      obtain ⟨rfl, rfl⟩ := hanswer
      exact List.getElem?_concat_length

/-! ## Streaming -/

namespace PartitionWriter

/-- The rows streamed to a table so far. -/
def streamed (pw : PartitionWriter Row) (table : StreamTable) : List Row :=
  (pw.inserts table).getD []

theorem open_spec (hprior : ∀ row, Persistent (prior row)) (hP : Persistent P)
    {s : Store Row} (hs : Known prior P s) :
    Guarantees drift seeded prior P PartitionWriter.open
      (fun pw s => P s ∧ pw.ledgerRows = [] ∧ ∀ table, pw.streamed table = []) s := by
  refine guarantees_bind (upholdsTry_lift (upholds_request_keeps .openWriter hprior hP hs
    fun _ _ => trivial)) ?_
  intro id s' hs'
  exact guarantees_pure hprior (hP.and (persistent_const _)) ⟨hs'.1, hs'.2, rfl, fun _ => rfl⟩

theorem openSlot_spec (hprior : ∀ row, Persistent (prior row)) (hP : Persistent P)
    {s : Store Row} (hs : Known prior P s) (writer : ℕ) (slot : Option (Insert Row))
    (table : StreamTable) :
    Guarantees drift seeded prior P (openSlot writer slot table)
      (fun insert s => P s ∧ insert = slot.getD []) s := by
  cases slot with
  | some insert =>
      exact guarantees_pure hprior (hP.and (persistent_const _)) ⟨hs.1, hs.2, rfl⟩
  | none =>
      refine guarantees_bind (openInsert_spec hprior hP hs writer table) ?_
      intro _ s' hs'
      exact guarantees_pure hprior (hP.and (persistent_const _)) ⟨hs'.1, hs'.2, rfl⟩

theorem writeRows_spec (hprior : ∀ row, Persistent (prior row)) (hP : Persistent P)
    {s : Store Row} (hs : Known prior P s) (writer : ℕ) (slot : Option (Insert Row))
    (table : StreamTable) (rows : List Row) :
    Guarantees drift seeded prior P (writeRows writer slot table rows)
      (fun slot' s => P s ∧ slot'.getD [] = slot.getD [] ++ rows) s := by
  rw [writeRows]
  split
  · rename_i hempty
    rw [List.isEmpty_iff] at hempty
    refine guarantees_pure hprior (hP.and (persistent_const _)) ⟨hs.1, hs.2, ?_⟩
    rw [hempty, List.append_nil]
  · refine guarantees_bind (openSlot_spec hprior hP hs writer slot table) ?_
    rintro insert s' ⟨hs', hP', rfl⟩
    refine guarantees_bind (R := fun _ => P) ?_ ?_
    · exact guarantees_forM hprior (K := fun _ => P) (fun _ => hP)
        (fun _ row s _ hs => write_spec hprior hP hs writer table row) ⟨hs', hP'⟩
    · intro _ s'' hs''
      exact guarantees_pure hprior (hP.and (persistent_const _)) ⟨hs''.1, hs''.2, rfl⟩

/-- `pw'` is `pw` after streaming the staged rows of the tables `done`. -/
structure Streams (staged : StagedLedger Row) (done : List StreamTable)
    (pw pw' : PartitionWriter Row) : Prop where
  id : pw'.id = pw.id
  ledgerRows : pw'.ledgerRows = pw.ledgerRows
  streamed : ∀ table, pw'.streamed table =
    pw.streamed table ++ if table ∈ done then staged.rows table else []

theorem writeTable_spec (hprior : ∀ row, Persistent (prior row)) (hP : Persistent P)
    {s : Store Row} (hs : Known prior P s) (staged : StagedLedger Row) (pw : PartitionWriter Row)
    (table : StreamTable) :
    Guarantees drift seeded prior P (writeTable staged pw table)
      (fun pw' s => P s ∧ Streams staged [table] pw pw') s := by
  refine guarantees_bind (writeRows_spec hprior hP hs _ _ _ _) ?_
  rintro slot s' ⟨hs', hP', hslot⟩
  refine guarantees_pure hprior (hP.and (persistent_const _)) ⟨hs', hP', rfl, rfl, ?_⟩
  intro other
  by_cases hother : other = table
  · subst hother
    simp [PartitionWriter.streamed, hslot]
  · simp [PartitionWriter.streamed, hother]

theorem Streams.append {staged : StagedLedger Row} {done : List StreamTable}
    {table : StreamTable} {pw pw' pw'' : PartitionWriter Row} (hnew : table ∉ done)
    (h : Streams staged [table] pw pw') (h' : Streams staged done pw' pw'') :
    Streams staged (table :: done) pw pw'' where
  id := h'.id.trans h.id
  ledgerRows := h'.ledgerRows.trans h.ledgerRows
  streamed := by
    intro other
    rw [h'.streamed, h.streamed, List.append_assoc]
    by_cases hother : other = table
    · subst hother
      simp [hnew]
    · simp [hother]

private theorem foldlM_writeTable_spec (hprior : ∀ row, Persistent (prior row))
    (hP : Persistent P) (staged : StagedLedger Row) {tables : List StreamTable}
    (hnodup : tables.Nodup) :
    ∀ {pw : PartitionWriter Row} {s : Store Row}, Known prior P s →
      Guarantees drift seeded prior P (tables.foldlM (writeTable staged) pw)
        (fun pw' s => P s ∧ Streams staged tables pw pw') s := by
  induction tables with
  | nil =>
      intro pw s hs
      exact guarantees_pure hprior (hP.and (persistent_const _))
        ⟨hs.1, hs.2, rfl, rfl, fun table => by simp⟩
  | cons table rest ih =>
      intro pw s hs
      obtain ⟨hnew, hrest⟩ := List.nodup_cons.mp hnodup
      rw [List.foldlM_cons]
      refine guarantees_bind (writeTable_spec hprior hP hs staged pw table) ?_
      rintro pw' s' ⟨hs', hP', htable⟩
      refine upholdsTry_imp ?_ (fun _ h => h) (ih hrest ⟨hs', hP'⟩)
      intro pw'' s'' hs''
      exact ⟨hs''.now.1, htable.append hnew hs''.now.2⟩

/-- **Streaming.**  `writeLedger` adds every staged row to the insert of its
table and the `ledgers` rows to the held-back ones. -/
theorem writeLedger_spec (hprior : ∀ row, Persistent (prior row)) (hP : Persistent P)
    {s : Store Row} (hs : Known prior P s) (pw : PartitionWriter Row)
    (staged : StagedLedger Row) :
    Guarantees drift seeded prior P (pw.writeLedger staged)
      (fun pw' s => P s ∧ pw'.ledgerRows = pw.ledgerRows ++ staged.ledgerRows ∧
        ∀ table, pw'.streamed table = pw.streamed table ++ staged.rows table) s := by
  have hnodup : writeOrder.Nodup := by decide
  have hall : ∀ table, table ∈ writeOrder := by intro table; cases table <;> decide
  refine upholdsTry_imp ?_ (fun _ h => h) (foldlM_writeTable_spec hprior hP staged hnodup hs)
  intro pw' s' hs'
  obtain ⟨hP', hstreams⟩ := hs'.now
  refine ⟨hP', hstreams.ledgerRows, fun table => ?_⟩
  rw [hstreams.streamed table, if_pos (hall table)]
  rfl

/-! ## Committing -/

theorem endSlot_spec (hprior : ∀ row, Persistent (prior row)) (hP : Persistent P)
    {s : Store Row} (hs : Known prior P s) (pw : PartitionWriter Row) (table : StreamTable) :
    Guarantees drift seeded prior P (pw.endSlot table)
      (fun _ s => P s ∧ ∀ row ∈ pw.streamed table, (pw.id, table, row) ∈ s.acked) s := by
  rw [endSlot, PartitionWriter.streamed]
  cases pw.inserts table with
  | none =>
      refine guarantees_pure hprior (hP.and (persistent_acked _ _ _)) ⟨hs.1, hs.2, ?_⟩
      intro row hrow
      cases hrow
  | some rows => exact endInsert_spec hprior hP hs pw.id table rows

/-- Every row the writer was given is acknowledged. -/
def Drained (pw : PartitionWriter Row) (s : Store Row) : Prop :=
  ∀ table, ∀ row ∈ pw.streamed table, (pw.id, table, row) ∈ s.acked

theorem persistent_drained (pw : PartitionWriter Row) : Persistent pw.Drained :=
  fun _ _ h hgrows table row hrow => hgrows.acked (h table row hrow)

/-- The end list of `commit` names every table, so no insert is left open. -/
theorem endAll_spec (hprior : ∀ row, Persistent (prior row)) (hP : Persistent P)
    {s : Store Row} (hs : Known prior P s) (pw : PartitionWriter Row) :
    Guarantees drift seeded prior P (endOrder.forM pw.endSlot)
      (fun _ s => P s ∧ pw.Drained s) s := by
  have hall : ∀ table, table ∈ endOrder := by intro table; cases table <;> decide
  have hpersistent : ∀ done : List StreamTable, Persistent fun s : Store Row =>
      P s ∧ ∀ table ∈ done, ∀ row ∈ pw.streamed table, (pw.id, table, row) ∈ s.acked :=
    fun done => hP.and fun _ _ h hgrows table ht row hrow => hgrows.acked (h table ht row hrow)
  refine upholdsTry_imp ?_ (fun _ h => h) (guarantees_forM hprior hpersistent (s := s) ?_ ?_)
  · intro _ s' hs'
    exact ⟨hs'.now.1, fun table => hs'.now.2 table (hall table)⟩
  · intro done table s _ hs
    refine upholdsTry_imp ?_ (fun s h => h.1)
      (endSlot_spec hprior (hpersistent done) hs pw table)
    intro _ s' hs'
    obtain ⟨⟨hP', hdone⟩, htable⟩ := hs'.now
    refine ⟨hP', fun other hother => ?_⟩
    rcases List.mem_append.mp hother with hold | hnew
    · exact hdone other hold
    · rw [List.mem_singleton.mp hnew]
      exact htable
  · exact ⟨hs.1, hs.2, fun table h => by cases h⟩

/-- **The commit marker.**  If the writer was given every row of the staging of
each held-back `ledgers` row, `commit` stores those rows, and sends none before
every insert is acknowledged. -/
theorem commit_spec (hprior : ∀ row, Persistent (prior row)) (hP : Persistent P)
    {s : Store Row} (hs : Known prior P s) (pw : PartitionWriter Row)
    (hready : ∀ s, P s → ∀ marker ∈ pw.ledgerRows, prior marker.row s ∧
      ∃ staged, s.stagings[marker.staging]? = some staged ∧ staged.ledgerRows = [marker] ∧
        ∀ table, staged.rows table ⊆ pw.streamed table) :
    Guarantees drift seeded prior P pw.commit
      (fun _ s => P s ∧ ∀ marker ∈ pw.ledgerRows, marker ∈ s.ledgers) s := by
  refine guarantees_bind (endAll_spec hprior hP hs pw) ?_
  intro _ s₁ hs₁
  have hdrained : Persistent fun s => P s ∧ pw.Drained s := hP.and (persistent_drained pw)
  split
  · rename_i hempty
    rw [List.isEmpty_iff] at hempty
    refine guarantees_pure hprior (hP.and ?_) ⟨hs₁.1, hs₁.2.1, ?_⟩
    · exact fun _ _ h hgrows marker hmarker => hgrows.ledgers (h marker hmarker)
    · intro marker hmarker
      rw [hempty] at hmarker
      cases hmarker
  · refine Guarantees.weaken (fun s => P s ∧ pw.Drained s) ?_ fun s h => h.1
    refine guarantees_bind (openLedgers_spec hprior hdrained hs₁ pw.id) ?_
    intro _ s₂ hs₂
    -- each marker is sent with its ledger complete: the writer is drained
    have hcomplete : ∀ s marker, marker ∈ pw.ledgerRows → P s ∧ pw.Drained s →
        s.Complete marker ∧ prior marker.row s := by
      rintro s marker hmarker ⟨hPs, hdrain⟩
      obtain ⟨hpriorRow, staged, hstaged, hledger, hrows⟩ := hready s hPs marker hmarker
      exact ⟨⟨staged, pw.id, hstaged, hledger, fun table r hr => hdrain table r (hrows table hr)⟩,
        hpriorRow⟩
    have hsentPersistent : ∀ done : List Marker, Persistent fun s : Store Row =>
        (P s ∧ pw.Drained s) ∧ ∀ marker ∈ done, marker ∈ s.sentLedgers :=
      fun done => hdrained.and fun s s' h hgrows marker hmarker =>
        hgrows.sentLedgers (h marker hmarker)
    refine guarantees_bind (R := fun _ s => (P s ∧ pw.Drained s) ∧
      ∀ marker ∈ pw.ledgerRows, marker ∈ s.sentLedgers) ?_ ?_
    · refine guarantees_forM hprior hsentPersistent ?_ ⟨hs₂.1, hs₂.2, fun marker h => by cases h⟩
      intro done marker s hmarker hs
      refine upholdsTry_imp ?_ (fun s h => h.1) (writeLedgers_spec hprior (hsentPersistent done)
        hs pw.id marker fun s h => hcomplete s marker hmarker h.1)
      intro _ s' hs'
      obtain ⟨⟨hknown, hdone⟩, hnew⟩ := hs'.now
      refine ⟨hknown, fun other hother => ?_⟩
      rcases List.mem_append.mp hother with hold | hlast
      · exact hdone other hold
      · rw [List.mem_singleton.mp hlast]
        exact hnew
    · intro _ s₃ hs₃
      refine upholdsTry_imp ?_ (fun s h => h.1) (endLedgers_spec hprior
        (hsentPersistent pw.ledgerRows) hs₃ pw.id pw.ledgerRows fun s h => h.2)
      intro _ s' hs'
      exact ⟨hs'.now.1.1.1, hs'.now.2⟩

end PartitionWriter

/-! ## Persisting one ledger -/

/-- **Persisting.**  When `prior` holds of a ledger, persisting it stores its
`ledgers` row, last. -/
theorem persistLedgerClickhouse_spec (hprior : ∀ row, Persistent (prior row))
    (hP : Persistent P) {s : Store Row} (hs : Known prior P s) (ledger : LedgerRow)
    (hready : ∀ s, P s → prior ledger s) :
    Guarantees drift seeded prior P (persistLedgerClickhouse ledger)
      (fun _ s => P s ∧ ∃ marker ∈ s.ledgers, marker.row = ledger) s := by
  refine guarantees_bind (stage_spec hprior hP hs ledger) ?_
  rintro ⟨staging, rows⟩ s₁ hs₁
  set staged : StagedLedger Row := { ledgerRows := [⟨staging, ledger⟩], rows := rows } with hstaged
  have hP₁ : Persistent fun s : Store Row => P s ∧ s.stagings[staging]? = some staged :=
    hP.and (persistent_staging staging staged)
  refine Guarantees.weaken (fun s => P s ∧ s.stagings[staging]? = some staged) ?_
    fun s h => h.1
  refine guarantees_bind (PartitionWriter.open_spec hprior hP₁ hs₁) ?_
  rintro pw s₂ ⟨hs₂, hknown₂, hledgers, hempty⟩
  refine guarantees_bind (upholdsTry_lift (PartitionWriter.writeLedger_spec hprior hP₁
    ⟨hs₂, hknown₂⟩ pw staged)) ?_
  rintro (error | pw') s₃ hs₃
  · -- the write failed: drop the inserts and report it
    exact guarantees_bind (guarantees_pure hprior hP₁ hs₃) fun _ s hs =>
      upholdsTry_throw (settled_of_known hprior hP₁ hs)
  · obtain ⟨hs₃, hknown₃, hledgers', hstreamed⟩ := hs₃
    have hrows : pw'.ledgerRows = [⟨staging, ledger⟩] := by rw [hledgers', hledgers]; rfl
    refine upholdsTry_imp ?_ (fun s h => h)
      (PartitionWriter.commit_spec hprior hP₁ ⟨hs₃, hknown₃⟩ pw' ?_)
    · intro _ s' hs'
      refine ⟨hs'.now.1.1, _, hs'.now.2 ⟨staging, ledger⟩ ?_, rfl⟩
      rw [hrows]
      exact List.mem_singleton_self _
    · intro s h marker hmarker
      rw [hrows, List.mem_singleton] at hmarker
      subst hmarker
      refine ⟨hready s h.1, staged, h.2, rfl, fun table => ?_⟩
      rw [hstreamed table, hempty table]
      exact fun _ h => h

end SorobanExplorer.Persist
