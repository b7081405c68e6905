import SorobanExplorer.Backfill.Run
import SorobanExplorer.Persist.WriterSpec

/-!
# Resuming a backfill

What a run knows of the `ledgers` table is the answer to one query before its first
partition.  Rows of that table only come, and come last, so whatever a run skips for that
answer is there, and whatever it indexes is there once the partition's writer has
committed; a run that gets to its end has done one or the other with every ledger
(`ledgers_complete`).
-/

namespace SorobanExplorer.Backfill

open Interaction Persist Store Indexer

variable {Row : Type}

/-! ## The environment -/

/-- The range of a run and partitions it took for done: those it left out when it started, or
the one whose folder it removed once it was indexed. -/
structure DoneReport where
  start : ℤ
  last : ℤ
  done : List Partition

/-- The answers to the runner.  The disk and S3 answer anything, but a file that is read
holds what the archive has under its name. -/
def RunnerAnswers (seeded : List LedgerRow) (file : ℤ → List LedgerRow)
    (s : Store Row × List DoneReport) :
    (op : RunnerOp) → runner.Ans op → List DoneReport → Prop
  | .loadCompleted start last, answer, reports => reports = s.2 ∧ ∀ rows, answer = .ok rows →
      rows = ((s.1.ledgersTable seeded).map (·.sequence)).filter fun seq =>
        start ≤ seq ∧ seq ≤ last
  | .starting start last alreadyDone, _, reports => reports = s.2 ++ [⟨start, last, alreadyDone⟩]
  | .removeDirAll p (some (start, last)), _, reports => reports = s.2 ++ [⟨start, last, [p]⟩]
  | .readLedgers _ seq, answer, reports => reports = s.2 ∧ ∀ batch, answer = .ok batch →
      batch = file seq
  | _, _, reports => reports = s.2

/-- ClickHouse, over the ledgers stored before the first run, and the runner. -/
abbrev world (Row : Type) (seeded : List LedgerRow) (file : ℤ → List LedgerRow) :
    Environment (backfill Row) :=
  (store Row seeded).beside runner (List DoneReport) (RunnerAnswers seeded file)

/-- The same, with ClickHouse moved between two requests by `drift`. -/
abbrev drivenWorld (drift : Store Row → Store Row → Prop) (seeded : List LedgerRow)
    (file : ℤ → List LedgerRow) : Environment (backfill Row) :=
  (driven seeded drift).beside runner (List DoneReport) (RunnerAnswers seeded file)

/-- The runs of the backfill: any range, without `--reindex`. -/
def IsRun (p : Prog (backfill Row) (Except BackfillError RunSummary)) : Prop :=
  ∃ (start last : UInt32) (keepPartitions : Bool),
    p = (execute start.toNat last.toNat keepPartitions false).run

/-! ## What a run may rely on -/

/-- A ledger has a row. -/
def HasRow (seeded : List LedgerRow) (seq : ℤ) (s : Store Row) : Prop :=
  ∃ row ∈ s.ledgersTable seeded, row.sequence = seq

/-- What was taken for done has its rows. -/
def Sound (seeded : List LedgerRow) (s : Store Row × List DoneReport) : Prop :=
  ∀ report ∈ s.2, ∀ p ∈ report.done, ∀ seq, (p.clamped report.start report.last).1 ≤ seq →
    seq ≤ (p.clamped report.start report.last).2 → HasRow seeded seq s.1

/-- Nothing is asked of a ledger before it is persisted. -/
abbrev anytime : LedgerRow → Store Row → Prop := fun _ _ => True

variable {drift : Store Row → Store Row → Prop} [Harmless drift anytime]
  {seeded : List LedgerRow} {file : ℤ → List LedgerRow} {P : Store Row → Prop}
  {s : (drivenWorld drift seeded file).State}

theorem persistent_anytime : ∀ row, Persistent (anytime row : Store Row → Prop) :=
  fun _ => persistent_const True

theorem persistent_hasRow (seq : ℤ) : Persistent (HasRow seeded seq : Store Row → Prop) := by
  rintro s s' ⟨row, hrow, hseq⟩ hgrows
  refine ⟨row, ?_, hseq⟩
  rcases List.mem_append.mp hrow with hold | hnew
  · exact List.mem_append_left _ hold
  · obtain ⟨marker, hmarker, rfl⟩ := List.mem_map.mp hnew
    exact List.mem_append_right _ (List.mem_map_of_mem (hgrows.ledgers hmarker))

theorem kept_sound : Kept (driven seeded drift) (Sound seeded) := by
  intro s s' reports hsound hmove report hreport p hp seq hfirst hlast
  have hgrows : s.Grows s' := by
    rcases hmove with hdrift | ⟨op, answer, hanswer⟩
    · exact @Harmless.grows _ drift anytime _ s s' hdrift
    · exact Answers.grows hanswer
  exact persistent_hasRow seq s s' (hsound report hreport p hp seq hfirst hlast) hgrows

/-- What holds throughout: markers are sent last, and what was taken for done has its rows. -/
abbrev Invariant (seeded : List LedgerRow) (s : Store Row × List DoneReport) : Prop :=
  s.1.Consistent anytime ∧ Sound seeded s

/-- The invariant, and a fact of the store. -/
def Holds (seeded : List LedgerRow) (P : Store Row → Prop) (s : Store Row × List DoneReport) :
    Prop :=
  Invariant seeded s ∧ P s.1

/-- A run upholds the invariant, and `Q` of the store on success. -/
abbrev Yields (drift : Store Row → Store Row → Prop) (seeded : List LedgerRow)
    (file : ℤ → List LedgerRow) {α : Type} (p : Run Row α) (Q : α → Store Row → Prop)
    (s : Store Row × List DoneReport) : Prop :=
  @UpholdsTry _ _ _ (drivenWorld drift seeded file) (Invariant seeded) p
    (fun value s => Q value s.1 ∧ Sound seeded s) (fun _ => True) s

theorem settled_of_holds (hP : Persistent P) (hs : Holds seeded P s) :
    Settled (drivenWorld drift seeded file) (Invariant seeded)
      (fun s => P s.1 ∧ Sound seeded s) s :=
  settled_beside kept_sound (settled_of_known persistent_anytime hP ⟨hs.1.1, hs.2⟩) hs.1.2

theorem yields_pure {α : Type} {value : α} {Q : α → Store Row → Prop} (hQ : Persistent (Q value))
    (hs : Holds seeded (Q value) s) : Yields drift seeded file (pure value) Q s :=
  upholdsTry_pure (settled_of_holds hQ hs)

theorem yields_throw {α : Type} {error : BackfillError} {Q : α → Store Row → Prop}
    (hs : Invariant seeded s) : Yields drift seeded file (throw error) Q s := by
  have htrue : Holds seeded (fun _ => True) s := ⟨hs, trivial⟩
  exact upholdsTry_throw ((settled_of_holds (persistent_const True) htrue).imp fun _ _ => trivial)

omit [Harmless drift anytime] in
theorem yields_bind {α β : Type} {p : Run Row α} {next : α → Run Row β}
    {R : α → Store Row → Prop} {Q : β → Store Row → Prop} (h : Yields drift seeded file p R s)
    (hnext : ∀ value s, Holds seeded (R value) s → Yields drift seeded file (next value) Q s) :
    Yields drift seeded file (p >>= next) Q s :=
  upholdsTry_bind (upholdsTry_imp (fun value s' hs' => hnext value s' ⟨hs'.inv, hs'.now.1⟩)
    (fun _ h => h) h)

omit [Harmless drift anytime] in
theorem yields_lift {α : Type} {p : Run Row α} {Q : α → Store Row → Prop}
    (h : Yields drift seeded file p Q s) :
    Yields drift seeded file (ExceptT.lift p.run)
      (fun result s => ∀ value, result = .ok value → Q value s) s := by
  refine upholdsTry_lift (upholds_imp (fun result s' hs' => ?_) h)
  refine ⟨fun value hvalue => ?_, hs'.inv.2⟩
  subst hvalue
  exact hs'.now.1

omit [Harmless drift anytime] in
theorem yields_imp {α : Type} {p : Run Row α} {Q Q' : α → Store Row → Prop}
    (h : Yields drift seeded file p Q s) (himp : ∀ value s, Q value s → Q' value s) :
    Yields drift seeded file p Q' s :=
  upholdsTry_imp (fun value s' hs' => ⟨himp value s'.1 hs'.now.1, hs'.now.2⟩) (fun _ h => h) h

/-- What the writer guarantees of the store. -/
theorem db_spec {α : Type} {p : Db Row α} {Q : α → Store Row → Prop}
    (h : Persist.Guarantees drift seeded anytime P p Q s.1) (hs : Invariant seeded s) :
    Yields drift seeded file (Runner.db p) Q s := by
  refine upholds_imp ?_ (upholds_inl_beside kept_sound
    (upholdsTry_adapt (f := BackfillError.chPersist) h) hs.2)
  intro answer s' hs'
  cases answer with
  | ok value => exact hs'.now
  | error error => trivial

/-! ## Questions to the runner -/

/-- What is learned from the runner. -/
theorem askRunner_spec (op : RunnerOp) {Q : runner.Ans op → Store Row → Prop} (hP : Persistent P)
    (hQ : ∀ answer, Persistent (Q answer)) (hs : Holds seeded P s)
    (hanswer : ∀ s answer reports, Holds seeded P s →
      RunnerAnswers seeded file s op answer reports → Q answer s.1 ∧ Sound seeded (s.1, reports)) :
    Upholds (drivenWorld drift seeded file) (Invariant seeded) (askRunner op)
      (fun answer s => Q answer s.1 ∧ Sound seeded s) s := by
  refine upholds_inr_beside kept_sound (P := fun s => s.Consistent anytime ∧ P s) ?_ hs.1.2 ?_
  · exact (settled_of_known persistent_anytime hP ⟨hs.1.1, hs.2⟩).imp fun s h => ⟨h.inv, h.now⟩
  · intro s' answer reports hs' hsound hans
    obtain ⟨hQs, hreports⟩ := hanswer s' answer reports ⟨⟨hs'.1, hsound⟩, hs'.2⟩ hans
    exact ⟨settled_of_known persistent_anytime (hQ answer) ⟨hs'.1, hQs⟩, hreports⟩

/-- A question whose answer is not used. -/
theorem quiet_spec (op : RunnerOp)
    (hquiet : ∀ (s : Store Row × List DoneReport) answer reports,
      RunnerAnswers seeded file s op answer reports → reports = s.2)
    (hP : Persistent P) (hs : Holds seeded P s) :
    Upholds (drivenWorld drift seeded file) (Invariant seeded) (askRunner op)
      (fun _ s => P s.1 ∧ Sound seeded s) s := by
  refine askRunner_spec op hP (fun _ => hP) hs fun s answer reports hs hanswer => ?_
  obtain rfl := hquiet s answer reports hanswer
  exact ⟨hs.2, hs.1.2⟩

omit [Harmless drift anytime] in
theorem yields_of_quiet {α : Type} {p : Run Row α}
    (h : Upholds (drivenWorld drift seeded file) (Invariant seeded) p.run
      (fun _ s => P s.1 ∧ Sound seeded s) s) : Yields drift seeded file p (fun _ => P) s := by
  refine upholds_imp ?_ h
  intro answer s' hs'
  cases answer with
  | ok value => exact hs'.now
  | error error => trivial

omit [Harmless drift anytime] in
/-- A question whose answer is used if it succeeds. -/
theorem yields_of_answer {α : Type} {p : Run Row α} {Q : α → Store Row → Prop}
    (h : Upholds (drivenWorld drift seeded file) (Invariant seeded) p.run
      (fun answer s => (∀ value, answer = .ok value → Q value s.1) ∧ Sound seeded s) s) :
    Yields drift seeded file p Q s := by
  refine upholds_imp ?_ h
  intro answer s' hs'
  cases answer with
  | ok value => exact ⟨hs'.now.1 value rfl, hs'.now.2⟩
  | error error => trivial

section

variable (hP : Persistent P) (hs : Holds seeded P s)

include hP hs

theorem preflight_spec : Yields drift seeded file Runner.preflight (fun _ => P) s :=
  yields_of_quiet (quiet_spec .preflight (fun _ _ _ h => h) hP hs)

theorem createTempDir_spec : Yields drift seeded file Runner.createTempDir (fun _ => P) s :=
  yields_of_quiet (quiet_spec .createTempDir (fun _ _ _ h => h) hP hs)

theorem createDirAll_spec (p : Partition) :
    Yields drift seeded file (Runner.createDirAll p) (fun _ => P) s :=
  yields_of_quiet (quiet_spec (.createDirAll p) (fun _ _ _ h => h) hP hs)

theorem countFiles_spec (p : Partition) :
    Yields drift seeded file (Runner.countFiles p) (fun _ => P) s :=
  yields_of_quiet (quiet_spec (.countFiles p) (fun _ _ _ h => h) hP hs)

theorem syncPartitionFiles_spec (p : Partition) :
    Yields drift seeded file (Runner.syncPartitionFiles p) (fun _ => P) s :=
  yields_of_quiet (quiet_spec (.syncPartitionFiles p) (fun _ _ _ h => h) hP hs)

theorem objectCount_spec (p : Partition) :
    Yields drift seeded file (Runner.objectCount p) (fun _ => P) s :=
  yields_of_quiet (quiet_spec (.objectCount p) (fun _ _ _ h => h) hP hs)

theorem fileExists_spec (p : Partition) (seq : ℤ) :
    Yields drift seeded file (Runner.fileExists p seq) (fun _ => P) s :=
  upholdsTry_lift (quiet_spec (.fileExists p seq) (fun _ _ _ h => h) hP hs)

theorem contractMetadataWrites_spec (ledger : LedgerRow) :
    Yields drift seeded file (Runner.contractMetadataWrites ledger) (fun _ => P) s :=
  yields_of_quiet (quiet_spec (.contractMetadataWrites ledger) (fun _ _ _ h => h) hP hs)

/-- The sync of a partition leaves the store alone. -/
theorem syncPartition_spec (p : Partition) :
    Yields drift seeded file (syncPartition p) (fun _ => P) s := by
  refine yields_bind (createDirAll_spec hP hs p) fun _ s hs => ?_
  refine yields_bind (countFiles_spec hP hs p) fun count s hs => ?_
  split_ifs
  · exact yields_pure hP hs
  refine yields_bind (syncPartitionFiles_spec hP hs p) fun _ s hs => ?_
  refine yields_bind (countFiles_spec hP hs p) fun fileCount s hs => ?_
  split_ifs
  · exact yields_pure hP hs
  refine yields_bind (objectCount_spec hP hs p) fun s3Count s hs => ?_
  split_ifs
  · exact yields_pure hP hs
  refine yields_bind (syncPartitionFiles_spec hP hs p) fun _ s hs => ?_
  refine yields_bind (countFiles_spec hP hs p) fun fileCountRetry s hs => ?_
  split_ifs
  · exact yields_pure hP hs
  · exact yields_throw hs.1

theorem dropIndexedFile_spec (keepFiles : Bool) (p : Partition) (seq : ℤ) :
    Yields drift seeded file (dropIndexedFile keepFiles p seq) (fun _ => P) s := by
  rw [dropIndexedFile]
  split_ifs
  · exact yields_pure hP hs
  · exact yields_bind (upholdsTry_lift (quiet_spec (.removeFile p seq) (fun _ _ _ h => h) hP hs))
      fun _ s hs => yields_pure hP hs

/-- What the archive has under the name of a ledger. -/
theorem readLedgers_spec (p : Partition) (seq : ℤ) :
    Yields drift seeded file (Runner.readLedgers p seq)
      (fun batch s => P s ∧ batch = file seq) s := by
  refine yields_of_answer (askRunner_spec (.readLedgers p seq)
    (Q := fun answer s => ∀ value, answer = .ok value → P s ∧ value = file seq) hP
    (fun answer => ?_) hs ?_)
  · exact fun s s' h hgrows value hvalue => ⟨hP s s' (h value hvalue).1 hgrows, (h value hvalue).2⟩
  · rintro s answer reports hs ⟨rfl, hbatch⟩
    exact ⟨fun batch hok => ⟨hs.2, hbatch batch hok⟩, hs.1.2⟩

/-- The rows of a range, all of which stay. -/
theorem loadCompleted_spec (start last : ℤ) :
    Yields drift seeded file (Runner.loadCompleted start last)
      (fun completed s => P s ∧ ∀ seq ∈ completed, HasRow seeded seq s) s := by
  refine yields_of_answer (askRunner_spec (.loadCompleted start last)
    (Q := fun answer s => ∀ value, answer = .ok value →
      P s ∧ ∀ seq ∈ value, HasRow seeded seq s) hP (fun answer => ?_) hs ?_)
  · exact fun s s' h hgrows value hvalue => ⟨hP s s' (h value hvalue).1 hgrows,
      fun seq hseq => persistent_hasRow seq s s' ((h value hvalue).2 seq hseq) hgrows⟩
  · rintro s answer reports hs ⟨rfl, hrows⟩
    refine ⟨fun rows hok => ⟨hs.2, fun seq hseq => ?_⟩, hs.1.2⟩
    rw [hrows rows hok] at hseq
    obtain ⟨row, hrow, rfl⟩ := List.mem_map.mp (List.mem_of_mem_filter hseq)
    exact ⟨row, hrow, rfl⟩

end

/-! ## Indexing a partition -/

/-- Each marker held back is of a staging all of whose rows the writer was given. -/
def Streamed (pw : PartitionWriter Row) (s : Store Row) : Prop :=
  ∀ marker ∈ pw.ledgerRows, ∃ staged, s.stagings[marker.staging]? = some staged ∧
    staged.ledgerRows = [marker] ∧ ∀ table, staged.rows table ⊆ pw.streamed table

theorem persistent_streamed (pw : PartitionWriter Row) : Persistent (Streamed pw) := by
  intro s s' h hgrows marker hmarker
  obtain ⟨staged, hstaged, hrest⟩ := h marker hmarker
  exact ⟨staged, persistent_staging _ _ s s' hstaged hgrows, hrest⟩

/-- A writer after it was given one more staging. -/
theorem Streamed.append {pw pw' : PartitionWriter Row} {staging : ℕ} {ledger : LedgerRow}
    {rows : StreamTable → List Row} {s : Store Row} (h : Streamed pw s)
    (hstaging : s.stagings[staging]? = some ⟨[⟨staging, ledger⟩], rows⟩)
    (hledgers : pw'.ledgerRows = pw.ledgerRows ++ [⟨staging, ledger⟩])
    (hrows : ∀ table, pw'.streamed table = pw.streamed table ++ rows table) : Streamed pw' s := by
  intro marker hmarker
  rw [hledgers] at hmarker
  rcases List.mem_append.mp hmarker with hold | hnew
  · obtain ⟨staged, hstaged, hledger, hsubset⟩ := h marker hold
    refine ⟨staged, hstaged, hledger, fun table row hrow => ?_⟩
    rw [hrows]
    exact List.mem_append_left _ (hsubset table hrow)
  · obtain rfl := List.mem_singleton.mp hnew
    refine ⟨_, hstaging, rfl, fun table row hrow => ?_⟩
    rw [hrows]
    exact List.mem_append_right _ hrow

theorem writeLedger_spec (hP : Persistent P) (pw : PartitionWriter Row) (ledger : LedgerRow)
    (hs : Holds seeded (fun s => P s ∧ Streamed pw s) s) :
    Yields drift seeded file (writeLedger pw ledger) (fun pw' s => (P s ∧ Streamed pw' s) ∧
      ∃ staging, pw'.ledgerRows = pw.ledgerRows ++ [⟨staging, ledger⟩]) s := by
  have hknown := hP.and (persistent_streamed pw)
  refine yields_bind (contractMetadataWrites_spec hknown hs ledger) fun _ s hs => ?_
  refine yields_bind (db_spec (stage_spec persistent_anytime hknown ⟨hs.1.1, hs.2⟩ ledger) hs.1) ?_
  rintro ⟨staging, rows⟩ s hs
  set staged : StagedLedger Row := { ledgerRows := [⟨staging, ledger⟩], rows := rows } with hstaged
  have hstagedKnown := hknown.and (persistent_staging staging staged)
  refine yields_imp (db_spec (PartitionWriter.writeLedger_spec persistent_anytime hstagedKnown
    ⟨hs.1.1, hs.2⟩ pw staged) hs.1) ?_
  rintro pw' s ⟨⟨⟨hPs, hstreamed⟩, hstaging⟩, hledgers, hrows⟩
  exact ⟨⟨hPs, hstreamed.append hstaging hledgers hrows⟩, staging, hledgers⟩

/-- A ledger a partition's loop is done with: done before, or with a marker held back. -/
def Covered (completed : List ℤ) (pw : PartitionWriter Row) (seq : ℤ) : Prop :=
  seq ∈ completed ∨ ∃ marker ∈ pw.ledgerRows, marker.row.sequence = seq

theorem Covered.append {completed : List ℤ} {pw pw' : PartitionWriter Row} {marker : Marker}
    {seq : ℤ} (h : Covered completed pw seq) (hledgers : pw'.ledgerRows = pw.ledgerRows ++ [marker]) :
    Covered completed pw' seq := by
  refine h.imp_right ?_
  rintro ⟨held, hheld, hseq⟩
  exact ⟨held, by rw [hledgers]; exact List.mem_append_left _ hheld, hseq⟩

/-- What the loop over a partition's ledgers knows after some of them. -/
def Indexed (P : Store Row → Prop) (completed done : List ℤ) (pw : PartitionWriter Row)
    (s : Store Row) : Prop :=
  (P s ∧ Streamed pw s) ∧ ∀ seq ∈ done, Covered completed pw seq

theorem persistent_indexed (hP : Persistent P) (completed done : List ℤ)
    (pw : PartitionWriter Row) : Persistent (Indexed P completed done pw) :=
  (hP.and (persistent_streamed pw)).and (persistent_const _)

/-- A ledger's file is streamed as that ledger. -/
theorem ingestLedgerFromFile_spec (hfile : ∀ seq, ∀ ledger ∈ file seq, ledger.sequence = seq)
    (hP : Persistent P) (p : Partition) (pw : PartitionWriter Row) (seq : ℤ)
    (hs : Holds seeded (fun s => P s ∧ Streamed pw s) s) :
    Yields drift seeded file (ingestLedgerFromFile p pw seq) (fun pw' s => (P s ∧ Streamed pw' s) ∧
      ∃ marker, pw'.ledgerRows = pw.ledgerRows ++ [marker] ∧ marker.row.sequence = seq) s := by
  have hknown := hP.and (persistent_streamed pw)
  refine yields_bind (readLedgers_spec hknown hs p seq) ?_
  rintro batch s ⟨hinv, hs, hbatch⟩
  split_ifs with hlength
  · obtain ⟨ledger, hledger⟩ := List.length_eq_one_iff.mp hlength
    have hseq : ledger.sequence = seq := hfile seq ledger (by rw [← hbatch, hledger]; simp)
    rw [hledger, List.foldlM_cons]
    refine yields_bind (writeLedger_spec hP pw ledger ⟨hinv, hs⟩) ?_
    rintro pw' s ⟨hinv, hs, staging, hledgers⟩
    exact yields_pure ((hP.and (persistent_streamed pw')).and (persistent_const _))
      ⟨hinv, hs, _, hledgers, hseq⟩
  · exact yields_throw hinv

theorem indexLedger_spec (hfile : ∀ seq, ∀ ledger ∈ file seq, ledger.sequence = seq)
    (hP : Persistent P) (keepFiles : Bool) (p : Partition) {completed done : List ℤ}
    (indexing : PartitionWriter Row × PartitionStats) (seq : ℤ)
    (hs : Holds seeded (Indexed P completed done indexing.1) s) :
    Yields drift seeded file (indexLedger keepFiles p completed indexing seq)
      (fun indexing' => Indexed P completed (done ++ [seq]) indexing'.1) s := by
  obtain ⟨pw, stats⟩ := indexing
  have hkept := persistent_indexed hP completed done pw
  unfold indexLedger
  dsimp only
  split_ifs with hcompleted
  · refine yields_bind (dropIndexedFile_spec hkept hs keepFiles p seq) fun _ s hs => ?_
    refine yields_pure (persistent_indexed hP completed (done ++ [seq]) pw)
      ⟨hs.1, hs.2.1, fun other hother => ?_⟩
    -- a ledger that was done before is left alone
    rcases List.mem_append.mp hother with hold | hnew
    · exact hs.2.2 other hold
    · exact .inl (List.mem_singleton.mp hnew ▸ hcompleted)
  · refine yields_bind (fileExists_spec hkept hs p seq) fun exists_ s hs => ?_
    cases exists_ with
    | false => exact yields_throw hs.1
    | true =>
        have hdone := hs.2.2
        refine yields_bind (ingestLedgerFromFile_spec hfile hP p pw seq ⟨hs.1, hs.2.1⟩) ?_
        rintro pw' s ⟨hinv, hs, marker, hledgers, hseq⟩
        -- the marker of the ledger is with the writer now
        have hcovered : ∀ other ∈ done ++ [seq], Covered completed pw' other := by
          intro other hother
          rcases List.mem_append.mp hother with hold | hnew
          · exact (hdone other hold).append hledgers
          · refine .inr ⟨marker, by rw [hledgers]; simp, ?_⟩
            exact hseq.trans (List.mem_singleton.mp hnew).symm
        have hindexed := persistent_indexed hP completed (done ++ [seq]) pw'
        refine yields_bind (dropIndexedFile_spec hindexed ⟨hinv, hs, hcovered⟩ keepFiles p seq) ?_
        exact fun _ s hs => yields_pure hindexed hs

theorem foldlM_indexLedger_spec (hfile : ∀ seq, ∀ ledger ∈ file seq, ledger.sequence = seq)
    (hP : Persistent P) (keepFiles : Bool) (p : Partition) {completed : List ℤ} (seqs : List ℤ) :
    ∀ {done : List ℤ} {indexing : PartitionWriter Row × PartitionStats}
      {s : (drivenWorld drift seeded file).State},
      Holds seeded (Indexed P completed done indexing.1) s →
      Yields drift seeded file (seqs.foldlM (indexLedger keepFiles p completed) indexing)
        (fun indexing' => Indexed P completed (done ++ seqs) indexing'.1) s := by
  induction seqs with
  | nil =>
      intro done indexing s hs
      rw [List.append_nil]
      exact yields_pure (persistent_indexed hP completed done indexing.1) hs
  | cons seq rest ih =>
      intro done indexing s hs
      rw [List.foldlM_cons]
      refine yields_bind (indexLedger_spec hfile hP keepFiles p indexing seq hs) ?_
      intro indexing' s hs
      have hrest := ih hs
      rwa [List.append_assoc, List.singleton_append] at hrest

theorem mem_ledgersBetween {first last seq : ℤ} :
    seq ∈ ledgersBetween first last ↔ first ≤ seq ∧ seq ≤ last := by
  rw [ledgersBetween, List.mem_map]
  constructor
  · rintro ⟨i, hi, rfl⟩
    have := List.mem_range.mp hi
    omega
  · rintro ⟨hfirst, hlast⟩
    exact ⟨(seq - first).toNat, List.mem_range.mpr (by omega), by omega⟩

/-- The ledgers a run asks a partition for have their rows. -/
def Filled (seeded : List LedgerRow) (start last : ℤ) (p : Partition) (s : Store Row) : Prop :=
  ∀ seq ∈ ledgersBetween (p.clamped start last).1 (p.clamped start last).2, HasRow seeded seq s

theorem persistent_filled (start last : ℤ) (p : Partition) :
    Persistent (Filled seeded start last p : Store Row → Prop) :=
  fun s s' h hgrows seq hseq => persistent_hasRow seq s s' (h seq hseq) hgrows

/-- **A partition.**  Every ledger asked for was done before, or has a marker, and the
commit stores the markers. -/
theorem indexPartition_spec (hfile : ∀ seq, ∀ ledger ∈ file seq, ledger.sequence = seq)
    (hP : Persistent P) (keepFiles : Bool) (p : Partition) (start last : ℤ) {completed : List ℤ}
    (hcompleted : ∀ s, P s → ∀ seq ∈ completed, HasRow seeded seq s) (hs : Holds seeded P s) :
    Yields drift seeded file (indexPartition keepFiles p start last completed)
      (fun _ s => P s ∧ Filled seeded start last p s) s := by
  unfold indexPartition
  refine yields_bind (db_spec (PartitionWriter.open_spec persistent_anytime hP
    ⟨hs.1.1, hs.2⟩) hs.1) ?_
  rintro writer s ⟨hinv, hs, hledgers, -⟩
  -- the writer holds nothing yet
  have hstart : Indexed P completed [] writer s.1 := by
    refine ⟨⟨hs, fun marker hmarker => ?_⟩, fun seq hseq => by cases hseq⟩
    rw [hledgers] at hmarker
    cases hmarker
  refine yields_bind (yields_lift (@foldlM_indexLedger_spec _ _ _ _ _ _ hfile hP keepFiles p _ _ _
    (writer, ⟨0, 0⟩) _ ⟨hinv, hstart⟩)) ?_
  rintro (error | ⟨writer', stats⟩) s ⟨hinv, hresult⟩
  · -- a ledger that fails takes the whole partition with it
    have habort : Persist.Guarantees drift seeded anytime (fun _ => True) writer.abort
        (fun _ _ => True) s.1 :=
      guarantees_pure persistent_anytime (persistent_const True) ⟨hinv.1, trivial⟩
    exact yields_bind (db_spec habort hinv) fun _ s hs => yields_throw hs.1
  · obtain ⟨⟨hPs, hstreamed⟩, hcovered⟩ := hresult _ rfl
    have hknown := hP.and (persistent_streamed writer')
    -- every marker held belongs to a staging whose rows were streamed
    have hready : ∀ s, P s ∧ Streamed writer' s → ∀ marker ∈ writer'.ledgerRows,
        anytime marker.row s ∧ ∃ staged, s.stagings[marker.staging]? = some staged ∧
          staged.ledgerRows = [marker] ∧ ∀ table, staged.rows table ⊆ writer'.streamed table :=
      fun s h marker hmarker => ⟨trivial, h.2 marker hmarker⟩
    refine yields_bind (db_spec (PartitionWriter.commit_spec persistent_anytime hknown
      ⟨hinv.1, hPs, hstreamed⟩ writer' hready) hinv) ?_
    rintro _ s ⟨hinv, ⟨hPs, -⟩, hmarkers⟩
    refine yields_pure (hP.and (persistent_filled start last p)) ⟨hinv, hPs, fun seq hseq => ?_⟩
    -- done before, or among the markers the commit stored
    rcases hcovered seq hseq with hdone | ⟨marker, hmarker, rfl⟩
    · exact hcompleted s.1 hPs seq hdone
    · exact ⟨marker.row, List.mem_append_right _ (List.mem_map_of_mem (hmarkers marker hmarker)),
        rfl⟩

/-! ## A run -/

/-- What a run reports as done must have its rows. -/
theorem report_spec (op : RunnerOp) {start last : ℤ} {done : List Partition}
    (hop : ∀ (s : Store Row × List DoneReport) answer reports,
      RunnerAnswers seeded file s op answer reports → reports = s.2 ++ [⟨start, last, done⟩])
    (hP : Persistent P) (hdone : ∀ s, P s → ∀ p ∈ done, Filled seeded start last p s)
    (hs : Holds seeded P s) :
    Upholds (drivenWorld drift seeded file) (Invariant seeded) (askRunner op)
      (fun _ s => P s.1 ∧ Sound seeded s) s := by
  refine askRunner_spec op hP (fun _ => hP) hs fun s answer reports hs hanswer => ?_
  obtain rfl := hop s answer reports hanswer
  refine ⟨hs.2, fun report hreport p hp seq hfirst hlast => ?_⟩
  rcases List.mem_append.mp hreport with hold | hnew
  · exact hs.1.2 report hold p hp seq hfirst hlast
  · obtain rfl := List.mem_singleton.mp hnew
    exact hdone s.1 hs.2 p hp seq (mem_ledgersBetween.mpr ⟨hfirst, hlast⟩)

/-- A folder is removed for a range only of a partition that is filled for it. -/
theorem cleanupPartitionFolder_spec (hP : Persistent P) (keepPartitions : Bool) (p : Partition)
    {indexed : Option (ℤ × ℤ)}
    (hindexed : ∀ range ∈ indexed, ∀ s, P s → Filled seeded range.1 range.2 p s)
    (hs : Holds seeded P s) :
    Yields drift seeded file (cleanupPartitionFolder keepPartitions p indexed) (fun _ => P) s := by
  rw [cleanupPartitionFolder]
  split_ifs
  · exact yields_pure hP hs
  · cases indexed with
    | none => exact yields_of_quiet (quiet_spec (.removeDirAll p none) (fun _ _ _ h => h) hP hs)
    | some range =>
        refine yields_of_quiet (report_spec (.removeDirAll p (some range))
          (fun _ _ _ h => h) hP (fun s h other hother => ?_) hs)
        rw [List.mem_singleton.mp hother]
        exact hindexed range rfl s h

theorem prefetch_spec (hP : Persistent P) (rest : List Partition) (hs : Holds seeded P s) :
    Yields drift seeded file (prefetch rest) (fun _ => P) s := by
  cases rest with
  | nil => exact yields_pure hP hs
  | cons next _ => exact syncPartition_spec hP hs next

/-- A partition is filled, or counted as skipped. -/
theorem handlePartition_spec (hfile : ∀ seq, ∀ ledger ∈ file seq, ledger.sequence = seq)
    (hP : Persistent P) (keepPartitions : Bool) (start last : ℤ) {completed : List ℤ}
    (hcompleted : ∀ s, P s → ∀ seq ∈ completed, HasRow seeded seq s) (p : Partition)
    (done : ℕ × PartitionStats) (outcome : SyncOutcome) (hs : Holds seeded P s) :
    Yields drift seeded file (handlePartition keepPartitions start last completed p done outcome)
      (fun done' s => P s ∧
        (done'.1 = done.1 ∧ Filled seeded start last p s ∨ done'.1 = done.1 + 1)) s := by
  have hfilled := hP.and (@persistent_filled Row seeded start last p)
  have hpost : ∀ done' : ℕ × PartitionStats, Persistent fun s : Store Row =>
      done'.1 = done.1 ∧ Filled seeded start last p s ∨ done'.1 = done.1 + 1 := by
    intro done' s s' h hgrows
    exact h.imp_left fun h => ⟨h.1, persistent_filled start last p s s' h.2 hgrows⟩
  obtain ⟨skipped, totals⟩ := done
  cases outcome with
  | complete =>
      refine yields_bind (indexPartition_spec hfile hP keepPartitions p start last hcompleted hs)
        fun stats s hs => ?_
      -- the folder goes only after the partition is filled
      have hindexed : ∀ range ∈ some (start, last), ∀ s : Store Row,
          P s ∧ Filled seeded start last p s → Filled seeded range.1 range.2 p s := by
        intro range hrange s h
        obtain rfl := Option.some.inj hrange
        exact h.2
      refine yields_bind (cleanupPartitionFolder_spec hfilled keepPartitions p hindexed hs)
        fun _ s hs => ?_
      exact yields_pure (hP.and (hpost _)) ⟨hs.1, hs.2.1, .inl ⟨rfl, hs.2.2⟩⟩
  | s3Incomplete local_ s3 need =>
      have hindexed : ∀ range ∈ (none : Option (ℤ × ℤ)), ∀ s : Store Row, P s →
          Filled seeded range.1 range.2 p s := fun range hrange => by cases hrange
      refine yields_bind (cleanupPartitionFolder_spec hP keepPartitions p hindexed hs)
        fun _ s hs => ?_
      exact yields_pure (hP.and (hpost _)) ⟨hs.1, hs.2, .inr rfl⟩

/-- Partitions are filled one after the other, but for those the archive lacks. -/
theorem runPartitions_spec (hfile : ∀ seq, ∀ ledger ∈ file seq, ledger.sequence = seq)
    (keepPartitions : Bool) (start last : ℤ) {completed : List ℤ} (todo : List Partition) :
    ∀ {P : Store Row → Prop}, Persistent P →
      (∀ s, P s → ∀ seq ∈ completed, HasRow seeded seq s) →
      ∀ (outcome : SyncOutcome) (done : ℕ × PartitionStats)
      {s : (drivenWorld drift seeded file).State}, Holds seeded P s →
      Yields drift seeded file (runPartitions keepPartitions start last completed todo outcome done)
        (fun done' s => P s ∧ done.1 ≤ done'.1 ∧
          (done'.1 = done.1 → ∀ p ∈ todo, Filled seeded start last p s)) s := by
  induction todo with
  | nil =>
      intro P hP _ outcome done s hs
      refine yields_pure (hP.and ((persistent_const _).and ?_)) ⟨hs.1, hs.2, le_rfl, ?_⟩
      · exact fun s s' _ _ _ p hp => by cases hp
      · exact fun _ p hp => by cases hp
  | cons p rest ih =>
      intro P hP hcompleted outcome done s hs
      refine yields_bind (handlePartition_spec hfile hP keepPartitions start last hcompleted p done
        outcome hs) ?_
      rintro done' s ⟨hinv, hs, ⟨hsame, hp⟩ | hskipped⟩
      · -- the partition was filled
        have hfilled := hP.and (@persistent_filled Row seeded start last p)
        refine yields_bind (prefetch_spec hfilled rest ⟨hinv, hs, hp⟩) fun outcome s hs => ?_
        refine yields_imp (ih hfilled (fun s h => hcompleted s h.1) outcome done' hs) ?_
        rintro done'' s ⟨⟨hPs, hp⟩, hle, hrest⟩
        refine ⟨hPs, by omega, fun heq => List.forall_mem_cons.mpr ⟨hp, hrest ?_⟩⟩
        rw [heq, hsame]
      · -- the archive lacked part of it
        refine yields_bind (prefetch_spec hP rest ⟨hinv, hs⟩) fun outcome s hs => ?_
        refine yields_imp (ih hP hcompleted outcome done' hs) ?_
        rintro done'' s ⟨hPs, hle, -⟩
        exact ⟨hPs, by omega, fun heq => by omega⟩

/-! ### The whole range -/

/-- The partitions of a range hold its ledgers. -/
theorem exists_partition {cursor last seq : ℤ} {partitions : List Partition}
    (h : partitionsFrom cursor last = some partitions) (hcursor : cursor ≤ seq)
    (hlast : seq ≤ last) : ∃ p ∈ partitions, p.start ≤ seq ∧ seq ≤ p.last := by
  induction cursor using partitionsFrom.induct last generalizing partitions with
  | case1 cursor hle hoverflow =>
      rw [partitionsFrom, dif_pos hle, if_pos hoverflow] at h
      cases h
  | case2 cursor hle hoverflow ih =>
      rw [partitionsFrom, dif_pos hle, if_neg hoverflow] at h
      obtain ⟨rest, hrest, rfl⟩ := Option.map_eq_some_iff.mp h
      have hfirst : (Partition.fromLedger cursor).start = cursor - cursor % 64000 := rfl
      by_cases hseq : seq ≤ (Partition.fromLedger cursor).last
      · exact ⟨_, List.mem_cons_self, by omega, hseq⟩
      · obtain ⟨p, hp, hholds⟩ := ih hrest (by omega)
        exact ⟨p, List.mem_cons_of_mem _ hp, hholds⟩
  | case3 cursor hle => omega

theorem mem_clamped {p : Partition} {start last seq : ℤ} (hclosed : FIRST_CLOSED_LEDGER ≤ seq)
    (hstart : start ≤ seq) (hlast : seq ≤ last) (hp : p.start ≤ seq ∧ seq ≤ p.last) :
    seq ∈ ledgersBetween (p.clamped start last).1 (p.clamped start last).2 :=
  mem_ledgersBetween.mpr ⟨max_le hstart (max_le hp.1 hclosed), le_min hlast hp.2⟩

/-- What a run that ends has established, unless it skipped a partition. -/
def Finished (seeded : List LedgerRow) (summary : RunSummary) (s : Store Row) : Prop :=
  summary.partitionsSkippedS3Incomplete = 0 → ∀ seq, FIRST_CLOSED_LEDGER ≤ seq →
    summary.start ≤ seq → seq ≤ summary.last → HasRow seeded seq s

theorem persistent_finished (summary : RunSummary) :
    Persistent (Finished seeded summary : Store Row → Prop) :=
  fun s s' h hgrows hskipped seq hclosed hstart hlast =>
    persistent_hasRow seq s s' (h hskipped seq hclosed hstart hlast) hgrows

theorem resumeState_spec (hP : Persistent P) (start last : ℤ) (reindex : Bool)
    (hs : Holds seeded P s) :
    Yields drift seeded file (resumeState start last reindex)
      (fun completed s => P s ∧ ∀ seq ∈ completed, HasRow seeded seq s) s := by
  rw [resumeState]
  split_ifs
  · have hnone : Persistent fun s : Store Row =>
        P s ∧ ∀ seq ∈ ([] : List ℤ), HasRow seeded seq s :=
      hP.and fun _ _ _ _ seq hseq => by cases hseq
    exact yields_pure hnone ⟨hs.1, hs.2, fun seq hseq => by cases hseq⟩
  · exact loadCompleted_spec hP hs start last

theorem starting_spec (hP : Persistent P) {start last : ℤ} {alreadyDone : List Partition}
    (hdone : ∀ s, P s → ∀ p ∈ alreadyDone, Filled seeded start last p s)
    (hs : Holds seeded P s) :
    Yields drift seeded file (Runner.starting start last alreadyDone) (fun _ => P) s :=
  upholdsTry_lift (report_spec (.starting start last alreadyDone) (fun _ _ _ h => h) hP hdone
    hs)

theorem filled_of_partitionFullyDone {p : Partition} {start last : ℤ} {completed : List ℤ}
    {s : Store Row} (h : partitionFullyDone p start last completed = true)
    (hcompleted : ∀ seq ∈ completed, HasRow seeded seq s) : Filled seeded start last p s :=
  fun seq hseq => hcompleted seq (of_decide_eq_true (List.all_eq_true.mp h seq hseq))

/-- The partitions of a run are filled, those left to do and those done before. -/
theorem runTodo_spec (hfile : ∀ seq, ∀ ledger ∈ file seq, ledger.sequence = seq)
    (hP : Persistent P) (keepPartitions : Bool) {start last : ℤ} {completed : List ℤ}
    (hcompleted : ∀ s, P s → ∀ seq ∈ completed, HasRow seeded seq s) {todo : List Partition}
    (hall : ∀ s, P s → (∀ p ∈ todo, Filled seeded start last p s) →
      ∀ seq, FIRST_CLOSED_LEDGER ≤ seq → start ≤ seq → seq ≤ last → HasRow seeded seq s)
    (hs : Holds seeded P s) :
    Yields drift seeded file (runTodo keepPartitions start last completed todo)
      (Finished seeded) s := by
  unfold runTodo
  cases todo with
  | nil =>
      exact yields_pure (persistent_finished _)
        ⟨hs.1, fun _ => hall s.1 hs.2 fun p hp => by cases hp⟩
  | cons first rest =>
      refine yields_bind (syncPartition_spec hP hs first) fun outcome s hs => ?_
      refine yields_bind (runPartitions_spec hfile keepPartitions start last (first :: rest) hP
        hcompleted outcome (0, ⟨0, 0⟩) hs) ?_
      rintro ⟨skipped, totals⟩ s ⟨hinv, hPs, -, hfilled⟩
      have hfinished : Finished seeded
          ⟨start, last, (first :: rest).length, skipped, totals⟩ s.1 :=
        fun hskipped => hall s.1 hPs (hfilled hskipped)
      have hkept := @persistent_finished Row seeded
        ⟨start, last, (first :: rest).length, skipped, totals⟩
      refine yields_bind (upholdsTry_lift (quiet_spec (.bootstrapAccountState start last)
        (fun _ _ _ h => h) hkept ⟨hinv, hfinished⟩)) fun _ s hs => ?_
      exact yields_pure hkept hs

theorem checkRange_spec (hP : Persistent P) (start last : ℤ) (hs : Holds seeded P s) :
    Yields drift seeded file (checkRange start last) (fun _ => P) s := by
  rw [checkRange]
  split_ifs
  · exact yields_pure hP hs
  · exact yields_throw hs.1

/-- **A run** upholds the invariant, and has filled its range when it ends. -/
theorem execute_spec (hfile : ∀ seq, ∀ ledger ∈ file seq, ledger.sequence = seq)
    (start last : ℤ) (keepPartitions reindex : Bool) (hs : Invariant seeded s) :
    Yields drift seeded file (execute start last keepPartitions reindex) (Finished seeded) s := by
  have htrue : Persistent fun _ : Store Row => True := persistent_const True
  have hs : Holds seeded (fun _ => True) s := ⟨hs, trivial⟩
  unfold execute
  refine yields_bind (checkRange_spec htrue start last hs) fun _ s hs => ?_
  refine yields_bind (createTempDir_spec htrue hs) fun _ s hs => ?_
  refine yields_bind (preflight_spec htrue hs) fun _ s hs => ?_
  cases hpartitions : partitionsForRange start last with
  | none => exact yields_throw hs.1
  | some partitions =>
      refine yields_bind (resumeState_spec htrue start last reindex hs) fun completed s hs => ?_
      set K : Store Row → Prop := fun s => True ∧ ∀ seq ∈ completed, HasRow seeded seq s with hK
      have hkept : Persistent K := htrue.and fun s s' h hgrows seq hseq =>
        persistent_hasRow seq s s' (h seq hseq) hgrows
      have hdone : ∀ s, K s → ∀ p ∈ partitions,
          partitionFullyDone p start last completed = true → Filled seeded start last p s :=
        fun s h p _ hfull => filled_of_partitionFullyDone hfull h.2
      refine yields_bind (starting_spec hkept (fun s h p hp => ?_) hs) fun _ s hs => ?_
      · exact hdone s h p (List.mem_of_mem_filter hp) (List.mem_filter.mp hp).2
      refine runTodo_spec hfile hkept keepPartitions (fun s h => h.2) (fun s h hfilled => ?_) hs
      intro seq hclosed hstart hlast
      obtain ⟨p, hp, hholds⟩ := exists_partition hpartitions hstart hlast
      have hasked := mem_clamped hclosed hstart hlast hholds
      -- the partition of the ledger is left to do, or was done before
      by_cases hfull : partitionFullyDone p start last completed = true
      · exact hdone s h p hp hfull seq hasked
      · exact hfilled p (List.mem_filter.mpr ⟨hp, by simpa using hfull⟩) seq hasked

/-- **Resuming loses no ledger.**  Whatever ranges the runs are for and wherever they stop,
a `ledgers` row is that of a staging all of whose other rows were acknowledged; the ledgers
a run leaves out as done have their rows, and so have those of a partition whose folder it
removes as indexed; and a run that ends without skipping a partition leaves every closed
ledger of its range with a row. -/
theorem ledgers_complete (seeded : List LedgerRow) (file : ℤ → List LedgerRow)
    (hfile : ∀ seq, ∀ ledger ∈ file seq, ledger.sequence = seq)
    (c : Config (world Row seeded file) (Except BackfillError RunSummary))
    (hreach : Reachable (world Row seeded file) IsRun (fresh, []) c) :
    (∀ marker ∈ c.env.1.ledgers, ∃ staged writer,
      c.env.1.stagings[marker.staging]? = some staged ∧ staged.ledgerRows = [marker] ∧
      ∀ table, ∀ row ∈ staged.rows table,
        (writer, table, row) ∈ c.env.1.acked ∧ (table, row) ∈ c.env.1.rows) ∧
    (∀ report ∈ c.env.2, ∀ p ∈ report.done, ∀ seq,
      (p.clamped report.start report.last).1 ≤ seq →
      seq ≤ (p.clamped report.start report.last).2 → HasRow seeded seq c.env.1) ∧
    ∀ summary, c.running = some (.ret (.ok summary)) →
      summary.partitionsSkippedS3Incomplete = 0 →
      ∀ seq, FIRST_CLOSED_LEDGER ≤ seq → summary.start ≤ seq → seq ≤ summary.last →
        HasRow seeded seq c.env.1 := by
  have hstable : Stable (world Row seeded file) (Invariant seeded) := by
    rintro ⟨s, reports⟩ ⟨s', reports'⟩ ⟨hs, hsound⟩ ⟨hdrift, rfl⟩
    exact ⟨hs.drift persistent_anytime hdrift, kept_sound s s' _ hsound (.inl hdrift)⟩
  have hinitial : Invariant seeded ((fresh, []) : (world Row seeded file).State) :=
    ⟨consistent_fresh, fun report hreport => by cases hreport⟩
  -- one run, whatever the runs before it left behind
  have hruns : ∀ p, IsRun p → ∀ s, Invariant seeded s →
      Upholds (world Row seeded file) (Invariant seeded) p (fun result s =>
        ∀ summary, result = .ok summary → Finished seeded summary s.1) s := by
    rintro _ ⟨start, last, keepPartitions, rfl⟩ s hs
    refine upholds_imp (fun result s hs => ?_) (execute_spec hfile _ _ keepPartitions false hs)
    rintro summary rfl
    exact hs.now.1
  have hinv : Invariant seeded c.env :=
    invariant_of_upholds hstable (fun p hp s hs => upholds_imp (fun _ _ _ => trivial)
      (hruns p hp s hs)) hinitial hreach
  refine ⟨fun marker hmarker => ?_, hinv.2, fun summary hsummary => ?_⟩
  · obtain ⟨staged, writer, hstaged, hledger, hrows⟩ :=
      hinv.1.complete marker (hinv.1.ledgers_sent marker hmarker)
    exact ⟨staged, writer, hstaged, hledger, fun table row hrow =>
      ⟨hrows table row hrow, hinv.1.acked_stored writer table row (hrows table row hrow)⟩⟩
  · exact returned_of_upholds hstable hruns hinitial hreach hsummary summary rfl

/-! ## A run that ends -/

/-- The `ledgers` row of an otherwise empty ledger. -/
def bareLedger (sequence : ℤ) : LedgerRow :=
  { sequence := sequence, hash := 0, closedAt := 0, protocolVersion := 25, transactionCount := 0,
    baseFee := 100 }

/-- An archive of such ledgers. -/
def bareArchive (seq : ℤ) : List LedgerRow := [bareLedger seq]

/-- One row in one table, beside the ledger row. -/
def oneRow : StreamTable → List ℕ
  | .accounts => [7]
  | _ => []

abbrev ArchiveRuns (c : Config (world ℕ [] bareArchive) (Except BackfillError RunSummary)) :
    Prop :=
  Reachable (world ℕ [] bareArchive) IsRun (fresh, []) c

private theorem ArchiveRuns.db {s s' : Store ℕ} {reports : List DoneReport}
    {p : Prog (backfill ℕ) (Except BackfillError RunSummary)}
    (h : ArchiveRuns ⟨(s, reports), some p⟩) (op : DbOp ℕ) (answer : (clickHouse ℕ).Ans op)
    {rest : (clickHouse ℕ).Ans op → Prog (backfill ℕ) _}
    (hp : p = .ask (I := backfill ℕ) (.inl op) rest) (hanswer : s.Answers [] op answer s') :
    ArchiveRuns ⟨(s', reports), some (rest answer)⟩ :=
  Reachable.answer (E := world ℕ [] bareArchive) h hp ⟨hanswer, rfl⟩

private theorem ArchiveRuns.ask {s : Store ℕ} {reports reports' : List DoneReport}
    {p : Prog (backfill ℕ) (Except BackfillError RunSummary)}
    (h : ArchiveRuns ⟨(s, reports), some p⟩) (op : RunnerOp) (answer : runner.Ans op)
    {rest : runner.Ans op → Prog (backfill ℕ) _}
    (hp : p = .ask (I := backfill ℕ) (.inr op) rest)
    (hanswer : RunnerAnswers [] bareArchive (s, reports) op answer reports') :
    ArchiveRuns ⟨(s, reports'), some (rest answer)⟩ :=
  Reachable.answer (E := world ℕ [] bareArchive) h hp ⟨hanswer, rfl⟩

private theorem partitions_two : partitionsForRange 2 2 = some [⟨0, 63999⟩] := by
  have hstep : partitionsForRange 2 2 = (partitionsFrom 64000 2).map (⟨0, 63999⟩ :: ·) := by
    rw [partitionsForRange, partitionsFrom]
    rfl
  rw [hstep, partitionsFrom]
  rfl

/-- A run with the partitions of its range. -/
private theorem execute_of_partitions {start last : ℤ} {partitions : List Partition}
    (h : partitionsForRange start last = some partitions) (keepPartitions reindex : Bool) :
    (execute start last keepPartitions reindex : Run ℕ RunSummary) = (do
      checkRange start last
      Runner.createTempDir
      Runner.preflight
      let completed ← resumeState start last reindex
      Runner.starting start last (partitions.filter (partitionFullyDone · start last completed))
      runTodo keepPartitions start last completed
        (partitions.filter fun p => !partitionFullyDone p start last completed)) := by
  simp only [execute, h]

/-- A run over the first closed ledger comes to the work it has left, all of it while the
ledger has no row. -/
private theorem runs_started {s : Store ℕ} {reports : List DoneReport}
    (hidle : ArchiveRuns ⟨(s, reports), none⟩) (hnone : s.ledgers = []) :
    ArchiveRuns ⟨(s, reports ++ [⟨2, 2, []⟩]), some (runTodo false 2 2 [] [⟨0, 63999⟩]).run⟩ := by
  have hwake : ArchiveRuns ⟨(s, reports), some (execute 2 2 false false).run⟩ :=
    hidle.tail (.wake ⟨2, 2, false, rfl⟩)
  rw [execute_of_partitions partitions_two] at hwake
  have htemp := ArchiveRuns.ask hwake .createTempDir (.ok ()) rfl rfl
  have hpreflight := ArchiveRuns.ask htemp .preflight (.ok ()) rfl rfl
  have htable : s.ledgersTable [] = [] := by rw [ledgersTable, hnone]; rfl
  have hcompleted := ArchiveRuns.ask hpreflight (.loadCompleted 2 2) (.ok []) rfl
    ⟨rfl, fun rows h => by cases h; rw [htable]; rfl⟩
  exact ArchiveRuns.ask hcompleted (.starting 2 2 []) () rfl rfl

/-- What the first run leaves: the row it sent, which was stored although the run was killed
before the request ended. -/
private def afterKill : Store ℕ :=
  { fresh with
    rows := [(.accounts, 7)]
    sent := [(.accounts, 7)]
    stagings := [{ ledgerRows := [⟨0, bareLedger 2⟩], rows := oneRow }]
    writers := 1 }

/-- A run that is killed while it streams the rows of its ledger. -/
private theorem runs_killed : ArchiveRuns ⟨(afterKill, [⟨2, 2, []⟩]), none⟩ := by
  have hstarted : ArchiveRuns ⟨(fresh, [⟨2, 2, []⟩]), some (runTodo false 2 2 [] _).run⟩ :=
    runs_started .refl rfl
  have hdir := ArchiveRuns.ask hstarted (.createDirAll ⟨0, 63999⟩) (.ok ()) rfl rfl
  have hcount := ArchiveRuns.ask hdir (.countFiles ⟨0, 63999⟩) (.ok 63998) rfl rfl
  have hopen := ArchiveRuns.db hcount .openWriter (0 : ℕ) rfl ⟨rfl, rfl⟩
  have hexists := ArchiveRuns.ask hopen (.fileExists ⟨0, 63999⟩ 2) true rfl rfl
  have hread := ArchiveRuns.ask hexists (.readLedgers ⟨0, 63999⟩ 2) (.ok [bareLedger 2]) rfl
    ⟨rfl, fun batch h => by cases h; rfl⟩
  have hmetadata := ArchiveRuns.ask hread (.contractMetadataWrites (bareLedger 2)) (.ok ()) rfl rfl
  have hstage := ArchiveRuns.db hmetadata (.stage (bareLedger 2)) (.ok (0, oneRow)) rfl ⟨rfl, rfl⟩
  have hinsert := ArchiveRuns.db hstage (.openInsert 0 .accounts) (.ok ()) rfl rfl
  have hwrite := ArchiveRuns.db hinsert (.write 0 .accounts 7) (.ok ()) rfl rfl
  -- the row lands after the kill
  exact (hwrite.tail .crash).tail (.drift ⟨.land List.mem_cons_self, rfl⟩)

/-- After a run that was killed, one over the same ledger, with all files of its partition on
the disk, stores the row again and gets to its end. -/
theorem runs_firstLedger :
    ∃ c : Config (world ℕ [] bareArchive) (Except BackfillError RunSummary), ArchiveRuns c ∧
      c.env.1.rows = [(.accounts, 7), (.accounts, 7)] ∧
      c.env.1.ledgers = [⟨1, bareLedger 2⟩] ∧ c.env.1.stagings.length = 2 ∧ c.env.1.writers = 2 ∧
      c.env.2 = [⟨2, 2, []⟩, ⟨2, 2, []⟩, ⟨2, 2, [⟨0, 63999⟩]⟩] ∧
      ∃ summary, c.running = some (.ret (.ok summary)) ∧ summary.start = 2 ∧ summary.last = 2 ∧
        summary.partitionsSkippedS3Incomplete = 0 := by
  have hstarted : ArchiveRuns
      ⟨(afterKill, [⟨2, 2, []⟩, ⟨2, 2, []⟩]), some (runTodo false 2 2 [] _).run⟩ :=
    runs_started runs_killed rfl
  -- the partition is still on the disk
  have hdir := ArchiveRuns.ask hstarted (.createDirAll ⟨0, 63999⟩) (.ok ()) rfl rfl
  have hcount := ArchiveRuns.ask hdir (.countFiles ⟨0, 63999⟩) (.ok 63998) rfl rfl
  have hopen := ArchiveRuns.db hcount .openWriter (1 : ℕ) rfl ⟨rfl, rfl⟩
  -- its ledger is staged and streamed, and its file deleted
  have hexists := ArchiveRuns.ask hopen (.fileExists ⟨0, 63999⟩ 2) true rfl rfl
  have hread := ArchiveRuns.ask hexists (.readLedgers ⟨0, 63999⟩ 2) (.ok [bareLedger 2]) rfl
    ⟨rfl, fun batch h => by cases h; rfl⟩
  have hmetadata := ArchiveRuns.ask hread (.contractMetadataWrites (bareLedger 2)) (.ok ()) rfl rfl
  have hstage := ArchiveRuns.db hmetadata (.stage (bareLedger 2)) (.ok (1, oneRow)) rfl ⟨rfl, rfl⟩
  have hinsert := ArchiveRuns.db hstage (.openInsert 1 .accounts) (.ok ()) rfl rfl
  have hwrite := ArchiveRuns.db hinsert (.write 1 .accounts 7) (.ok ()) rfl rfl
  have hremove := ArchiveRuns.ask hwrite (.removeFile ⟨0, 63999⟩ 2) (.ok ()) rfl rfl
  -- the commit, marker last
  have hend := ArchiveRuns.db hremove (.endInsert 1 .accounts [7]) (.ok ()) rfl rfl
  have hledgers := ArchiveRuns.db hend (.openLedgers 1) (.ok ()) rfl rfl
  have hmarker := ArchiveRuns.db hledgers (.writeLedgers 1 ⟨1, bareLedger 2⟩) (.ok ()) rfl rfl
  have hdone := ArchiveRuns.db hmarker (.endLedgers 1 [⟨1, bareLedger 2⟩]) (.ok ()) rfl rfl
  have hclean := ArchiveRuns.ask hdone (.removeDirAll ⟨0, 63999⟩ (some (2, 2))) (.ok ()) rfl rfl
  have hbootstrap := ArchiveRuns.ask hclean (.bootstrapAccountState 2 2) (.ok ()) rfl rfl
  exact ⟨_, hbootstrap, rfl, rfl, rfl, rfl, rfl, _, rfl, rfl, rfl, rfl⟩

/-- After a run that was killed and one that ended, the ledger of the partition that was
removed has its row, and both rows of the table are stored. -/
theorem ledgers_complete_firstLedger :
    ∃ c : Config (world ℕ [] bareArchive) (Except BackfillError RunSummary),
      c.env.1.rows = [(.accounts, 7), (.accounts, 7)] ∧
      (∀ marker ∈ c.env.1.ledgers, ∃ staged writer,
        c.env.1.stagings[marker.staging]? = some staged ∧ staged.ledgerRows = [marker] ∧
        ∀ table, ∀ row ∈ staged.rows table,
          (writer, table, row) ∈ c.env.1.acked ∧ (table, row) ∈ c.env.1.rows) ∧
      (⟨2, 2, [⟨0, 63999⟩]⟩ ∈ c.env.2 ∧
        ∀ seq, 2 ≤ seq → seq ≤ 2 → HasRow [] seq c.env.1) ∧
      HasRow [] 2 c.env.1 := by
  obtain ⟨c, hruns, hstored, -, -, -, hreports, summary, hended, hstart, hlast, hskipped⟩ :=
    runs_firstLedger
  obtain ⟨hacked, hdone, hfinished⟩ :=
    ledgers_complete [] bareArchive (fun seq ledger h => by cases List.mem_singleton.mp h; rfl) c
      hruns
  have hcleaned : ⟨2, 2, [⟨0, 63999⟩]⟩ ∈ c.env.2 := by rw [hreports]; simp
  refine ⟨c, hstored, hacked, ⟨hcleaned, ?_⟩, hfinished summary hended hskipped 2 (by decide) ?_ ?_⟩
  · exact hdone _ hcleaned ⟨0, 63999⟩ List.mem_cons_self
  · exact hstart.le
  · exact hlast.ge

end SorobanExplorer.Backfill
