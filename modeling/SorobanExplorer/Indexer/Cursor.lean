import SorobanExplorer.Indexer.Reconcile
import SorobanExplorer.Persist.WriterSpec

/-!
# The commit marker is the cursor

The processor keeps no state of its own between wakes: where to go on is read
from the `ledgers` table, whose rows are the commit markers.  This file follows
`reconcile` through every failure and shows what the table then means.

## Strategy

`Ready next` says that every ledger from the first one read up to `next` is
stored.  It is what the loop knows of the ledger it is about to read, what a
marker's `prior` records, and it is persistent, so no failure, retry or late
row can take it away.  A wake re-establishes it from the stored maximum alone
(`maxSequence_spec`): the newest marker was sent when everything below it was
stored, and it is stored itself.
-/

namespace SorobanExplorer.Indexer

open Interaction Persist Store

variable {Row : Type}

/-! ## The environment -/

/-- S3 as the processor sees it: a `HEAD` or a `GET` may fail or find nothing at
any time; a `GET` that succeeds returns the batch of the file under that key. -/
def lake (file : String → List LedgerRow) : Environment handlerInterface where
  State := Unit
  answers
    | _, .headObject _, _, _ => True
    | _, .getObject key, answer, _ => ∀ batch, answer = .ok batch → batch = file key
    | _, .contractMetadataWrites _, _, _ => True
  drift _ _ := False

/-- What the processor runs against: ClickHouse over the `seeded` ledgers, and
the files of S3. -/
abbrev world (Row : Type) (seeded : List LedgerRow) (file : String → List LedgerRow) :
    Environment ((clickHouse Row).sum handlerInterface) :=
  (store Row seeded).sum (lake file)

/-- The programs a wake may run: a reconcile under any time budget. -/
def Wake (Row : Type) (state : HandlerState)
    (p : Prog ((clickHouse Row).sum handlerInterface) (Except HandlerError Reconciled)) : Prop :=
  ∃ budget, p = (reconcile state budget).run

/-- The states of the processor: any sequence of wakes, failures, crashes and
late rows, over a store no wake has touched. -/
abbrev Runs (seeded : List LedgerRow) (file : String → List LedgerRow) (state : HandlerState)
    (c : Config (world Row seeded file) (Except HandlerError Reconciled)) : Prop :=
  Reachable (world Row seeded file) (Wake Row state) (fresh, ()) c

/-! ## What the cursor knows -/

/-- The first ledger the processor reads, if its store lets it read any. -/
def firstRead (seeded : List LedgerRow) (state : HandlerState) : Option ℤ :=
  firstLedgerToRead (maxSequence seeded) state.bucket

/-- Every ledger from the first one read up to `next` is stored. -/
def Ready (first : Option ℤ) (next : ℤ) (s : Store Row) : Prop :=
  ∃ start, first = some start ∧ start ≤ next ∧
    ∀ sequence, start ≤ sequence → sequence < next →
      ∃ marker ∈ s.ledgers, marker.row.sequence = sequence

variable {first : Option ℤ} {seeded : List LedgerRow} {state : HandlerState}

theorem persistent_ready (next : ℤ) : Persistent fun s : Store Row => Ready first next s := by
  rintro s s' ⟨start, hfirst, hstart, hstored⟩ hgrows
  refine ⟨start, hfirst, hstart, fun sequence hlow hhigh => ?_⟩
  obtain ⟨marker, hmarker, hsequence⟩ := hstored sequence hlow hhigh
  exact ⟨marker, hgrows.ledgers hmarker, hsequence⟩

theorem Ready.succ {next : ℤ} {s : Store Row} (h : Ready first next s)
    (hstored : ∃ marker ∈ s.ledgers, marker.row.sequence = next) :
    Ready first (next + 1) s := by
  obtain ⟨start, hfirst, hstart, hbelow⟩ := h
  refine ⟨start, hfirst, by omega, fun sequence hlow hhigh => ?_⟩
  rcases lt_or_eq_of_le (Int.lt_add_one_iff.mp hhigh) with hlt | rfl
  · exact hbelow sequence hlow hlt
  · exact hstored

/-- What is known before a marker is sent: the ledgers below it are stored. -/
abbrev readyRow (first : Option ℤ) (row : LedgerRow) : Store Row → Prop :=
  Ready first row.sequence

/-! ## The stored maximum -/

theorem le_maxSequence {rows : List LedgerRow} {row : LedgerRow} (hrow : row ∈ rows) :
    row.sequence ≤ maxSequence rows := by
  have hmem : row.sequence ∈ rows.map (·.sequence) := List.mem_map_of_mem hrow
  rw [maxSequence]
  cases hmax : (rows.map (·.sequence)).max? with
  | none =>
      rw [List.max?_eq_none_iff] at hmax
      rw [hmax] at hmem
      cases hmem
  | some max => exact (List.max?_eq_some_iff.mp hmax).2 _ hmem

theorem exists_eq_maxSequence {rows : List LedgerRow} (hpos : 0 < maxSequence rows) :
    ∃ row ∈ rows, row.sequence = maxSequence rows := by
  rw [maxSequence] at hpos ⊢
  cases hmax : (rows.map (·.sequence)).max? with
  | none => rw [hmax] at hpos; exact absurd hpos (lt_irrefl 0)
  | some max => exact List.mem_map.mp (List.max?_eq_some_iff.mp hmax).1

theorem firstLedgerToRead_spec {maxSeq start : ℤ} {bucket : String}
    (h : firstLedgerToRead maxSeq bucket = some start) : maxSeq < start ∧ 0 < start := by
  rw [firstLedgerToRead] at h
  split at h
  · cases h; omega
  · split at h
    · cases h; rw [FIRST_CLOSED_LEDGER]; omega
    · cases h

/-- **The cursor.**  Over a consistent store, everything below the ledger after
the stored maximum is stored. -/
theorem ready_of_maxSequence {s : Store Row}
    (hs : s.Consistent (readyRow (firstRead seeded state))) {next : ℤ}
    (hnext : firstLedgerToRead (maxSequence (s.ledgersTable seeded)) state.bucket = some next) :
    Ready (firstRead seeded state) next s := by
  cases hledgers : s.ledgers with
  | nil =>
      -- nothing was stored yet: this is the first read
      rw [ledgersTable, hledgers, List.map_nil, List.append_nil] at hnext
      exact ⟨next, hnext, le_rfl, fun sequence hlow hhigh => absurd hhigh (not_lt.mpr hlow)⟩
  | cons marker rest =>
      have hready : ∀ marker ∈ s.ledgers, Ready (firstRead seeded state)
          marker.row.sequence s := fun marker h => hs.prior marker (hs.ledgers_sent marker h)
      have hmarker : marker ∈ s.ledgers := by rw [hledgers]; exact List.mem_cons_self
      obtain ⟨start, hfirst, hstart, -⟩ := hready marker hmarker
      obtain ⟨hseeded, hpositive⟩ := firstLedgerToRead_spec hfirst
      have hle : marker.row.sequence ≤ maxSequence (s.ledgersTable seeded) :=
        le_maxSequence (List.mem_append_right _ (List.mem_map_of_mem hmarker))
      have hmaxpos : 0 < maxSequence (s.ledgersTable seeded) := by omega
      rw [firstLedgerToRead, if_pos hmaxpos, Option.some.injEq] at hnext
      subst hnext
      -- the newest row lies above every seeded one, so the processor stored it
      obtain ⟨row, hrow, hsequence⟩ := exists_eq_maxSequence hmaxpos
      rcases List.mem_append.mp hrow with hold | hnew
      · have := le_maxSequence hold
        omega
      · obtain ⟨newest, hnewest, rfl⟩ := List.mem_map.mp hnew
        rw [← hsequence]
        exact (hready newest hnewest).succ ⟨newest, hnewest, rfl⟩

/-! ## Following the handler -/

section Specs

variable {file : String → List LedgerRow} {P : Store Row → Prop}

/-- The handler upholds the commit-marker invariant; `Q` on success. -/
abbrev HandlerUpholds (seeded : List LedgerRow) (file : String → List LedgerRow)
    (first : Option ℤ) {α : Type} (p : Handler Row α) (Q : α → Store Row → Prop)
    (s : (world Row seeded file).State) : Prop :=
  UpholdsTry (E := world Row seeded file) (fun s => Consistent (readyRow first) s.1) p
    (fun value s => Q value s.1) (fun _ => True) s

theorem persistent_readyRow (first : Option ℤ) (row : LedgerRow) :
    Persistent fun s : Store Row => readyRow first row s :=
  persistent_ready row.sequence

/-- A persist that upholds `Q` still does under the retry envelope: every
attempt starts from what the first one knew. -/
theorem retryWithBackoff_spec {I : Interface} {E : Environment I} {Inv P : E.State → Prop}
    {Q : E.State → Prop} {isTransient : HandlerError → Bool}
    {op : ExceptT HandlerError (Prog I) Unit}
    (hop : ∀ s, Settled E Inv P s → UpholdsTry E Inv op (fun _ => Q) P s) :
    ∀ {backoffMs : List ℕ} {attempt : ℕ} {s : E.State}, Settled E Inv P s →
      UpholdsTry E Inv (retryWithBackoff isTransient op backoffMs attempt) (fun _ => Q) P s := by
  intro backoffMs
  induction backoffMs with
  | nil =>
      intro attempt s hs
      refine upholdsTry_bind (upholdsTry_lift (upholds_imp ?_ (hop s hs)))
      rintro (error | value) s' hs'
      · exact upholdsTry_throw hs'
      · exact upholdsTry_pure hs'
  | cons backoff rest ih =>
      intro attempt s hs
      refine upholdsTry_bind (upholdsTry_lift (upholds_imp ?_ (hop s hs)))
      rintro (error | value) s' hs'
      · -- retry with the rest of the schedule, or give up
        dsimp only
        split
        · exact ih hs'
        · exact upholdsTry_throw hs'
      · exact upholdsTry_pure hs'

theorem persistWithRetry_spec {s : Store Row} (ledger : LedgerRow)
    (hs : Known (readyRow first) (readyRow first ledger) s) :
    UpholdsTry (store Row seeded) (Consistent (readyRow first)) (persistWithRetry ledger)
      (fun _ s => Ready first (ledger.sequence + 1) s) (fun _ => True) s := by
  have hready : Persistent fun s : Store Row => readyRow first ledger s :=
    persistent_readyRow first ledger
  refine upholdsTry_imp (fun _ _ h => h.now) (fun _ _ => trivial)
    (retryWithBackoff_spec (E := store Row seeded) (P := readyRow first ledger)
      (Q := Ready first (ledger.sequence + 1)) ?_
      (settled_of_known (persistent_readyRow first) hready hs))
  intro s' hs'
  refine upholdsTry_adapt (upholdsTry_imp ?_ (fun _ h => h)
    (persistLedgerClickhouse_spec (persistent_readyRow first) hready ⟨hs'.inv, hs'.now⟩ ledger
      fun _ h => h))
  intro _ s'' hs''
  obtain ⟨hstill, marker, hmarker, hrow⟩ := hs''.now
  exact Ready.succ hstill ⟨marker, hmarker, by rw [hrow]⟩

/-- The stored maximum tells which ledger is ready to be read. -/
theorem maxSequence_spec {s : Store Row}
    (hs : s.Consistent (readyRow (firstRead seeded state))) :
    UpholdsTry (E := store Row seeded)
      (Consistent (readyRow (firstRead seeded state))) Request.maxSequence
      (fun max s => ∀ next, firstLedgerToRead max state.bucket = some next →
        Ready (firstRead seeded state) next s) (fun _ => True) s := by
  refine upholds_request .maxSequence (persistent_readyRow _) (persistent_const True) ?_
    ⟨hs, trivial⟩ (fun _ _ => trivial) ?_
  · rintro (error | max)
    · exact persistent_const True
    · exact fun s s' h hgrows next hnext => persistent_ready next s s' (h next hnext) hgrows
  · rintro s (error | max) s' hknown ⟨rfl, hmax⟩
    · trivial
    · intro next hnext
      rw [hmax max rfl] at hnext
      exact ready_of_maxSequence hknown.1 hnext

private theorem handlerRequest_spec (op : HandlerOp) {R : handlerInterface.Ans op → Prop}
    {s : (world Row seeded file).State} (hP : Persistent P) (hs : Known (readyRow first) P s.1)
    (hR : ∀ answer, (lake file).answers () op answer () → R answer) :
    Upholds (E := world Row seeded file) (fun s => Consistent (readyRow first) s.1)
      (.perform (I := (clickHouse Row).sum handlerInterface) (.inr op))
      (fun answer s => P s.1 ∧ R answer) s :=
  upholds_perform_inr (settled_of_known (persistent_readyRow first) hP hs)
    fun _ answer _ hanswer => hR answer hanswer

theorem processLedger_spec {s : (world Row seeded file).State} (ledger : LedgerRow)
    (hs : Known (readyRow first) (readyRow first ledger) s.1) :
    HandlerUpholds seeded file first (processLedger ledger)
      (fun _ s => Ready first (ledger.sequence + 1) s) s := by
  have hready : Persistent fun s : Store Row => readyRow first ledger s :=
    persistent_readyRow first ledger
  refine upholdsTry_bind (upholds_imp ?_ (handlerRequest_spec (.contractMetadataWrites ledger)
    (R := fun _ => True) hready hs fun _ _ => trivial))
  rintro (error | value) s₁ hs₁
  · trivial
  · refine upholdsTry_bind (upholds_imp ?_
      (upholds_inl (persistWithRetry_spec ledger ⟨hs₁.inv, hs₁.now.1⟩)))
    rintro (error | retries) s₂ hs₂
    · trivial
    · exact upholdsTry_pure hs₂

/-- Reading the file of a ledger and persisting it stores that ledger. -/
theorem processS3Object_spec {s : (world Row seeded file).State} {next : ℤ} {key : String}
    (hfile : (file key).map (·.sequence) = [next])
    (hs : Known (readyRow first) (Ready first next) s.1) :
    HandlerUpholds seeded file first (processS3Object key)
      (fun _ s => Ready first (next + 1) s) s := by
  obtain ⟨ledger, hledger, rfl⟩ : ∃ ledger, file key = [ledger] ∧ ledger.sequence = next := by
    match hbatch : file key with
    | [] => rw [hbatch] at hfile; cases hfile
    | [ledger] => rw [hbatch] at hfile; exact ⟨ledger, rfl, by simpa using hfile⟩
    | first :: second :: rest => rw [hbatch] at hfile; simp at hfile
  have hready : Persistent fun s : Store Row => readyRow first ledger s :=
    persistent_readyRow first ledger
  refine upholdsTry_bind (upholds_imp ?_ (handlerRequest_spec (.getObject key)
    (R := fun answer => ∀ batch, answer = .ok batch → batch = [ledger]) hready hs
    fun answer h batch hbatch => (h batch hbatch).trans hledger))
  rintro (error | batch) s₁ hs₁
  · trivial
  · obtain ⟨hready₁, hbatch⟩ := hs₁.now
    cases hbatch batch rfl
    refine upholdsTry_bind (upholdsTry_imp ?_ (fun _ h => h)
      (processLedger_spec ledger ⟨hs₁.inv, hready₁⟩))
    intro _ s₂ hs₂
    exact upholdsTry_pure hs₂

theorem reconcileLoop_spec
    (hfile : ∀ ledger, (file (ledgerS3Key state.keyPrefix ledger)).map (·.sequence) = [ledger]) :
    ∀ {budget : ℕ} {next : ℤ} {done : Reconciled} {s : (world Row seeded file).State},
      Known (readyRow first) (Ready first next) s.1 →
      HandlerUpholds seeded file first (reconcileLoop state budget next done)
        (fun _ _ => True) s := by
  intro budget
  induction budget with
  | zero =>
      intro next done s hs
      exact upholdsTry_pure ((settled_of_known (persistent_readyRow first)
        (persistent_ready next) hs).fst.imp fun _ _ => trivial)
  | succ budget ih =>
      intro next done s hs
      refine upholdsTry_bind (upholds_imp ?_ (handlerRequest_spec
        (.headObject (ledgerS3Key state.keyPrefix next)) (R := fun _ => True)
        (persistent_ready next) hs fun _ _ => trivial))
      rintro (error | found) s₁ hs₁
      · trivial
      · cases found with
        | false => exact upholdsTry_pure (hs₁.imp fun _ _ => trivial)
        | true =>
            refine upholdsTry_bind (upholdsTry_imp ?_ (fun _ h => h)
              (processS3Object_spec (hfile next) ⟨hs₁.inv, hs₁.now.1⟩))
            intro _ s₂ hs₂
            exact ih ⟨hs₂.inv, hs₂.now⟩

theorem reconcile_spec
    (hfile : ∀ ledger, (file (ledgerS3Key state.keyPrefix ledger)).map (·.sequence) = [ledger])
    (budget : ℕ) {s : (world Row seeded file).State}
    (hs : s.1.Consistent (readyRow (firstRead seeded state))) :
    HandlerUpholds seeded file (firstRead seeded state) (reconcile state budget)
      (fun _ _ => True) s := by
  refine upholdsTry_bind (upholds_imp ?_ (upholds_inl (upholdsTry_adapt
    (f := HandlerError.clickHouse) (maxSequence_spec hs))))
  rintro (error | max) s₁ hs₁
  · trivial
  · dsimp only
    cases hnext : firstLedgerToRead max state.bucket with
    | none => exact upholdsTry_pure (hs₁.imp fun _ _ => trivial)
    | some next => exact reconcileLoop_spec hfile ⟨hs₁.inv, hs₁.now next hnext⟩

end Specs

/-! ## Every reachable state -/

theorem consistent_of_runs {file : String → List LedgerRow}
    (hfile : ∀ ledger, (file (ledgerS3Key state.keyPrefix ledger)).map (·.sequence) = [ledger])
    {c : Config (world Row seeded file) (Except HandlerError Reconciled)}
    (hruns : Runs seeded file state c) :
    c.env.1.Consistent (readyRow (firstRead seeded state)) := by
  set first := firstRead seeded state with hfirst
  have hstable : Stable (world Row seeded file) fun s => s.1.Consistent (readyRow first) := by
    rintro s s' hs (⟨hdrift, -⟩ | ⟨-, hsame⟩)
    · exact Consistent.drift (persistent_readyRow first) hs hdrift
    · rw [hsame]; exact hs
  refine invariant_of_upholds (E := world Row seeded file) hstable ?_ consistent_fresh hruns
  rintro p ⟨budget, rfl⟩ s hs
  exact upholds_imp (fun _ _ _ => trivial) (reconcile_spec hfile budget hs)

/-- A finite set of integers from `start` on with nothing missing below any of
its members is a run from `start`. -/
private theorem exists_run {stored : List ℤ} {start : ℤ}
    (hclosed : ∀ q ∈ stored, start ≤ q ∧ ∀ p, start ≤ p → p < q → p ∈ stored) :
    ∃ n : ℕ, ∀ q, q ∈ stored ↔ start ≤ q ∧ q < start + n := by
  cases hmax : stored.max? with
  | none =>
      rw [List.max?_eq_none_iff] at hmax
      subst hmax
      refine ⟨0, fun q => ?_⟩
      simp only [List.not_mem_nil, false_iff]
      omega
  | some max =>
      obtain ⟨hmem, hle⟩ := List.max?_eq_some_iff.mp hmax
      obtain ⟨hstart, hbelow⟩ := hclosed max hmem
      refine ⟨(max + 1 - start).toNat, fun q => ⟨fun hq => ?_, fun ⟨hlow, hhigh⟩ => ?_⟩⟩
      · have := hle q hq
        have := (hclosed q hq).1
        omega
      · rcases lt_or_eq_of_le (show q ≤ max by omega) with hlt | rfl
        · exact hbelow q hlow hlt
        · exact hmem

/-- **Commit marker and cursor.**  In every state the processor can reach, a
stored `ledgers` row comes from a staging all of whose other rows were
acknowledged, and are stored; and the sequences the processor stored form one
gap-free run upward from the first ledger it read. -/
theorem commitMarker_and_cursor {file : String → List LedgerRow}
    (hfile : ∀ ledger, (file (ledgerS3Key state.keyPrefix ledger)).map (·.sequence) = [ledger])
    {c : Config (world Row seeded file) (Except HandlerError Reconciled)}
    (hruns : Runs seeded file state c) :
    (∀ marker ∈ c.env.1.ledgers, ∃ staged writer,
      c.env.1.stagings[marker.staging]? = some staged ∧ staged.ledgerRows = [marker] ∧
      ∀ table, ∀ row ∈ staged.rows table,
        (writer, table, row) ∈ c.env.1.acked ∧ (table, row) ∈ c.env.1.rows) ∧
    match firstLedgerToRead (maxSequence seeded) state.bucket with
    | none => c.env.1.ledgers = []
    | some start => ∃ n : ℕ, ∀ sequence,
        sequence ∈ c.env.1.ledgers.map (·.row.sequence) ↔
          start ≤ sequence ∧ sequence < start + n := by
  have hs := consistent_of_runs hfile hruns
  -- below every stored row the ledgers are stored down to the start
  have hready : ∀ marker ∈ c.env.1.ledgers,
      Ready (firstRead seeded state) marker.row.sequence c.env.1 :=
    fun marker h => hs.prior marker (hs.ledgers_sent marker h)
  constructor
  · intro marker hmarker
    obtain ⟨staged, writer, hstaged, hledger, hrows⟩ :=
      hs.complete marker (hs.ledgers_sent marker hmarker)
    exact ⟨staged, writer, hstaged, hledger, fun table row hrow =>
      ⟨hrows table row hrow, hs.acked_stored writer table row (hrows table row hrow)⟩⟩
  · split
    · rename_i hnone
      rw [List.eq_nil_iff_forall_not_mem]
      intro marker hmarker
      obtain ⟨start, hstart, -⟩ := hready marker hmarker
      rw [firstRead, hnone] at hstart
      cases hstart
    · rename_i start hsome
      -- a run is given by what lies below each of its members
      refine exists_run fun q hq => ?_
      obtain ⟨marker, hmarker, rfl⟩ := List.mem_map.mp hq
      obtain ⟨start', hstart', hle, hbelow⟩ := hready marker hmarker
      rw [firstRead, hsome, Option.some.injEq] at hstart'
      subst hstart'
      refine ⟨hle, fun p hlow hhigh => ?_⟩
      obtain ⟨lower, hlower, hsequence⟩ := hbelow p hlow hhigh
      exact List.mem_map.mpr ⟨lower, hlower, hsequence⟩

/-! ## A run that stores a ledger -/

/-- The `ledgers` row of an otherwise empty ledger. -/
private def emptyLedger (sequence : ℤ) : LedgerRow :=
  { sequence := sequence, hash := 0, closedAt := 0, protocolVersion := 25, transactionCount := 0,
    baseFee := 100 }

/-- A lake whose file under the key of a ledger holds that ledger. -/
private noncomputable def emptyLake : String → List LedgerRow :=
  Function.extend (ledgerS3Key "") (fun ledger => [emptyLedger ledger]) fun _ => []

private theorem emptyLake_key (ledger : ℤ) :
    emptyLake (ledgerS3Key "" ledger) = [emptyLedger ledger] :=
  (ledgerS3Key_injective "").extend_apply _ _ ledger

private def lakeState : HandlerState := { bucket := PUBLIC_BUCKET, keyPrefix := "" }

/-- One row in one table, beside the ledger row. -/
private def oneAccount : StreamTable → List ℕ
  | .accounts => [7]
  | _ => []

private abbrev LakeRuns (c : Config (world ℕ [] emptyLake) (Except HandlerError Reconciled)) :=
  Runs [] emptyLake lakeState c

private theorem LakeRuns.db {s s' : Store ℕ}
    {p : Prog ((clickHouse ℕ).sum handlerInterface) (Except HandlerError Reconciled)}
    (h : LakeRuns ⟨(s, ()), some p⟩) (op : DbOp ℕ) (answer : (clickHouse ℕ).Ans op)
    {rest : (clickHouse ℕ).Ans op → Prog ((clickHouse ℕ).sum handlerInterface) _}
    (hp : p = .ask (I := (clickHouse ℕ).sum handlerInterface) (.inl op) rest)
    (hanswer : s.Answers [] op answer s') : LakeRuns ⟨(s', ()), some (rest answer)⟩ :=
  Reachable.answer (E := world ℕ [] emptyLake) h hp ⟨hanswer, rfl⟩

private theorem LakeRuns.handler {s : Store ℕ}
    {p : Prog ((clickHouse ℕ).sum handlerInterface) (Except HandlerError Reconciled)}
    (h : LakeRuns ⟨(s, ()), some p⟩) (op : HandlerOp) (answer : handlerInterface.Ans op)
    {rest : handlerInterface.Ans op → Prog ((clickHouse ℕ).sum handlerInterface) _}
    (hp : p = .ask (I := (clickHouse ℕ).sum handlerInterface) (.inr op) rest)
    (hanswer : (lake emptyLake).answers () op answer ()) :
    LakeRuns ⟨(s, ()), some (rest answer)⟩ :=
  Reachable.answer (E := world ℕ [] emptyLake) h hp ⟨hanswer, rfl⟩

/-- An empty database reading the lake stores its first ledger in one wake. -/
private theorem runs_emptyLake :
    ∃ c : Config (world ℕ [] emptyLake) (Except HandlerError Reconciled),
      LakeRuns c ∧ ∃ marker ∈ c.env.1.ledgers, marker.row.sequence = 2 := by
  have hidle : LakeRuns ⟨(fresh, ()), none⟩ := .refl
  have hwake : LakeRuns ⟨(fresh, ()), some (reconcile lakeState 1).run⟩ :=
    hidle.tail (.wake ⟨1, rfl⟩)
  -- the table is empty, the file of ledger 2 is there, and it is read
  have hmax := LakeRuns.db hwake .maxSequence (.ok 0) rfl ⟨rfl, fun max h => by cases h; rfl⟩
  have hhead := LakeRuns.handler hmax (.headObject (ledgerS3Key "" 2)) (.ok true) rfl trivial
  have hget := LakeRuns.handler hhead (.getObject (ledgerS3Key "" 2)) (.ok [emptyLedger 2]) rfl
    fun batch h => by cases h; exact (emptyLake_key 2).symm
  have hmetadata := LakeRuns.handler hget (.contractMetadataWrites (emptyLedger 2)) (.ok ()) rfl
    trivial
  have hstage := LakeRuns.db hmetadata (.stage (emptyLedger 2)) (.ok (0, oneAccount)) rfl
    ⟨rfl, rfl⟩
  -- one writer: the account row, its acknowledgement, then the marker
  have hopen := LakeRuns.db hstage .openWriter (0 : ℕ) rfl ⟨rfl, rfl⟩
  have hinsert := LakeRuns.db hopen (.openInsert 0 .accounts) (.ok ()) rfl rfl
  have hwrite := LakeRuns.db hinsert (.write 0 .accounts 7) (.ok ()) rfl rfl
  have hend := LakeRuns.db hwrite (.endInsert 0 .accounts [7]) (.ok ()) rfl rfl
  have hledgers := LakeRuns.db hend (.openLedgers 0) (.ok ()) rfl rfl
  have hmarker := LakeRuns.db hledgers (.writeLedgers 0 ⟨0, emptyLedger 2⟩) (.ok ()) rfl rfl
  have hdone := LakeRuns.db hmarker (.endLedgers 0 [⟨0, emptyLedger 2⟩]) (.ok ()) rfl rfl
  exact ⟨_, hdone, ⟨0, emptyLedger 2⟩, List.mem_cons_self, rfl⟩

/-- The first ledger of the lake, stored in one wake, with its account row. -/
theorem commitMarker_and_cursor_emptyLake :
    ∃ c : Config (world ℕ [] emptyLake) (Except HandlerError Reconciled),
      (∃ marker ∈ c.env.1.ledgers, marker.row.sequence = 2) ∧
      (∀ marker ∈ c.env.1.ledgers, ∃ staged writer,
        c.env.1.stagings[marker.staging]? = some staged ∧ staged.ledgerRows = [marker] ∧
        ∀ table, ∀ row ∈ staged.rows table,
          (writer, table, row) ∈ c.env.1.acked ∧ (table, row) ∈ c.env.1.rows) ∧
      ∃ n : ℕ, ∀ sequence : ℤ,
        sequence ∈ c.env.1.ledgers.map (·.row.sequence) ↔ 2 ≤ sequence ∧ sequence < 2 + n := by
  obtain ⟨c, hruns, hstored⟩ := runs_emptyLake
  have hfile : ∀ ledger, (emptyLake (ledgerS3Key lakeState.keyPrefix ledger)).map (·.sequence) =
      [ledger] := by
    intro ledger
    rw [lakeState, emptyLake_key]
    rfl
  exact ⟨c, hstored, commitMarker_and_cursor hfile hruns⟩

end SorobanExplorer.Indexer
