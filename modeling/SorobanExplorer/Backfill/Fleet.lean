import SorobanExplorer.Backfill.Resume
import SorobanExplorer.Indexer.Cursor
import SorobanExplorer.Lib.Fleet

/-!
# Processors and backfills at once

Ledger processors and backfill runs write to one ClickHouse, each in its own order, and
none waits for another.  What the writer and the backfill know when they are alone they
still know here: the rows of others only add to the tables, and no writer sends a
`ledgers` row before its ledger is complete.

## Strategy

The moves of the other writers are `crowd`: the store grows and stays `Consistent`.  They
are harmless to a writer, so the specs of the writer and of the backfill apply as they
stand; the processor is followed once more, since what its cursor means when it is alone
(`Ready`) does not survive a backfill of later ledgers.  `Fleet.safe_of_reachable` then
puts the services together.
-/

namespace SorobanExplorer.Backfill

open Interaction Persist Store Indexer

variable {Row : Type} {seeded : List LedgerRow}

/-! ## The moves of the other writers -/

/-- What moves the store of one writer among others: late rows, and requests of the
others, which take nothing away and keep the invariant. -/
def crowd (s s' : Store Row) : Prop :=
  s.Drift s' ∨ keeping (Consistent anytime) Grows s s'

instance : @Harmless Row crowd anytime where
  grows _ _ h := h.elim Drift.grows fun hothers => hothers.1
  consistent hprior _ _ hs h := h.elim (hs.drift hprior) fun hothers => hothers.2 hs

theorem moves_store : Moves (store Row seeded) Grows :=
  ⟨fun _ _ _ _ h => Answers.grows h, fun _ _ h => Drift.grows h⟩

/-! ## A processor among other writers -/

section Processor

variable {answers : Store Row × Unit → (op : handlerInterface.Op) → handlerInterface.Ans op →
    Unit → Prop} {drift : Store Row → Store Row → Prop} [Harmless drift anytime]

/-- The world of a processor: ClickHouse, and S3 that may answer anything. -/
abbrev lakeWorld (drift : Store Row → Store Row → Prop) (seeded : List LedgerRow)
    (answers : Store Row × Unit → (op : handlerInterface.Op) → handlerInterface.Ans op →
      Unit → Prop) : Environment ((clickHouse Row).sum handlerInterface) :=
  (driven seeded drift).beside handlerInterface Unit answers

/-- The store is consistent; a processor keeps nothing of its own. -/
abbrev Steady (s : Store Row × Unit) : Prop :=
  s.1.Consistent anytime ∧ True

/-- The handler keeps the store consistent, whatever it is answered. -/
abbrev KeepsSteady (drift : Store Row → Store Row → Prop) (seeded : List LedgerRow)
    (answers : Store Row × Unit → (op : handlerInterface.Op) → handlerInterface.Ans op →
      Unit → Prop) {α : Type} (p : Handler Row α) (s : Store Row × Unit) : Prop :=
  @UpholdsTry _ _ _ (lakeWorld drift seeded answers) Steady p (fun _ _ => True) (fun _ => True) s

theorem settled_of_steady {s : Store Row × Unit} (hs : Steady s) :
    Settled (lakeWorld drift seeded answers) Steady (fun _ => True) s := by
  have hsettled : Settled (driven seeded drift) (Consistent anytime) (fun _ => True) s.1 :=
    settled_of_known persistent_anytime (persistent_const True) ⟨hs.1, trivial⟩
  exact (settled_beside (K := fun _ => True) (fun _ _ _ _ _ => trivial) hsettled trivial).imp
    fun _ _ => trivial

theorem handlerRequest_keeps (op : HandlerOp) {s : Store Row × Unit} (hs : Steady s) :
    Upholds (lakeWorld drift seeded answers) Steady
      (@Prog.perform ((clickHouse Row).sum handlerInterface) (.inr op)) (fun _ _ => True) s := by
  have hsettled : ∀ s : Store Row, s.Consistent anytime →
      Settled (driven seeded drift) (Consistent anytime) (Consistent anytime) s :=
    fun s hs => (settled_of_known persistent_anytime (persistent_const True) ⟨hs, trivial⟩).imp
      fun _ h => h.inv
  refine upholds_imp (fun _ _ _ => trivial) (upholds_inr_beside (K := fun _ => True)
    (Q := fun _ => Consistent anytime) (fun _ _ _ _ _ => trivial) (hsettled s.1 hs.1) trivial ?_)
  intro s' answer t hs' _ _
  exact ⟨hsettled s'.1 hs', trivial⟩

omit [Harmless drift anytime] in
theorem liftDb_keeps {α : Type} {p : ExceptT HandlerError (Prog (clickHouse Row)) α}
    {s : Store Row × Unit} (hs : Steady s)
    (h : @UpholdsTry _ _ _ (driven seeded drift) (Consistent anytime) p (fun _ _ => True)
      (fun _ => True) s.1) : KeepsSteady drift seeded answers (liftDb p) s := by
  refine upholds_imp ?_ (upholds_inl_beside (K := fun _ => True) (fun _ _ _ _ _ => trivial) h hs.2)
  intro answer s' _
  cases answer <;> trivial

/-- A persist under its retries. -/
theorem persistWithRetry_keeps (ledger : LedgerRow) {s : Store Row} (hs : s.Consistent anytime) :
    @UpholdsTry _ _ _ (driven seeded drift) (Consistent anytime) (persistWithRetry ledger)
      (fun _ _ => True) (fun _ => True) s := by
  refine upholdsTry_imp (fun _ _ _ => trivial) (fun _ _ => trivial)
    (retryWithBackoff_spec (E := driven seeded drift) (P := fun _ => True) (Q := fun _ => True) ?_
      (settled_of_known persistent_anytime (persistent_const True) ⟨hs, trivial⟩))
  intro s' hs'
  refine upholdsTry_adapt (upholdsTry_imp (fun _ _ _ => trivial) (fun _ h => h)
    (persistLedgerClickhouse_spec persistent_anytime (persistent_const True)
      ⟨hs'.inv, trivial⟩ ledger fun _ _ => trivial))

theorem processLedger_keeps (ledger : LedgerRow) {s : Store Row × Unit} (hs : Steady s) :
    KeepsSteady drift seeded answers (processLedger ledger) s := by
  refine upholdsTry_bind (upholds_imp ?_
    (handlerRequest_keeps (.contractMetadataWrites ledger) hs))
  intro metadata s₁ hs₁
  cases metadata with
  | error error => trivial
  | ok value =>
      refine upholdsTry_bind (upholdsTry_imp ?_ (fun _ h => h)
        (liftDb_keeps hs₁.inv (persistWithRetry_keeps ledger hs₁.inv.1)))
      exact fun _ s₂ hs₂ => upholdsTry_pure (settled_of_steady hs₂.inv)

theorem processS3Object_keeps (key : String) {s : Store Row × Unit} (hs : Steady s) :
    KeepsSteady drift seeded answers (processS3Object key) s := by
  refine upholdsTry_bind (upholds_imp ?_ (handlerRequest_keeps (.getObject key) hs))
  intro object s₁ hs₁
  cases object with
  | error error => trivial
  | ok batch =>
      refine upholdsTry_imp (fun _ _ _ => trivial) (fun _ h => h)
        (upholdsTry_forM (K := fun _ => Steady) ?_ ?_ [] hs₁.inv)
      · exact fun _ s h => (settled_of_steady h).imp fun _ h => h.inv
      · intro _ ledger s _ hs
        exact upholdsTry_imp (fun _ _ h => h.inv) (fun _ h => h) (processLedger_keeps ledger hs)

theorem reconcileLoop_keeps (state : HandlerState) :
    ∀ {budget : ℕ} {next : ℤ} {done : Reconciled} {s : Store Row × Unit}, Steady s →
      KeepsSteady drift seeded answers (reconcileLoop state budget next done) s := by
  intro budget
  induction budget with
  | zero => exact fun hs => upholdsTry_pure (settled_of_steady hs)
  | succ budget ih =>
      intro next done s hs
      refine upholdsTry_bind (upholds_imp ?_
        (handlerRequest_keeps (.headObject (ledgerS3Key state.keyPrefix next)) hs))
      intro head s₁ hs₁
      cases head with
      | error error => trivial
      | ok found =>
          cases found with
          | false => exact upholdsTry_pure (settled_of_steady hs₁.inv)
          | true =>
              refine upholdsTry_bind (upholdsTry_imp ?_ (fun _ h => h)
                (processS3Object_keeps _ hs₁.inv))
              exact fun _ s₂ hs₂ => ih hs₂.inv

/-- **A wake** keeps the store consistent, wherever the stored maximum sends it. -/
theorem reconcile_keeps (state : HandlerState) (budget : ℕ) {s : Store Row × Unit}
    (hs : Steady s) : KeepsSteady drift seeded answers (reconcile state budget) s := by
  have hmax : @UpholdsTry _ _ _ (driven seeded drift) (Consistent anytime) Request.maxSequence
      (fun _ _ => True) (fun _ => True) s.1 :=
    upholds_imp (fun answer _ _ => by cases answer <;> trivial)
      (upholds_request (Q := fun _ _ => True) .maxSequence persistent_anytime
        (persistent_const True) (fun _ => persistent_const True) ⟨hs.1, trivial⟩
        (fun _ _ => trivial) fun _ _ _ _ _ => trivial)
  refine upholdsTry_bind (upholdsTry_imp ?_ (fun _ h => h)
    (liftDb_keeps hs (upholdsTry_adapt (f := HandlerError.clickHouse) hmax)))
  intro max s₁ hs₁
  cases firstLedgerToRead max state.bucket with
  | none => exact upholdsTry_pure (settled_of_steady hs₁.inv)
  | some next => exact reconcileLoop_keeps state hs₁.inv

end Processor

/-! ## The writers -/

/-- The runs of a backfill: any range, with `--reindex` or without. -/
def IsAnyRun (p : Prog (backfill Row) (Except BackfillError RunSummary)) : Prop :=
  ∃ (start last : UInt32) (keepPartitions reindex : Bool),
    p = (execute start.toNat last.toNat keepPartitions reindex).run

/-- A ledger processor, and the files of its bucket. -/
def processor (seeded : List LedgerRow) (lakeOf : HandlerState × (String → List LedgerRow)) :
    Service (store Row seeded) where
  own := handlerInterface
  State := Unit
  answers s op answer t := (lake lakeOf.2).answers s.2 op answer t
  Result := Except HandlerError Reconciled
  programs := Wake Row lakeOf.1

/-- A backfill, and the files of the archive. -/
def backfiller (seeded : List LedgerRow) (file : ℤ → List LedgerRow) :
    Service (store Row seeded) where
  own := runner
  State := List DoneReport
  answers := RunnerAnswers seeded file
  Result := Except BackfillError RunSummary
  programs := IsAnyRun

variable {ι κ : Type} {lakes : ι → HandlerState × (String → List LedgerRow)}
  {file : ℤ → List LedgerRow}

/-- The writers of one ClickHouse: a processor for each of `ι`, and for each of `κ` a
backfill that is started any number of times. -/
def writers (Row : Type) (seeded : List LedgerRow)
    (lakes : ι → HandlerState × (String → List LedgerRow)) (file : ℤ → List LedgerRow) :
    ι ⊕ κ → Service (store Row seeded)
  | .inl i => processor seeded (lakes i)
  | .inr _ => backfiller seeded file

/-- What is behind each writer before it first runs: no run has reported anything. -/
def unstarted : (w : ι ⊕ κ) → (writers Row seeded lakes file w).State
  | .inl _ => ()
  | .inr _ => ([] : List DoneReport)

/-- What a backfill has reported so far. -/
def reports (f : Fleet (@writers ι κ Row seeded lakes file)) (k : κ) : List DoneReport :=
  f.own (.inr k)

/-- What each writer keeps: what a backfill took for done has its rows. -/
def KeptBy : (w : ι ⊕ κ) → Store Row × (writers Row seeded lakes file w).State → Prop
  | .inl _ => fun _ => True
  | .inr _ => Sound seeded

/-- What a writer establishes when it returns: a backfill that skipped no partition has
filled its range. -/
def Establishes : (w : ι ⊕ κ) → (writers Row seeded lakes file w).Result →
    Store Row × (writers Row seeded lakes file w).State → Prop
  | .inl _ => fun _ _ => True
  | .inr _ => fun result s => ∀ summary, result = .ok summary → Finished seeded summary s.1

theorem kept_keptBy (w : ι ⊕ κ) : Kept ((store Row seeded).under
    (keeping (Consistent anytime) Grows)) (@KeptBy Row seeded ι κ lakes file w) := by
  cases w with
  | inl i => exact fun _ _ _ _ _ => trivial
  | inr k => exact @kept_sound Row crowd _ seeded

/-- Every program of every writer, followed among the others. -/
theorem writers_uphold (hfile : ∀ seq, ∀ ledger ∈ file seq, ledger.sequence = seq) (w : ι ⊕ κ)
    (p : Prog ((clickHouse Row).sum (writers Row seeded lakes file w).own)
      (writers Row seeded lakes file w).Result)
    (hp : (writers Row seeded lakes file w).programs p)
    (s : Store Row × (writers Row seeded lakes file w).State) (hs : s.1.Consistent anytime)
    (hkept : KeptBy w s) :
    Upholds ((writers Row seeded lakes file w).worldUnder (keeping (Consistent anytime) Grows))
      (fun s => Consistent anytime s.1 ∧ KeptBy w s) p (Establishes w) s := by
  cases w with
  | inl i =>
      obtain ⟨budget, rfl⟩ := hp
      refine upholds_imp (fun _ _ _ => trivial)
        (@reconcile_keeps Row seeded (processor seeded (lakes i)).answers crowd _ (lakes i).1
          budget s ⟨hs, trivial⟩)
  | inr k =>
      obtain ⟨start, last, keepPartitions, reindex, rfl⟩ := hp
      refine upholds_imp ?_ (@execute_spec Row crowd _ seeded file s hfile _ _ keepPartitions
        reindex ⟨hs, hkept⟩)
      rintro result s' hs' summary rfl
      exact hs'.now.1

/-- What holds of the store and of each writer, whatever their steps. -/
theorem safe_writers [DecidableEq ι] [DecidableEq κ]
    (hfile : ∀ seq, ∀ ledger ∈ file seq, ledger.sequence = seq)
    {f : Fleet (@writers ι κ Row seeded lakes file)}
    (hreach : Fleet.Reachable (E := store Row seeded) fresh unstarted f) :
    f.Safe (Consistent anytime) Grows KeptBy Establishes := by
  have hstable : Stable (store Row seeded) (Consistent anytime) :=
    fun s s' hs hdrift => Consistent.drift persistent_anytime hs hdrift
  have hunstarted : ∀ w : ι ⊕ κ, KeptBy w
      ((fresh : Store Row), @unstarted Row seeded ι κ lakes file w) := by
    intro w
    cases w with
    | inl i => trivial
    | inr k => exact fun report hreport => by cases hreport
  exact Fleet.safe_of_reachable moves_store hstable kept_keptBy (writers_uphold hfile)
    consistent_fresh hunstarted hreach

/-- A stored `ledgers` row comes from a staging all of whose rows are stored. -/
theorem stored_of_marker {s : Store Row} (hs : s.Consistent anytime) {marker : Marker}
    (hmarker : marker ∈ s.ledgers) :
    ∃ staged writer, s.stagings[marker.staging]? = some staged ∧ staged.ledgerRows = [marker] ∧
      ∀ table, ∀ row ∈ staged.rows table,
        (writer, table, row) ∈ s.acked ∧ (table, row) ∈ s.rows := by
  obtain ⟨staged, writer, hstaged, hledger, hrows⟩ :=
    hs.complete marker (hs.ledgers_sent marker hmarker)
  exact ⟨staged, writer, hstaged, hledger, fun table row hrow =>
    ⟨hrows table row hrow, hs.acked_stored writer table row (hrows table row hrow)⟩⟩

/-- **Writers side by side.**  Any number of processors and backfills write to one
ClickHouse, in any order, with requests that fail, writers that are killed and rows that
arrive late.  Every stored `ledgers` row comes from a staging all of whose other rows were
acknowledged, and are stored; the ledgers a backfill leaves out as done have their rows; and
one that ends without skipping a partition leaves every closed ledger of its range with a
row. -/
theorem writers_complete [DecidableEq ι] [DecidableEq κ] (seeded : List LedgerRow)
    (lakes : ι → HandlerState × (String → List LedgerRow)) (file : ℤ → List LedgerRow)
    (hfile : ∀ seq, ∀ ledger ∈ file seq, ledger.sequence = seq)
    (f : Fleet (@writers ι κ Row seeded lakes file))
    (hreach : Fleet.Reachable (E := store Row seeded) fresh unstarted f) :
    (∀ marker ∈ f.shared.ledgers, ∃ staged writer,
      f.shared.stagings[marker.staging]? = some staged ∧ staged.ledgerRows = [marker] ∧
      ∀ table, ∀ row ∈ staged.rows table,
        (writer, table, row) ∈ f.shared.acked ∧ (table, row) ∈ f.shared.rows) ∧
    (∀ k, ∀ report ∈ reports f k, ∀ p ∈ report.done, ∀ seq,
      (p.clamped report.start report.last).1 ≤ seq →
      seq ≤ (p.clamped report.start report.last).2 → HasRow seeded seq f.shared) ∧
    ∀ k summary, f.running (.inr k) = some (.ret (.ok summary)) →
      summary.partitionsSkippedS3Incomplete = 0 →
      ∀ seq, FIRST_CLOSED_LEDGER ≤ seq → summary.start ≤ seq → seq ≤ summary.last →
        HasRow seeded seq f.shared := by
  have hsafe := safe_writers hfile hreach
  exact ⟨fun marker hmarker => stored_of_marker hsafe.inv hmarker,
    fun k => hsafe.kept (.inr k), fun k summary hended => hsafe.returned hended summary rfl⟩

/-! ## A fleet at work -/

/-- A lake with the first closed ledger, for the one processor of the fleet. -/
private def bareLakes (_ : Unit) : HandlerState × (String → List LedgerRow) :=
  ({ bucket := PUBLIC_BUCKET, keyPrefix := "" },
    fun key => if key = ledgerS3Key "" 2 then [bareLedger 2] else [])

private theorem bareLakes_key : (bareLakes ()).2 (ledgerS3Key "" 2) = [bareLedger 2] := by
  simp [bareLakes]

private abbrev bareProcessor : Service (store ℕ []) := processor [] (bareLakes ())

/-- The steps of the processor, while nobody else takes one. -/
private abbrev ProcessorSteps : (c c' : Config bareProcessor.world bareProcessor.Result) → Prop :=
  Steps bareProcessor.world bareProcessor.programs

section

variable {c : Config bareProcessor.world bareProcessor.Result} {s s' : Store ℕ}
  {p : Prog ((clickHouse ℕ).sum handlerInterface) (Except HandlerError Reconciled)}

private theorem ProcessorSteps.db (h : ProcessorSteps c ⟨(s, ()), some p⟩) (op : DbOp ℕ)
    (answer : (clickHouse ℕ).Ans op)
    {rest : (clickHouse ℕ).Ans op → Prog ((clickHouse ℕ).sum handlerInterface) _}
    (hp : p = .ask (I := (clickHouse ℕ).sum handlerInterface) (.inl op) rest)
    (hanswer : s.Answers [] op answer s') : ProcessorSteps c ⟨(s', ()), some (rest answer)⟩ :=
  steps_answer (E := bareProcessor.world) h hp ⟨hanswer, rfl⟩

private theorem ProcessorSteps.handler (h : ProcessorSteps c ⟨(s, ()), some p⟩) (op : HandlerOp)
    (answer : handlerInterface.Ans op)
    {rest : handlerInterface.Ans op → Prog ((clickHouse ℕ).sum handlerInterface) _}
    (hp : p = .ask (I := (clickHouse ℕ).sum handlerInterface) (.inr op) rest)
    (hanswer : (lake (bareLakes ()).2).answers () op answer ()) :
    ProcessorSteps c ⟨(s, ()), some (rest answer)⟩ :=
  steps_answer (E := bareProcessor.world) h hp ⟨hanswer, rfl⟩

end

/-- The rest of a wake that found the table empty. -/
private abbrev firstOfLake : Prog ((clickHouse ℕ).sum handlerInterface) bareProcessor.Result :=
  (reconcileLoop (bareLakes ()).1 1 2 { persisted := 0, newest := 0 }).run

private theorem processor_asks :
    ProcessorSteps ⟨(fresh, ()), none⟩ ⟨(fresh, ()), some firstOfLake⟩ := by
  have hidle : ProcessorSteps ⟨(fresh, ()), none⟩ ⟨(fresh, ()), none⟩ := .refl
  have hwake : ProcessorSteps ⟨(fresh, ()), none⟩
      ⟨(fresh, ()), some (reconcile (bareLakes ()).1 1).run⟩ := hidle.tail (.wake ⟨1, rfl⟩)
  exact ProcessorSteps.db hwake .maxSequence (.ok 0) rfl ⟨rfl, fun max h => by cases h; rfl⟩

/-- It persists the first closed ledger, although others have stored it by then. -/
private theorem processor_persists {s : Store ℕ} (hstagings : s.stagings.length = 2)
    (hwriters : s.writers = 2) :
    ∃ c, ProcessorSteps ⟨(s, ()), some firstOfLake⟩ c ∧
      c.env.1.ledgers = ⟨2, bareLedger 2⟩ :: s.ledgers ∧
      c.running = some (.ret (.ok { persisted := 1, newest := 2 })) := by
  have hasked : ProcessorSteps ⟨(s, ()), some firstOfLake⟩ ⟨(s, ()), some firstOfLake⟩ := .refl
  -- the file of the first ledger is there, and it is read
  have hhead := ProcessorSteps.handler hasked (.headObject (ledgerS3Key "" 2)) (.ok true) rfl
    trivial
  have hget := ProcessorSteps.handler hhead (.getObject (ledgerS3Key "" 2)) (.ok [bareLedger 2])
    rfl fun batch h => by cases h; exact bareLakes_key.symm
  have hmetadata := ProcessorSteps.handler hget (.contractMetadataWrites (bareLedger 2)) (.ok ())
    rfl trivial
  have hstage := ProcessorSteps.db hmetadata (.stage (bareLedger 2)) (.ok (2, oneRow)) rfl
    ⟨hstagings.symm, rfl⟩
  -- one writer, marker last
  have hopen := ProcessorSteps.db hstage .openWriter (2 : ℕ) rfl ⟨hwriters.symm, rfl⟩
  have hinsert := ProcessorSteps.db hopen (.openInsert 2 .accounts) (.ok ()) rfl rfl
  have hwrite := ProcessorSteps.db hinsert (.write 2 .accounts 7) (.ok ()) rfl rfl
  have hend := ProcessorSteps.db hwrite (.endInsert 2 .accounts [7]) (.ok ()) rfl rfl
  have hledgers := ProcessorSteps.db hend (.openLedgers 2) (.ok ()) rfl rfl
  have hmarker := ProcessorSteps.db hledgers (.writeLedgers 2 ⟨2, bareLedger 2⟩) (.ok ()) rfl rfl
  have hdone := ProcessorSteps.db hmarker (.endLedgers 2 [⟨2, bareLedger 2⟩]) (.ok ()) rfl rfl
  exact ⟨_, hdone, rfl, rfl⟩

/-- A processor finds the table empty before a backfill stores a ledger, and persists that
ledger after: each row of the ledger is that of a complete staging. -/
theorem writers_complete_firstLedger :
    ∃ f : Fleet (@writers Unit Unit ℕ [] bareLakes bareArchive),
      f.running (.inl ()) = some (.ret (.ok { persisted := 1, newest := 2 })) ∧
      f.shared.ledgers = [⟨2, bareLedger 2⟩, ⟨1, bareLedger 2⟩] ∧
      (∀ marker ∈ f.shared.ledgers, ∃ staged writer,
        f.shared.stagings[marker.staging]? = some staged ∧ staged.ledgerRows = [marker] ∧
        ∀ table, ∀ row ∈ staged.rows table,
          (writer, table, row) ∈ f.shared.acked ∧ (table, row) ∈ f.shared.rows) ∧
      (⟨2, 2, [⟨0, 63999⟩]⟩ ∈ reports f () ∧
        ∀ seq, 2 ≤ seq → seq ≤ 2 → HasRow [] seq f.shared) ∧
      HasRow [] 2 f.shared := by
  obtain ⟨c, hruns, -, hledgers, hstagings, hwriters, hreports, summary, hended, hstart, hlast,
    hskipped⟩ := runs_firstLedger
  let w := @writers Unit Unit ℕ [] bareLakes bareArchive
  let f₀ : Fleet w := Fleet.idle (fresh : Store ℕ) unstarted
  -- the processor asks
  have hasked : Steps (w (.inl ())).world (w (.inl ())).programs
      ⟨(f₀.shared, f₀.own (.inl ())), none⟩ ⟨((fresh : Store ℕ), ()), some firstOfLake⟩ :=
    processor_asks
  obtain ⟨f₁, hsteps₁, hshared₁, hown₁, hprocessor₁, hothers₁⟩ := Fleet.exists_of_steps rfl hasked
  obtain ⟨hown₁, hidle₁⟩ := hothers₁ (.inr ()) (by simp)
  -- the backfill runs
  have hruns : Steps (w (.inr ())).world (w (.inr ())).programs
      ⟨(f₁.shared, f₁.own (.inr ())), none⟩ c := by
    rw [hshared₁, hown₁]
    refine Reachable.mono hruns ?_
    rintro p ⟨start, last, keepPartitions, rfl⟩
    exact ⟨start, last, keepPartitions, false, rfl⟩
  obtain ⟨f₂, hsteps₂, hshared₂, hown₂, hbackfill₂, hothers₂⟩ :=
    Fleet.exists_of_steps hidle₁ hruns
  have hprocessor₂ := (hothers₂ (.inl ()) (by simp)).2.trans hprocessor₁
  -- the processor goes on
  rw [← hshared₂] at hledgers hstagings hwriters
  obtain ⟨d, hpersisted, hledgers₃, hended₃⟩ := processor_persists hstagings hwriters
  have hpersisted : Steps (w (.inl ())).world (w (.inl ())).programs
      ⟨(f₂.shared, f₂.own (.inl ())), some firstOfLake⟩ d := hpersisted
  obtain ⟨f, hsteps, hshared, -, hprocessor, hothers⟩ :=
    Fleet.exists_of_steps hprocessor₂ hpersisted
  obtain ⟨hreports₃, hbackfill⟩ := hothers (.inr ()) (by simp)
  have hreported : reports f () = c.env.2 := hreports₃.trans hown₂
  obtain ⟨hacked, hdone, hfinished⟩ := writers_complete [] bareLakes bareArchive
    (fun seq ledger h => by cases List.mem_singleton.mp h; rfl) f
    ((hsteps₁.trans hsteps₂).trans hsteps)
  have hcleaned : ⟨2, 2, [⟨0, 63999⟩]⟩ ∈ reports f () := by rw [hreported, hreports]; simp
  refine ⟨f, hprocessor.trans hended₃, ?_, hacked, ⟨hcleaned, ?_⟩, ?_⟩
  · rw [hshared, hledgers₃, hledgers]
  · exact hdone () _ hcleaned ⟨0, 63999⟩ List.mem_cons_self
  · exact hfinished () summary (hbackfill.trans (hbackfill₂.trans hended)) hskipped 2 (by decide)
      hstart.le hlast.ge

end SorobanExplorer.Backfill
