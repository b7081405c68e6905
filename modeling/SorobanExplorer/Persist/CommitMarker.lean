import Mathlib.Data.List.Basic
import SorobanExplorer.Persist.Writer

/-!
# The commit marker

What ClickHouse holds while the writer runs, and why a `ledgers` row vouches for
the rest of its ledger.

The store keeps, beside the rows it serves, every row that was ever sent.  A
row sent in a request that failed, was dropped or was never ended may still be
stored, at any later time: that is the environment's `drift`.  Only an
acknowledged `end` guarantees that the rows of its request are stored.

## Strategy

The store only grows, so every fact the proofs carry is *persistent*: kept by
every answer and by every drift.  `Consistent` says that a `ledgers` row that
was sent, stored or not, has all rows of its staging acknowledged to the same
writer, and that `prior` held when it was sent.  `prior` is whatever the caller
establishes before it persists a ledger; the indexer's cursor instantiates it.
The specs below then follow the code function by function.
-/

namespace SorobanExplorer.Persist

open Interaction

variable {Row : Type}

/-- ClickHouse as the writer leaves it.  `sent` and `sentLedgers` hold every
row of any request, `acked` those of acknowledged requests; `stagings` records
what was staged. -/
structure Store (Row : Type) where
  rows : List (StreamTable × Row)
  ledgers : List Marker
  sent : List (StreamTable × Row)
  sentLedgers : List Marker
  acked : List (ℕ × StreamTable × Row)
  stagings : List (StagedLedger Row)
  writers : ℕ

namespace Store

/-- A store the writer has not touched. -/
def fresh : Store Row :=
  ⟨[], [], [], [], [], [], 0⟩

/-- `SELECT max(sequence)` over `ledgers` rows: zero over none. -/
def maxSequence (rows : List LedgerRow) : ℤ :=
  (rows.map (·.sequence)).max?.getD 0

/-- The rows of the `ledgers` table; `seeded` were stored before the first
run. -/
def ledgersTable (seeded : List LedgerRow) (s : Store Row) : List LedgerRow :=
  seeded ++ s.ledgers.map (·.row)

/-- The answers ClickHouse may give to a request, and the store they leave. -/
def Answers (seeded : List LedgerRow) (s : Store Row) :
    (op : DbOp Row) → (clickHouse Row).Ans op → Store Row → Prop
  | .maxSequence, answer, s' => s' = s ∧ ∀ max, answer = .ok max →
      max = maxSequence (s.ledgersTable seeded)
  | .stage ledger, .ok (staging, rows), s' =>
      staging = s.stagings.length ∧ s' = { s with
        stagings := s.stagings ++ [{ ledgerRows := [⟨staging, ledger⟩], rows := rows }] }
  | .stage _, .error _, s' => s' = s
  | .openWriter, id, s' => id = s.writers ∧ s' = { s with writers := s.writers + 1 }
  | .openInsert _ _, _, s' => s' = s
  | .write _ table row, _, s' => s' = { s with sent := (table, row) :: s.sent }
  | .endInsert writer table rows, .ok _, s' =>
      s' = { s with
        rows := rows.map (table, ·) ++ s.rows
        acked := rows.map (writer, table, ·) ++ s.acked }
  | .endInsert _ _ _, .error _, s' => s' = s
  | .openLedgers _, _, s' => s' = s
  | .writeLedgers _ marker, _, s' => s' = { s with sentLedgers := marker :: s.sentLedgers }
  | .endLedgers _ markers, .ok _, s' => s' = { s with ledgers := markers ++ s.ledgers }
  | .endLedgers _ _, .error _, s' => s' = s

/-- A row that was sent is stored, whatever became of its request. -/
inductive Drift : Store Row → Store Row → Prop
  | land {s : Store Row} {row : StreamTable × Row} (hsent : row ∈ s.sent) :
      Drift s { s with rows := row :: s.rows }
  | landLedgers {s : Store Row} {marker : Marker} (hsent : marker ∈ s.sentLedgers) :
      Drift s { s with ledgers := marker :: s.ledgers }

end Store

/-- ClickHouse as an environment, over the rows stored before the first run. -/
def store (Row : Type) (seeded : List LedgerRow) : Environment (clickHouse Row) where
  State := Store Row
  answers := Store.Answers seeded
  drift := Store.Drift

/-! ## The store only grows -/

namespace Store

/-- Everything recorded in `s` is recorded in `s'`. -/
structure Grows (s s' : Store Row) : Prop where
  rows : s.rows ⊆ s'.rows
  ledgers : s.ledgers ⊆ s'.ledgers
  sentLedgers : s.sentLedgers ⊆ s'.sentLedgers
  acked : s.acked ⊆ s'.acked
  stagings : s.stagings <+: s'.stagings

theorem Grows.refl (s : Store Row) : s.Grows s :=
  ⟨fun _ h => h, fun _ h => h, fun _ h => h, fun _ h => h, List.prefix_rfl⟩

theorem Answers.grows {seeded : List LedgerRow} {s s' : Store Row} {op : DbOp Row}
    {answer : (clickHouse Row).Ans op} (h : s.Answers seeded op answer s') : s.Grows s' := by
  cases op with
  | maxSequence => obtain ⟨rfl, -⟩ := h; exact .refl s'
  | stage ledger =>
      cases answer with
      | error error => cases h; exact .refl s
      | ok value =>
          obtain ⟨-, rfl⟩ := h
          exact { Grows.refl s with stagings := List.prefix_append _ _ }
  | openWriter => obtain ⟨-, rfl⟩ := h; exact { Grows.refl s with }
  | openInsert writer table => cases h; exact .refl s
  | write writer table row => cases h; exact { Grows.refl s with }
  | endInsert writer table rows =>
      cases answer with
      | error error => cases h; exact .refl s
      | ok value =>
          cases h
          exact { Grows.refl s with
            rows := List.subset_append_right _ _
            acked := List.subset_append_right _ _ }
  | openLedgers writer => cases h; exact .refl s
  | writeLedgers writer marker =>
      cases h
      exact { Grows.refl s with sentLedgers := List.subset_cons_self _ _ }
  | endLedgers writer rows =>
      cases answer with
      | error error => cases h; exact .refl s
      | ok value => cases h; exact { Grows.refl s with ledgers := List.subset_append_right _ _ }

theorem Drift.grows {s s' : Store Row} (h : s.Drift s') : s.Grows s' := by
  cases h with
  | land hsent => exact { Grows.refl s with rows := List.subset_cons_self _ _ }
  | landLedgers hsent => exact { Grows.refl s with ledgers := List.subset_cons_self _ _ }

/-- A fact that is kept when the store grows. -/
def Persistent (P : Store Row → Prop) : Prop :=
  ∀ s s', P s → s.Grows s' → P s'

theorem Persistent.and {P Q : Store Row → Prop} (hP : Persistent P) (hQ : Persistent Q) :
    Persistent fun s => P s ∧ Q s :=
  fun s s' h hgrows => ⟨hP s s' h.1 hgrows, hQ s s' h.2 hgrows⟩

theorem persistent_const (p : Prop) : Persistent fun _ : Store Row => p :=
  fun _ _ h _ => h

theorem persistent_acked (writer : ℕ) (table : StreamTable) (rows : List Row) :
    Persistent fun s : Store Row => ∀ row ∈ rows, (writer, table, row) ∈ s.acked :=
  fun _ _ h hgrows row hrow => hgrows.acked (h row hrow)

/-! ## The invariant -/

/-- Every row of the staging this marker comes from was acknowledged, to one
writer. -/
def Complete (marker : Marker) (s : Store Row) : Prop :=
  ∃ staged writer, s.stagings[marker.staging]? = some staged ∧ staged.ledgerRows = [marker] ∧
    ∀ table, ∀ row ∈ staged.rows table, (writer, table, row) ∈ s.acked

theorem persistent_staging (staging : ℕ) (staged : StagedLedger Row) :
    Persistent fun s : Store Row => s.stagings[staging]? = some staged := by
  intro s s' h hgrows
  obtain ⟨rest, hrest⟩ := hgrows.stagings
  rw [← hrest, List.getElem?_append_left (List.getElem?_eq_some_iff.mp h).1]
  exact h

theorem persistent_complete (marker : Marker) :
    Persistent fun s : Store Row => s.Complete marker := by
  rintro s s' ⟨staged, writer, hstaged, hledger, hrows⟩ hgrows
  exact ⟨staged, writer, persistent_staging _ _ s s' hstaged hgrows, hledger,
    fun table row hrow => hgrows.acked (hrows table row hrow)⟩

/-- The commit-marker invariant.  `prior` is what the caller establishes of a
ledger before it is persisted. -/
structure Consistent (prior : LedgerRow → Store Row → Prop) (s : Store Row) : Prop where
  /-- Only rows that were sent are stored. -/
  ledgers_sent : ∀ marker ∈ s.ledgers, marker ∈ s.sentLedgers
  /-- Acknowledged rows are stored. -/
  acked_stored : ∀ writer table row, (writer, table, row) ∈ s.acked → (table, row) ∈ s.rows
  complete : ∀ marker ∈ s.sentLedgers, s.Complete marker
  prior : ∀ marker ∈ s.sentLedgers, prior marker.row s

variable {prior : LedgerRow → Store Row → Prop} {seeded : List LedgerRow}

theorem consistent_fresh : (fresh : Store Row).Consistent prior where
  ledgers_sent := by intro marker h; cases h
  acked_stored := by intro writer table row h; cases h
  complete := by intro marker h; cases h
  prior := by intro marker h; cases h

/-- Markers and acknowledgements apart, growing keeps the invariant. -/
private theorem Consistent.grow (hprior : ∀ row, Persistent (prior row)) {s s' : Store Row}
    (hs : s.Consistent prior) (hgrows : s.Grows s')
    (hledgers : ∀ marker ∈ s'.ledgers, marker ∈ s'.sentLedgers)
    (hacked : ∀ entry ∈ s'.acked, entry ∈ s.acked ∨ entry.2 ∈ s'.rows)
    (hsent : ∀ marker ∈ s'.sentLedgers, marker ∈ s.sentLedgers ∨
      s'.Complete marker ∧ prior marker.row s') : s'.Consistent prior where
  ledgers_sent := hledgers
  acked_stored := by
    intro writer table row h
    rcases hacked _ h with hold | hnew
    · exact hgrows.rows (hs.acked_stored writer table row hold)
    · exact hnew
  complete := by
    intro marker h
    rcases hsent marker h with hold | ⟨hnew, -⟩
    · exact persistent_complete marker s s' (hs.complete marker hold) hgrows
    · exact hnew
  prior := by
    intro marker h
    rcases hsent marker h with hold | ⟨-, hnew⟩
    · exact hprior marker.row s s' (hs.prior marker hold) hgrows
    · exact hnew

theorem Consistent.drift (hprior : ∀ row, Persistent (prior row)) {s s' : Store Row}
    (hs : s.Consistent prior) (hdrift : s.Drift s') : s'.Consistent prior := by
  have hgrows := hdrift.grows
  cases hdrift with
  | land hsent =>
      exact hs.grow hprior hgrows hs.ledgers_sent (fun _ h => .inl h) fun _ h => .inl h
  | landLedgers hsent =>
      refine hs.grow hprior hgrows ?_ (fun _ h => .inl h) fun _ h => .inl h
      intro marker hmarker
      rcases List.mem_cons.mp hmarker with rfl | hold
      · exact hsent
      · exact hs.ledgers_sent marker hold

/-- A request that cannot break the invariant: any but the two that touch
`ledgers`.  A `ledgers` row may be sent once its ledger is complete and `prior`
holds of it; the request may be ended over rows that were sent. -/
def Licensed (prior : LedgerRow → Store Row → Prop) (op : DbOp Row) (s : Store Row) : Prop :=
  match op with
  | .writeLedgers _ marker => s.Complete marker ∧ prior marker.row s
  | .endLedgers _ markers => ∀ marker ∈ markers, marker ∈ s.sentLedgers
  | _ => True

theorem Consistent.answer (hprior : ∀ row, Persistent (prior row)) {s s' : Store Row}
    {op : DbOp Row} {answer : (clickHouse Row).Ans op} (hs : s.Consistent prior)
    (hlicensed : s.Licensed prior op) (hanswer : s.Answers seeded op answer s') :
    s'.Consistent prior := by
  have hgrows := hanswer.grows
  -- an answer that stores no marker leaves them as they were
  have hkept : s'.ledgers = s.ledgers → s'.acked = s.acked → s'.sentLedgers = s.sentLedgers →
      s'.Consistent prior := by
    intro hledgers hacked hsent
    refine hs.grow hprior hgrows ?_ (fun _ h => .inl (hacked ▸ h)) fun _ h => .inl (hsent ▸ h)
    rw [hledgers, hsent]
    exact hs.ledgers_sent
  cases op with
  | maxSequence => obtain ⟨rfl, -⟩ := hanswer; exact hs
  | stage ledger =>
      cases answer with
      | error error => cases hanswer; exact hs
      | ok value => obtain ⟨-, rfl⟩ := hanswer; exact hkept rfl rfl rfl
  | openWriter => obtain ⟨-, rfl⟩ := hanswer; exact hkept rfl rfl rfl
  | openInsert writer table => cases hanswer; exact hs
  | write writer table row => cases hanswer; exact hkept rfl rfl rfl
  | endInsert writer table rows =>
      cases answer with
      | error error => cases hanswer; exact hs
      | ok value =>
          cases hanswer
          refine hs.grow hprior hgrows hs.ledgers_sent ?_ fun _ h => .inl h
          intro entry hentry
          rcases List.mem_append.mp hentry with hnew | hold
          · obtain ⟨row, hrow, rfl⟩ := List.mem_map.mp hnew
            exact .inr (List.mem_append_left _ (List.mem_map_of_mem hrow))
          · exact .inl hold
  | openLedgers writer => cases hanswer; exact hs
  | writeLedgers writer marker =>
      -- a marker is sent only for a staging that was acknowledged
      obtain ⟨hcomplete, hpriorRow⟩ := hlicensed
      cases hanswer
      refine hs.grow hprior hgrows ?_ (fun _ h => .inl h) ?_
      · exact fun other h => List.mem_cons_of_mem _ (hs.ledgers_sent other h)
      · intro other hother
        rcases List.mem_cons.mp hother with rfl | hold
        · exact .inr ⟨persistent_complete _ s _ hcomplete hgrows,
            hprior _ s _ hpriorRow hgrows⟩
        · exact .inl hold
  | endLedgers writer markers =>
      cases answer with
      | error error => cases hanswer; exact hs
      | ok value =>
          cases hanswer
          refine hs.grow hprior hgrows ?_ (fun _ h => .inl h) fun _ h => .inl h
          intro marker hmarker
          rcases List.mem_append.mp hmarker with hnew | hold
          · exact hlicensed marker hnew
          · exact hs.ledgers_sent marker hold

end Store

end SorobanExplorer.Persist
