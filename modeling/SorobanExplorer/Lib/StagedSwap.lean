import SorobanExplorer.Lib.Replacing
import SorobanExplorer.Lib.Versioned

/-!
# Rebuilding a table beside it

A table that replaces rows cannot be updated in place, so it is rebuilt: a staging table is
filled from a read of it, and the two exchange their names.  `Derives R original table`
says what a rebuild may do to a table: every row a read takes comes from a row a read took
by `R`, and no key is lost.  It is kept by merges (`Derives.merges`), a rebuild has it
(`Derives.of_isFinal`), and rebuilds compose (`Derives.comp`).

An insert that fails may leave any of its rows behind, and others may land later; they
belong to the table they were sent to, whatever its name is by then.  So a table is
followed together with its late rows, and `Settled` ones are those without.
-/

namespace StagedSwap

open Replacing Versioned

variable {α κ ν : Type*} [LinearOrder ν] {key : α → κ} {version : α → ν}

/-! ## What a rebuild may do -/

/-- Every row a read takes comes by `R` from one a read took, and every key is there. -/
structure Derives (R : α → α → Prop) (key : α → κ) (version : α → ν)
    (original table : List α) : Prop where
  readable : ∀ row', Survives key version table row' →
    ∃ row, Survives key version original row ∧ R row row'
  kept : ∀ row ∈ original, ∃ row' ∈ table, key row' = key row

section

variable {R R' R'' : α → α → Prop} {original table table' : List α}

theorem derives_refl (hrefl : ∀ row, R row row) : Derives R key version table table where
  readable := fun row hrow => ⟨row, hrow, hrefl row⟩
  kept := fun row hrow => ⟨row, hrow, rfl⟩

/-- What was rebuilt from what was rebuilt. -/
theorem Derives.comp (h : Derives R key version original table)
    (h' : Derives R' key version table table')
    (hcomp : ∀ a b c, R a b → R' b c → R'' a c) : Derives R'' key version original table' where
  readable := by
    intro row'' hrow''
    obtain ⟨row', hrow', hstep'⟩ := h'.readable row'' hrow''
    obtain ⟨row, hrow, hstep⟩ := h.readable row' hrow'
    exact ⟨row, hrow, hcomp row row' row'' hstep hstep'⟩
  kept := by
    intro row hrow
    obtain ⟨row', hrow', hkey⟩ := h.kept row hrow
    obtain ⟨row'', hrow'', hkey'⟩ := h'.kept row' hrow'
    exact ⟨row'', hrow'', hkey'.trans hkey⟩

theorem Derives.imp (h : Derives R key version original table)
    (himp : ∀ a b, R a b → R' a b) : Derives R' key version original table where
  readable := fun row' hrow' =>
    (h.readable row' hrow').imp fun row hrow => ⟨hrow.1, himp row row' hrow.2⟩
  kept := h.kept

/-- A row a read takes after a merge it could take before. -/
theorem survives_of_merges (h : Merges key version table table') {row : α}
    (hrow : Survives key version table' row) : Survives key version table row := by
  refine ⟨h.mem row hrow.1, fun other hother hkey => ?_⟩
  obtain ⟨newer, hnewer, hkey', hle⟩ := h.held other hother
  calc version other ≤ version newer := hle
    _ ≤ version row := hrow.2 newer hnewer (hkey'.trans hkey)

theorem Derives.merges (h : Derives R key version original table)
    (hmerges : Merges key version table table') : Derives R key version original table' where
  readable := fun row' hrow' => h.readable row' (survives_of_merges hmerges hrow')
  kept := by
    intro row hrow
    obtain ⟨row', hrow', hkey⟩ := h.kept row hrow
    obtain ⟨newer, hnewer, hkey', -⟩ := hmerges.held row' hrow'
    exact ⟨newer, hnewer, hkey'.trans hkey⟩

/-- A table filled from a read: each row from one that was read, and each of those somewhere. -/
theorem Derives.of_isFinal {rows : List α} (h : IsFinal key version original rows)
    (hfrom : ∀ row' ∈ table, ∃ row ∈ rows, R row row')
    (hsome : ∀ row ∈ rows, ∃ row' ∈ table, key row' = key row) :
    Derives R key version original table where
  readable := by
    intro row' hrow'
    obtain ⟨row, hrow, hstep⟩ := hfrom row' hrow'.1
    exact ⟨row, h.survives row hrow, hstep⟩
  kept := by
    intro row hrow
    obtain ⟨taken, htaken, hkey⟩ := h.exists_mem row hrow
    obtain ⟨row', hrow', hkey'⟩ := hsome taken htaken
    exact ⟨row', hrow', hkey'.trans hkey⟩

/-- A key of the original can be read, and comes by `R` from a row that could. -/
theorem Derives.exists_survives (h : Derives R key version original table)
    (hkeys : ∀ a b, R a b → key b = key a) {row : α} (hrow : row ∈ original) :
    ∃ before after, Survives key version original before ∧ Survives key version table after ∧
      R before after ∧ key before = key row ∧ key after = key row := by
  obtain ⟨row', hrow', hkey⟩ := h.kept row hrow
  obtain ⟨after, hafter, hkey'⟩ := exists_newest key version hrow'
  obtain ⟨before, hbefore, hstep⟩ := h.readable after hafter
  have hsame : key after = key row := hkey'.trans hkey
  exact ⟨before, after, hbefore, hafter, hstep, (hkeys _ _ hstep).symm.trans hsame, hsame⟩

end

/-! ## A table and the rows that are late -/

/-- The rows of a table, and those of failed inserts that may still land in it. -/
structure Copy (α : Type*) where
  rows : List α
  late : List α

/-- What a table does by itself: it merges, and late rows land. -/
inductive Copy.Drift (key : α → κ) (version : α → ν) : Copy α → Copy α → Prop
  | merge {copy : Copy α} {rows : List α} (hmerges : Merges key version copy.rows rows) :
      Drift key version copy { copy with rows }
  | land {copy : Copy α} {row : α} (hrow : row ∈ copy.late) :
      Drift key version copy { copy with rows := copy.rows ++ [row] }

/-- An empty table. -/
def Copy.empty : Copy α := ⟨[], []⟩

/-- An insert that came through. -/
def Copy.insert (copy : Copy α) (rows : List α) : Copy α :=
  { copy with rows := copy.rows ++ rows }

/-- An insert that failed: some rows are there, any may be late. -/
def Copy.Failed (copy : Copy α) (rows : List α) (copy' : Copy α) : Prop :=
  ∃ there, List.Sublist there rows ∧ copy' = ⟨copy.rows ++ there, copy.late ++ rows⟩

/-- A table that derives from another, with nothing late. -/
structure Copy.Sound (R : α → α → Prop) (key : α → κ) (version : α → ν) (original : List α)
    (copy : Copy α) : Prop where
  derives : Derives R key version original copy.rows
  late : copy.late = []

theorem Copy.Sound.drift {R : α → α → Prop} {original : List α} {copy copy' : Copy α}
    (h : copy.Sound R key version original) (hdrift : copy.Drift key version copy') :
    copy'.Sound R key version original := by
  cases hdrift with
  | merge hmerges => exact ⟨h.derives.merges hmerges, h.late⟩
  | land hrow =>
      rw [h.late] at hrow
      cases hrow

/-! ## Two tables that exchange their names -/

/-- The table that is read, and the one beside it. -/
structure Swap (α : Type*) where
  live : Copy α
  staging : Option (Copy α)

namespace Swap

def drop (s : Swap α) : Swap α := { s with staging := none }

def create (s : Swap α) : Swap α := { s with staging := some .empty }

/-- The names exchanged, when there are two tables. -/
def exchange (s : Swap α) : Swap α :=
  match s.staging with
  | none => s
  | some copy => ⟨copy, some s.live⟩

/-- One of the tables drifts. -/
inductive Drift (key : α → κ) (version : α → ν) : Swap α → Swap α → Prop
  | live {s : Swap α} {copy : Copy α} (hdrift : s.live.Drift key version copy) :
      Drift key version s { s with live := copy }
  | staging {s : Swap α} {copy copy' : Copy α} (hstaging : s.staging = some copy)
      (hdrift : copy.Drift key version copy') :
      Drift key version s { s with staging := some copy' }

/-- The table beside the live one is there, and sound. -/
def Ready (R : α → α → Prop) (key : α → κ) (version : α → ν) (original : List α)
    (s : Swap α) : Prop :=
  ∃ copy, s.staging = some copy ∧ copy.Sound R key version original

variable {R : α → α → Prop} {original : List α} {s s' : Swap α}

theorem Drift.live_sound (hdrift : s.Drift key version s')
    (h : s.live.Sound R key version original) : s'.live.Sound R key version original := by
  cases hdrift with
  | live hdrift => exact h.drift hdrift
  | staging hstaging hdrift => exact h

theorem Drift.ready (hdrift : s.Drift key version s') (h : s.Ready R key version original) :
    s'.Ready R key version original := by
  obtain ⟨copy, hcopy, hsound⟩ := h
  cases hdrift with
  | live hdrift => exact ⟨copy, hcopy, hsound⟩
  | staging hstaging hdrift =>
      rw [hstaging] at hcopy
      cases hcopy
      exact ⟨_, rfl, hsound.drift hdrift⟩

/-- What is exchanged for a table that is ready is sound. -/
theorem Ready.exchange (h : s.Ready R key version original) :
    s.exchange.live.Sound R key version original := by
  obtain ⟨copy, hcopy, hsound⟩ := h
  rw [Swap.exchange, hcopy]
  exact hsound

end Swap

end StagedSwap
