import Mathlib.Data.List.Basic
import Mathlib.Order.Defs.PartialOrder

/-!
# Tables that replace rows

A table keeps its rows by key and merges them in the background, at a time of its own:
of two rows of a key the older may go.  A row counts as held while a row of its key that
is no older is there; merging and adding keep every row held.
-/

namespace Replacing

variable {α κ ν : Type*} {key : α → κ} {version : α → ν}

/-! ## Reading without the older rows -/

section

variable [DecidableEq κ] [LE ν] [DecidableLE ν]

/-- A row in the place of the one of its key, unless that is newer, or at the end. -/
def replace (key : α → κ) (version : α → ν) : List α → α → List α
  | [], row => [row]
  | held :: rest, row =>
      if key held = key row then (if version held ≤ version row then row else held) :: rest
      else held :: replace key version rest row

/-- One row of each key: the newest, of equally new ones the last written. -/
def final (key : α → κ) (version : α → ν) (table : List α) : List α :=
  table.foldl (replace key version) []

end

/-! ## Rows held -/

variable [Preorder ν]

/-- A row of the same key is there, and no older. -/
def Held (key : α → κ) (version : α → ν) (table : List α) (row : α) : Prop :=
  ∃ other ∈ table, key other = key row ∧ version row ≤ version other

instance [DecidableEq κ] [DecidableLE ν] (table : List α) (row : α) :
    Decidable (Held key version table row) :=
  inferInstanceAs (Decidable (∃ other ∈ table, _))

/-- A table after a merge: no new rows, and every row still held. -/
structure Merges (key : α → κ) (version : α → ν) (table merged : List α) : Prop where
  mem : ∀ row ∈ merged, row ∈ table
  held : ∀ row ∈ table, Held key version merged row

variable {table table' : List α} {row : α}

theorem held_of_mem (h : row ∈ table) : Held key version table row :=
  ⟨row, h, rfl, le_rfl⟩

/-- A table that holds the rows of another holds what that holds. -/
theorem Held.trans (h : Held key version table row)
    (htable : ∀ other ∈ table, Held key version table' other) : Held key version table' row := by
  obtain ⟨other, hother, hkey, hle⟩ := h
  obtain ⟨newer, hnewer, hkey', hle'⟩ := htable other hother
  exact ⟨newer, hnewer, hkey'.trans hkey, le_trans hle hle'⟩

theorem Held.mono (h : Held key version table row) (htable : ∀ other ∈ table, other ∈ table') :
    Held key version table' row :=
  h.trans fun other hother => held_of_mem (htable other hother)

theorem Held.append (h : Held key version table row) (added : List α) :
    Held key version (table ++ added) row :=
  h.mono fun _ => List.mem_append_left added

theorem merges_refl (table : List α) : Merges key version table table where
  mem := fun _ hrow => hrow
  held := fun _ hrow => held_of_mem hrow

theorem Merges.trans {table'' : List α} (h : Merges key version table table')
    (h' : Merges key version table' table'') : Merges key version table table'' where
  mem := fun row hrow => h.mem row (h'.mem row hrow)
  held := fun row hrow => (h.held row hrow).trans h'.held

/-- Rows may come before a merge or after it. -/
theorem Merges.append (h : Merges key version table table') (added : List α) :
    Merges key version (table ++ added) (table' ++ added) where
  mem := by
    intro row hrow
    rcases List.mem_append.mp hrow with hold | hnew
    · exact List.mem_append_left _ (h.mem row hold)
    · exact List.mem_append_right _ hnew
  held := by
    intro row hrow
    rcases List.mem_append.mp hrow with hold | hnew
    · exact (h.held row hold).append added
    · exact held_of_mem (List.mem_append_right _ hnew)

/-- Of the rows that hold a row, one stays or one goes. -/
theorem Held.filter (h : Held key version table row) (p : α → Bool) :
    Held key version (table.filter fun other => !p other) row ∨
      ∃ other ∈ table.filter p, key other = key row ∧ version row ≤ version other := by
  obtain ⟨other, hother, hkey, hle⟩ := h
  cases hp : p other with
  | true => exact .inr ⟨other, List.mem_filter.mpr ⟨hother, hp⟩, hkey, hle⟩
  | false => exact .inl ⟨other, List.mem_filter.mpr ⟨hother, by simp [hp]⟩, hkey, hle⟩

end Replacing
