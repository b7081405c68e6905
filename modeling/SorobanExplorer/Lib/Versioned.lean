import Mathlib.Data.List.MinMax
import Mathlib.Data.List.Nodup
import Mathlib.Order.Lattice
import SorobanExplorer.Lib.Replacing

/-!
# Newest version wins

A table keeps every version of a row, and a read takes the newest of a key.
`survives_append_iff` says what a read takes once newer versions are added.
-/

namespace Versioned

variable {α κ ν : Type*} [LinearOrder ν] {key : α → κ} {version : α → ν}

/-- A row that a read may take: no row of its key is newer. -/
def Survives (key : α → κ) (version : α → ν) (table : List α) (row : α) : Prop :=
  row ∈ table ∧ ∀ other ∈ table, key other = key row → version other ≤ version row

/-- A read of a table: one row of each key, and each one that survives. -/
structure IsRead (key : α → κ) (version : α → ν) (table rows : List α) : Prop where
  nodup : (rows.map key).Nodup
  mem_iff : ∀ row, row ∈ rows ↔ Survives key version table row

/-- A read where versions may tie: of each key one of its newest rows. -/
structure IsFinal (key : α → κ) (version : α → ν) (table rows : List α) : Prop where
  nodup : (rows.map key).Nodup
  survives : ∀ row ∈ rows, Survives key version table row
  exists_mem : ∀ row ∈ table, ∃ taken ∈ rows, key taken = key row

theorem eq_of_key {rows : List α} (h : (rows.map key).Nodup) {a b : α} (ha : a ∈ rows)
    (hb : b ∈ rows) (hkey : key a = key b) : a = b :=
  List.inj_on_of_nodup_map h ha hb hkey

/-- A table with one row of each key is read whole. -/
theorem isFinal_of_nodup {table : List α} (h : (table.map key).Nodup) :
    IsFinal key version table table where
  nodup := h
  survives := fun row hrow => ⟨hrow, fun other hother hkey => by
    rw [eq_of_key h hother hrow hkey]⟩
  exists_mem := fun row hrow => ⟨row, hrow, rfl⟩

/-- Newer rows replace the rows of their keys and leave the others. -/
theorem survives_append_iff {rows written : List α} (hrows : (rows.map key).Nodup)
    (hwritten : (written.map key).Nodup)
    (hnewer : ∀ w ∈ written, ∀ row ∈ rows, key row = key w → version row < version w) {row : α} :
    Survives key version (rows ++ written) row ↔
      row ∈ written ∨ row ∈ rows ∧ ∀ w ∈ written, key w ≠ key row := by
  constructor
  · rintro ⟨hmem, hnewest⟩
    obtain hold | hnew := List.mem_append.mp hmem
    · refine .inr ⟨hold, fun w hw hkey => ?_⟩
      have hle := hnewest w (List.mem_append_right _ hw) hkey
      exact absurd (hnewer w hw row hold hkey.symm) (not_lt.mpr hle)
    · exact .inl hnew
  · rintro (hnew | ⟨hold, hkept⟩)
    · refine ⟨List.mem_append_right _ hnew, fun other hother hkey => ?_⟩
      obtain hold | hnew' := List.mem_append.mp hother
      · exact le_of_lt (hnewer row hnew other hold hkey)
      · rw [eq_of_key hwritten hnew' hnew hkey]
    · refine ⟨List.mem_append_left _ hold, fun other hother hkey => ?_⟩
      obtain hold' | hnew := List.mem_append.mp hother
      · rw [eq_of_key hrows hold' hold hkey]
      · exact absurd hkey (hkept other hnew)

/-- A read takes one row of a key. -/
theorem Survives.unique {rows written : List α} (hrows : (rows.map key).Nodup)
    (hwritten : (written.map key).Nodup)
    (hnewer : ∀ w ∈ written, ∀ row ∈ rows, key row = key w → version row < version w) {a b : α}
    (ha : Survives key version (rows ++ written) a) (hb : Survives key version (rows ++ written) b)
    (hkey : key a = key b) : a = b := by
  rw [survives_append_iff hrows hwritten hnewer] at ha hb
  obtain ha | ⟨ha, hkeptA⟩ := ha
  · obtain hb | ⟨-, hkeptB⟩ := hb
    · exact eq_of_key hwritten ha hb hkey
    · exact absurd hkey (hkeptB a ha)
  · obtain hb | ⟨hb, -⟩ := hb
    · exact absurd hkey.symm (hkeptA b hb)
    · exact eq_of_key hrows ha hb hkey

/-- Every key of a table has a row that a read takes. -/
theorem exists_survives {rows written : List α} (hrows : (rows.map key).Nodup)
    (hwritten : (written.map key).Nodup)
    (hnewer : ∀ w ∈ written, ∀ row ∈ rows, key row = key w → version row < version w) {a : α}
    (ha : a ∈ rows ++ written) :
    ∃ row, Survives key version (rows ++ written) row ∧ key row = key a := by
  by_cases hreplaced : ∃ w ∈ written, key w = key a
  · obtain ⟨w, hw, hkey⟩ := hreplaced
    exact ⟨w, (survives_append_iff hrows hwritten hnewer).mpr (.inl hw), hkey⟩
  · have hkept : ∀ w ∈ written, key w ≠ key a := fun w hw hkey => hreplaced ⟨w, hw, hkey⟩
    obtain hold | hnew := List.mem_append.mp ha
    · exact ⟨a, (survives_append_iff hrows hwritten hnewer).mpr (.inr ⟨hold, hkept⟩), rfl⟩
    · exact absurd rfl (hkept a hnew)

/-- After newer versions are added a read takes those, and the rows of other keys. -/
theorem exists_isRead {rows written : List α} (hrows : (rows.map key).Nodup)
    (hwritten : (written.map key).Nodup)
    (hnewer : ∀ w ∈ written, ∀ row ∈ rows, key row = key w → version row < version w) :
    ∃ read, IsRead key version (rows ++ written) read := by
  classical
  refine ⟨written ++ rows.filter fun row => ∀ w ∈ written, key w ≠ key row, ?_, fun row => ?_⟩
  · rw [List.map_append, List.nodup_append']
    refine ⟨hwritten, hrows.sublist (List.filter_sublist.map key), ?_⟩
    intro k hk hk'
    obtain ⟨w, hw, rfl⟩ := List.mem_map.mp hk
    obtain ⟨row, hrow, hkey⟩ := List.mem_map.mp hk'
    have hkept := of_decide_eq_true (List.mem_filter.mp hrow).2
    exact hkept w hw hkey.symm
  · rw [survives_append_iff hrows hwritten hnewer, List.mem_append, List.mem_filter]
    simp only [decide_eq_true_eq]

/-- Every key of a table has a row that a read may take. -/
theorem exists_newest (key : α → κ) (version : α → ν) {table : List α} {row : α}
    (hrow : row ∈ table) :
    ∃ newest, Survives key version table newest ∧ key newest = key row := by
  classical
  let ofKey := table.filter fun other => key other = key row
  have hofKey : ∀ other, other ∈ ofKey ↔ other ∈ table ∧ key other = key row := by
    intro other
    simp only [ofKey, List.mem_filter, decide_eq_true_eq]
  have hne : ofKey ≠ [] := List.ne_nil_of_mem ((hofKey row).mpr ⟨hrow, rfl⟩)
  obtain ⟨newest, hnewest⟩ := Option.ne_none_iff_exists'.mp
    (mt List.argmax_eq_none.mp hne : ofKey.argmax version ≠ none)
  obtain ⟨hmem, hkey⟩ := (hofKey newest).mp (List.argmax_mem hnewest)
  refine ⟨newest, ⟨hmem, fun other hother hkey' => ?_⟩, hkey⟩
  exact List.le_of_mem_argmax ((hofKey other).mpr ⟨hother, hkey'.trans hkey⟩) hnewest

/-- Where the rows of a key differ in their versions, a read takes one of them and no other. -/
theorem existsUnique_survives {table : List α} {k : κ}
    (hversions : ∀ a ∈ table, ∀ b ∈ table, key a = k → key b = k → version a = version b → a = b)
    {row : α} (hrow : row ∈ table) (hkey : key row = k) :
    ∃! newest, Survives key version table newest ∧ key newest = k := by
  obtain ⟨newest, hnewest, hsame⟩ := exists_newest key version hrow
  refine ⟨newest, ⟨hnewest, hsame.trans hkey⟩, ?_⟩
  rintro other ⟨hother, hotherKey⟩
  have hkeys : key other = key newest :=
    calc key other = k := hotherKey
      _ = key row := hkey.symm
      _ = key newest := hsame.symm
  have hle := hnewest.2 other hother.1 hkeys
  have hge := hother.2 newest hnewest.1 hkeys.symm
  exact hversions other hother.1 newest hnewest.1 hotherKey (hsame.trans hkey) (le_antisymm hle hge)

/-- A merge changes no read, where versions do not tie. -/
theorem survives_merged_iff {table merged : List α}
    (h : Replacing.Merges key version table merged)
    (hversions : ∀ a ∈ table, ∀ b ∈ table, key a = key b → version a = version b → a = b)
    {row : α} : Survives key version merged row ↔ Survives key version table row := by
  constructor
  · intro hrow
    refine ⟨h.mem row hrow.1, fun other hother hkey => ?_⟩
    obtain ⟨newer, hnewer, hkey', hle⟩ := h.held other hother
    calc version other ≤ version newer := hle
      _ ≤ version row := hrow.2 newer hnewer (hkey'.trans hkey)
  · intro hrow
    obtain ⟨newer, hnewer, hkey, hle⟩ := h.held row hrow.1
    have hmem := h.mem newer hnewer
    -- what holds a row that survives is the row itself
    obtain rfl := hversions newer hmem row hrow.1 hkey (le_antisymm (hrow.2 newer hmem hkey) hle)
    exact ⟨hnewer, fun other hother => hrow.2 other (h.mem other hother)⟩

end Versioned
