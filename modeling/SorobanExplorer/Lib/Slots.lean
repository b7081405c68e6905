import Mathlib.Data.List.Basic
import Mathlib.Data.List.Induction

/-!
# Numbered slots

Rows are put into slots by number, the later over the earlier.  When the rows of one slot
agree, which of them came last does not show (`foldl_fill`).
-/

namespace Slots

variable {α γ : Type*}

/-- Put a row into its slot; a row without one, or past the end, changes nothing. -/
def fill (slotOf : α → Option (ℕ × γ)) (slots : List (Option γ)) (a : α) : List (Option γ) :=
  match slotOf a with
  | some (i, value) => slots.set i (some value)
  | none => slots

/-- What the rows have for a slot. -/
def valueAt (slotOf : α → Option (ℕ × γ)) (rows : List α) (i : ℕ) : Option γ :=
  rows.findSome? fun a => (slotOf a).bind fun entry => if entry.1 = i then some entry.2 else none

/-- The rows of one slot agree. -/
def Agree (slotOf : α → Option (ℕ × γ)) (rows : List α) : Prop :=
  ∀ a ∈ rows, ∀ b ∈ rows, ∀ i v w, slotOf a = some (i, v) → slotOf b = some (i, w) → v = w

variable {slotOf : α → Option (ℕ × γ)} {rows rows' : List α}

theorem valueAt_eq_some (h : Agree slotOf rows) {i : ℕ} {v : γ} :
    valueAt slotOf rows i = some v ↔ ∃ a ∈ rows, slotOf a = some (i, v) := by
  have hread : ∀ a v, ((slotOf a).bind fun entry =>
      if entry.1 = i then some entry.2 else none) = some v ↔ slotOf a = some (i, v) := by
    intro a v
    rw [Option.bind_eq_some_iff]
    constructor
    · rintro ⟨⟨j, w⟩, hslot, hentry⟩
      split_ifs at hentry with hj
      obtain rfl := Option.some.inj hentry
      obtain rfl : j = i := hj
      exact hslot
    · exact fun hslot => ⟨(i, v), hslot, if_pos rfl⟩
  unfold valueAt
  constructor
  · intro hfound
    obtain ⟨a, ha, hvalue⟩ := List.exists_of_findSome?_eq_some hfound
    exact ⟨a, ha, (hread a v).mp hvalue⟩
  · rintro ⟨a, ha, hslot⟩
    cases hfound : rows.findSome? fun a => (slotOf a).bind fun entry =>
        if entry.1 = i then some entry.2 else none with
    | none =>
        have hnone := List.findSome?_eq_none_iff.mp hfound a ha
        rw [(hread a v).mpr hslot] at hnone
        cases hnone
    | some w =>
        obtain ⟨b, hb, hvalue⟩ := List.exists_of_findSome?_eq_some hfound
        rw [h b hb a ha i w v ((hread b w).mp hvalue) hslot]

/-- What rows that agree have for a slot depends on which there are alone. -/
theorem valueAt_congr (h : Agree slotOf rows) (hmem : ∀ a, a ∈ rows ↔ a ∈ rows') (i : ℕ) :
    valueAt slotOf rows i = valueAt slotOf rows' i := by
  have h' : Agree slotOf rows' := fun a ha b hb =>
    h a ((hmem a).mpr ha) b ((hmem b).mpr hb)
  apply Option.ext
  intro v
  rw [valueAt_eq_some h, valueAt_eq_some h']
  simp only [hmem]

/-- What rows that agree have for a slot, found by the number of the slot. -/
theorem valueAt_filter {p : α → Prop} [DecidablePred p] {slot : α → ℕ} {value : α → Option γ}
    {i : ℕ} (h : Agree slotOf (rows.filter (p ·)))
    (hslot : ∀ a v, slotOf a = some (i, v) ↔ slot a = i ∧ value a = some v)
    (hsame : ∀ a ∈ rows, ∀ b ∈ rows, p a → p b → slot a = i → slot b = i → value a = value b) :
    (rows.find? fun a => p a ∧ slot a = i).bind value = valueAt slotOf (rows.filter (p ·)) i := by
  apply Option.ext
  intro v
  rw [valueAt_eq_some h, Option.bind_eq_some_iff]
  constructor
  · rintro ⟨a, hfound, hvalue⟩
    obtain ⟨hp, hi⟩ : p a ∧ slot a = i := by simpa using List.find?_some hfound
    exact ⟨a, List.mem_filter.mpr ⟨List.mem_of_find?_eq_some hfound, decide_eq_true hp⟩,
      (hslot a v).mpr ⟨hi, hvalue⟩⟩
  · rintro ⟨a, ha, hfilled⟩
    obtain ⟨hmem, hp⟩ := List.mem_filter.mp ha
    obtain ⟨hi, hvalue⟩ := (hslot a v).mp hfilled
    have hp := of_decide_eq_true hp
    cases hfound : rows.find? fun a => p a ∧ slot a = i with
    | none =>
        have hnone : ¬(p a ∧ slot a = i) := by simpa using List.find?_eq_none.mp hfound a hmem
        exact absurd ⟨hp, hi⟩ hnone
    | some b =>
        obtain ⟨hp', hi'⟩ : p b ∧ slot b = i := by simpa using List.find?_some hfound
        exact ⟨b, rfl,
          (hsame b (List.mem_of_find?_eq_some hfound) a hmem hp' hp hi' hi).trans hvalue⟩

/-- **Filling empty slots** by rows that agree. -/
theorem foldl_fill (h : Agree slotOf rows) (n : ℕ) :
    rows.foldl (fill slotOf) (List.replicate n none) =
      (List.range n).map (valueAt slotOf rows) := by
  induction rows using List.reverseRecOn with
  | nil =>
      have hempty : ∀ i ∈ List.range n, valueAt slotOf ([] : List α) i = none := fun _ _ => rfl
      rw [List.map_congr_left hempty, List.map_const', List.length_range]
      rfl
  | append_singleton rows a ih =>
      have hbefore : Agree slotOf rows := fun b hb c hc =>
        h b (List.mem_append_left _ hb) c (List.mem_append_left _ hc)
      have hsame : ∀ i, (∀ v, slotOf a ≠ some (i, v)) →
          valueAt slotOf (rows ++ [a]) i = valueAt slotOf rows i := by
        intro i hnot
        apply Option.ext
        intro v
        rw [valueAt_eq_some h, valueAt_eq_some hbefore]
        constructor
        · rintro ⟨b, hb, hslot⟩
          rcases List.mem_append.mp hb with hb | hb
          · exact ⟨b, hb, hslot⟩
          · obtain rfl := List.mem_singleton.mp hb
            exact absurd hslot (hnot v)
        · rintro ⟨b, hb, hslot⟩
          exact ⟨b, List.mem_append_left _ hb, hslot⟩
      rw [List.foldl_concat, ih hbefore, fill]
      cases hslot : slotOf a with
      | none =>
          apply List.map_congr_left
          intro i _
          rw [hsame i fun v hv => by rw [hslot] at hv; cases hv]
      | some entry =>
          obtain ⟨j, v⟩ := entry
          apply List.ext_getElem
          · simp
          · intro i hi _
            simp only [List.length_set, List.length_map, List.length_range] at hi
            rw [List.getElem_map, List.getElem_range]
            by_cases hij : j = i
            · -- the row's own slot
              subst hij
              have hown := (valueAt_eq_some h).mpr ⟨a, by simp, hslot⟩
              simp [hown]
            · rw [hsame i fun w hw => hij (by rw [hslot] at hw; cases hw; rfl)]
              simp [hij]

end Slots
