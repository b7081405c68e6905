import SorobanExplorer.Lib.Ranked
import Mathlib.Algebra.BigOperators.Group.Finset.Piecewise

/-!
# Grouping a list by a key

Each key of a list with the elements that have it.  What is added up group by group is
added up over the list (`sum_groupBy`), and the groups of one key are that key's one group
(`filter_groupBy`).
-/

namespace GroupBy

open Ranked

variable {α κ : Type*} [DecidableEq κ]

/-- The keys of a list in their first order, each with its elements. -/
def groupBy (key : α → κ) (l : List α) : List (κ × List α) :=
  (firstBy id (l.map key)).map fun k => (k, l.filter (key · = k))

variable {key : α → κ} {l : List α}

theorem mem_groupBy {group : κ × List α} :
    group ∈ groupBy key l ↔ (∃ a ∈ l, key a = group.1) ∧ group.2 = l.filter (key · = group.1) := by
  rw [groupBy, List.mem_map]
  constructor
  · rintro ⟨k, hk, rfl⟩
    exact ⟨List.mem_map.mp (mem_firstBy_id.mp hk), rfl⟩
  · rintro ⟨hk, hmembers⟩
    exact ⟨group.1, mem_firstBy_id.mpr (List.mem_map.mpr hk), Prod.ext rfl hmembers.symm⟩

theorem map_firstBy (key : α → κ) (l : List α) : (firstBy key l).map key = firstBy id (l.map key) := by
  induction l with
  | nil => rfl
  | cons a l ih =>
      rw [firstBy, List.map_cons, List.map_cons, firstBy, ← ih, List.filter_map]
      rfl

theorem groupBy_eq (key : α → κ) (l : List α) :
    groupBy key l = (firstBy key l).map fun a => (key a, l.filter (key · = key a)) := by
  rw [groupBy, ← map_firstBy, List.map_map]
  rfl

/-- The groups of one key. -/
theorem filter_groupBy (key : α → κ) (l : List α) (k : κ) :
    (groupBy key l).filter (·.1 = k) =
      if ∃ a ∈ l, key a = k then [(k, l.filter (key · = k))] else [] := by
  have hkeys := filter_firstBy id (l.map key) k
  rw [groupBy, List.filter_map]
  change ((firstBy id (l.map key)).filter fun a => id a = k).map _ = _
  rw [hkeys]
  split_ifs with h
  · obtain ⟨a, ha, rfl⟩ := h
    obtain ⟨b, hb⟩ : ∃ b, (l.map key).find? (fun x => id x = key a) = some b :=
      Option.isSome_iff_exists.mp
        (List.find?_isSome.mpr ⟨key a, List.mem_map_of_mem ha, by simp⟩)
    have hsame : b = key a := by simpa using List.find?_some hb
    rw [hb, hsame]
    rfl
  · rw [List.find?_eq_none.mpr]
    · rfl
    · rintro x hx
      obtain ⟨a, ha, rfl⟩ := List.mem_map.mp hx
      simpa using fun heq : key a = k => h ⟨a, ha, heq⟩

variable {M : Type*} [AddCommMonoid M]

/-- What adds nothing can be left out of a sum. -/
theorem sum_map_filter {f : α → M} {p : α → Bool} (h : ∀ a ∈ l, p a = false → f a = 0) :
    ((l.filter p).map f).sum = (l.map f).sum := by
  induction l with
  | nil => rfl
  | cons a l ih =>
      have ih := ih fun b hb => h b (List.mem_cons_of_mem _ hb)
      cases hp : p a with
      | true => rw [List.filter_cons_of_pos hp, List.map_cons, List.map_cons, List.sum_cons,
          List.sum_cons, ih]
      | false => rw [List.filter_cons_of_neg (by simp [hp]), List.map_cons, List.sum_cons, ih,
          h a List.mem_cons_self hp, zero_add]

/-- What is added up key by key, over keys that include those of the list. -/
theorem sum_fibers (f : α → M) {keys : List κ} (hkeys : keys.Nodup) (h : ∀ a ∈ l, key a ∈ keys) :
    (keys.map fun k => ((l.filter (key · = k)).map f).sum).sum = (l.map f).sum := by
  rw [← List.sum_toFinset _ hkeys]
  induction l with
  | nil => simp
  | cons a l ih =>
      have ih := ih fun b hb => h b (List.mem_cons_of_mem _ hb)
      have hsplit : ∀ k, (((a :: l).filter (key · = k)).map f).sum =
          (if key a = k then f a else 0) + ((l.filter (key · = k)).map f).sum := by
        intro k
        by_cases hk : key a = k
        · simp [hk]
        · simp [hk]
      simp only [hsplit]
      rw [Finset.sum_add_distrib, ih, Finset.sum_ite_eq,
        if_pos (List.mem_toFinset.mpr (h a List.mem_cons_self)), List.map_cons, List.sum_cons]

/-- **Sums by group.**  Over the groups whose keys satisfy a predicate. -/
theorem sum_groupBy (f : α → M) (key : α → κ) (l : List α) (p : κ → Bool) :
    (((groupBy key l).filter (p ·.1)).map fun group => (group.2.map f).sum).sum =
      ((l.filter (p <| key ·)).map f).sum := by
  have hnodup : ((firstBy id (l.map key)).filter p).Nodup := (nodup_firstBy_id _).filter _
  rw [← sum_fibers f hnodup]
  · rw [groupBy, List.filter_map, List.map_map]
    congr 1
    apply List.map_congr_left
    intro k hk
    have hp : p k = true := (List.mem_filter.mp hk).2
    have hmembers : (l.filter (p <| key ·)).filter (key · = k) = l.filter (key · = k) := by
      rw [List.filter_filter]
      apply List.filter_congr
      intro a _
      by_cases heq : key a = k
      · simp [heq, hp]
      · simp [heq]
    rw [hmembers]
    rfl
  · intro a ha
    obtain ⟨ha, hp⟩ := List.mem_filter.mp ha
    exact List.mem_filter.mpr ⟨mem_firstBy_id.mpr (List.mem_map_of_mem ha), hp⟩

end GroupBy
