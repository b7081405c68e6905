import SorobanExplorer.Lib.KeepLast
import Mathlib.Logic.Function.Basic

/-!
# The last-wins fold

Every per-ledger collapse of rows goes through `keepLastByKey`: one row per key, the
last in apply order, at the place of the first.  The loop finds that place in a map
from keys to places.  The map is never wrong about a kept row, so an assignment through
it stays inside the rows, and the loop does what `KeepLast.keepLastByKey` says
(`keepLastByKey_eq`).
-/

namespace SorobanExplorer.Fold

variable {α κ : Type*} [DecidableEq κ]

/-- The rows kept so far, and where the row of each key stands. -/
structure Folding (key : α → κ) where
  position : κ → Option ℕ
  folded : List α
  position_eq_some_iff : ∀ k i, position k = some i ↔ (folded.map key)[i]? = some k

namespace Folding

variable {key : α → κ}

def empty (key : α → κ) : Folding key where
  position _ := none
  folded := []
  position_eq_some_iff := by simp

omit [DecidableEq κ] in
theorem map_set {folded : List α} {item : α} {i : ℕ}
    (hi : (folded.map key)[i]? = some (key item)) :
    (folded.set i item).map key = folded.map key := by
  obtain ⟨hlt, hkey⟩ := List.getElem?_eq_some_iff.mp hi
  rw [List.map_set, ← hkey, List.set_getElem_self]

/-- A row at the end takes the next place. -/
theorem update_eq_some_iff (f : Folding key) {item : α} (hnew : f.position (key item) = none)
    (k : κ) (i : ℕ) :
    Function.update f.position (key item) (some f.folded.length) k = some i ↔
      ((f.folded ++ [item]).map key)[i]? = some k := by
  rw [List.map_append, List.map_singleton]
  rcases Nat.lt_trichotomy i f.folded.length with hlt | rfl | hgt
  · rw [List.getElem?_append_left (by rwa [List.length_map]), ← f.position_eq_some_iff]
    by_cases hk : k = key item
    · subst hk
      rw [Function.update_self, hnew]
      simp [Nat.ne_of_gt hlt]
    · rw [Function.update_of_ne hk]
  · have hlast : (f.folded.map key ++ [key item])[f.folded.length]? = some (key item) := by
      simp
    rw [hlast]
    by_cases hk : k = key item
    · simp [hk]
    · -- No row stands past the end.
      have hold : f.position k ≠ some f.folded.length := by
        rw [ne_eq, f.position_eq_some_iff]
        simp
      simp [Function.update_of_ne hk, hold, Ne.symm hk]
  · have hpast : (f.folded.map key ++ [key item])[i]? = none := by
      apply List.getElem?_eq_none
      simpa using Nat.succ_le_of_lt hgt
    rw [hpast]
    by_cases hk : k = key item
    · subst hk
      simp [Nat.ne_of_lt hgt]
    · have hold : f.position k ≠ some i := by
        rw [ne_eq, f.position_eq_some_iff, List.getElem?_eq_none (by simpa using Nat.le_of_lt hgt)]
        simp
      simp [Function.update_of_ne hk, hold]

/-- One item: over the row of its key if there is one, else a row of its own. -/
def insert (f : Folding key) (item : α) : Folding key :=
  match h : f.position (key item) with
  | some i =>
      { f with
        folded := f.folded.set i item
        position_eq_some_iff := by
          rw [map_set ((f.position_eq_some_iff _ _).mp h)]
          exact f.position_eq_some_iff }
  | none =>
      { position := Function.update f.position (key item) (some f.folded.length)
        folded := f.folded ++ [item]
        position_eq_some_iff := f.update_eq_some_iff h }

omit [DecidableEq κ] in
theorem nodup (f : Folding key) : (f.folded.map key).Nodup := by
  rw [List.nodup_iff_getElem?_ne_getElem?]
  intro i j hij hj heq
  obtain ⟨k, hk⟩ : ∃ k, (f.folded.map key)[j]? = some k := ⟨_, List.getElem?_eq_getElem hj⟩
  have hi := (f.position_eq_some_iff k i).mpr (heq.trans hk)
  rw [(f.position_eq_some_iff k j).mpr hk, Option.some.injEq] at hi
  exact absurd hij (by omega)

theorem folded_insert (f : Folding key) (item : α) :
    (f.insert item).folded = KeepLast.put key f.folded item := by
  unfold insert
  split
  next i h => exact (KeepLast.put_eq_set f.nodup ((f.position_eq_some_iff _ _).mp h)).symm
  next h =>
      refine (KeepLast.put_of_notMem fun hmem => ?_).symm
      obtain ⟨i, hi⟩ := List.getElem?_of_mem hmem
      rw [(f.position_eq_some_iff _ _).mpr hi] at h
      cases h

end Folding

/-- Collapse items to one per key, the last in order at the position of the first. -/
def keepLastByKey (items : List α) (key : α → κ) : List α :=
  (items.foldl Folding.insert (Folding.empty key)).folded

example : keepLastByKey [("a", 1), ("b", 2), ("a", 3)] Prod.fst = [("a", 3), ("b", 2)] := by
  decide

theorem keepLastByKey_eq (items : List α) (key : α → κ) :
    keepLastByKey items key = KeepLast.keepLastByKey key items := by
  have hfold : ∀ f : Folding key, (items.foldl Folding.insert f).folded =
      items.foldl (KeepLast.put key) f.folded := by
    induction items with
    | nil => exact fun f => rfl
    | cons item items ih =>
        intro f
        rw [List.foldl_cons, List.foldl_cons, ih, Folding.folded_insert]
  exact hfold (Folding.empty key)

/-! ## What the fold keeps -/

/-- `kept` has one item for each key of `items`: the last of the key, in the order of the
first ones. -/
structure Collapses (items : List α) (key : α → κ) (kept : List α) : Prop where
  nodup : (kept.map key).Nodup
  mem_iff : ∀ k, k ∈ kept.map key ↔ k ∈ items.map key
  last : ∀ k, kept.filter (key · = k) = (items.filter (key · = k)).getLast?.toList
  order : (kept.map key).Pairwise fun j k =>
    (items.map key).idxOf j < (items.map key).idxOf k

/-- **One item per key, however often the fold is applied.**  A second fold, and folding
the parts of a list before the whole, change nothing. -/
theorem keepLastByKey_collapses (items : List α) (key : α → κ) :
    Collapses items key (keepLastByKey items key) ∧
      keepLastByKey (keepLastByKey items key) key = keepLastByKey items key ∧
      ∀ parts : List (List α), keepLastByKey (parts.flatMap (keepLastByKey · key)) key =
        keepLastByKey parts.flatten key := by
  have hparts : ∀ parts : List (List α), parts.flatMap (keepLastByKey · key) =
      parts.flatMap (KeepLast.keepLastByKey key) :=
    fun parts => List.flatMap_congr fun part _ => keepLastByKey_eq part key
  refine ⟨⟨?nodup, fun k => ?mem, fun k => ?last, ?order⟩, ?twice, fun parts => ?parts⟩
  case nodup => rw [keepLastByKey_eq]; exact KeepLast.nodup_keepLastByKey key items
  case mem => rw [keepLastByKey_eq]; exact KeepLast.mem_map_keepLastByKey
  case last => rw [keepLastByKey_eq]; exact KeepLast.filter_keepLastByKey key items k
  case order => rw [keepLastByKey_eq]; exact KeepLast.pairwise_idxOf_keepLastByKey key items
  case twice =>
    rw [keepLastByKey_eq, keepLastByKey_eq]
    exact KeepLast.keepLastByKey_idem key items
  case parts =>
    rw [hparts, keepLastByKey_eq, keepLastByKey_eq]
    exact KeepLast.keepLastByKey_flatMap key parts

end SorobanExplorer.Fold
