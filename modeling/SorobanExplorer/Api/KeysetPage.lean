import SorobanExplorer.Api.Pagination
import SorobanExplorer.Lib.Ranked

/-!
# Keyset queries over unmerged tables

A table may hold a row any number of times.  A query takes the rows past the cursor,
puts them in the order of the fetch and keeps one row of each key; what it keeps is
a part of the table's distinct rows in that order.
-/

namespace SorobanExplorer

open Ranked

variable {α κ : Type*} [LinearOrder κ]

/-- The comparison of a key with the cursor. -/
def KeysetOp.admits : KeysetOp → κ → κ → Bool
  | .less, key, cursor => key < cursor
  | .greater, key, cursor => cursor < key

/-- `ORDER BY` a key. -/
def FetchOrder.sorted (key : α → κ) : FetchOrder → List α → List α
  | .asc, rows => sortBy key rows
  | .desc, rows => sortBy (fun row => OrderDual.toDual (key row)) rows

/-- `LIMIT 1 BY` the key, of the rows past a cursor. -/
def rowsPast (key : α → κ) (sort : SortOrder) (direction : Direction) (table : List α)
    (cursor : Option κ) : List α :=
  let (op, order) := keysetSql sort direction
  firstBy key (order.sorted key (table.filter fun row => cursor.all (op.admits (key row))))

/-- The rows of one key are copies of each other. -/
def Copies (key : α → κ) (table : List α) : Prop :=
  ∀ a ∈ table, ∀ b ∈ table, key a = key b → a = b

/-- The distinct rows, the one with the greatest key first. -/
def newestFirst (key : α → κ) (table : List α) : List α :=
  firstBy key (sortBy (fun row => OrderDual.toDual (key row)) table)

section

variable {key : α → κ} {table : List α}

omit [LinearOrder κ] in
theorem Copies.filter (h : Copies key table) (p : α → Bool) : Copies key (table.filter p) :=
  fun a ha b hb => h a (List.mem_of_mem_filter ha) b (List.mem_of_mem_filter hb)

omit [LinearOrder κ] in
theorem Copies.mem_firstBy [DecidableEq κ] {ρ : Type*} [LinearOrder ρ] (h : Copies key table)
    {rank : α → ρ} {a : α} : a ∈ firstBy key (sortBy rank table) ↔ a ∈ table := by
  rw [mem_firstBy_of_copies fun x hx y hy => h x (mem_sortBy.mp hx) y (mem_sortBy.mp hy),
    mem_sortBy]

theorem mem_newestFirst (h : Copies key table) {a : α} : a ∈ newestFirst key table ↔ a ∈ table :=
  h.mem_firstBy

theorem increasing_newestFirst (key : α → κ) (table : List α) :
    Increasing (fun row => OrderDual.toDual (key row)) (newestFirst key table) :=
  increasing_firstBy OrderDual.toDual.injective table

/-- Forward along the newest-first order: the distinct rows before the cursor. -/
theorem rowsPast_next (h : Copies key table) (cursor : Option κ) :
    rowsPast key .desc .next table cursor =
      (newestFirst key table).filter fun row => cursor.all fun cursor => key row < cursor := by
  have hfilter := h.filter fun row => cursor.all (KeysetOp.less.admits (key row))
  refine (increasing_firstBy OrderDual.toDual.injective _).eq_of_mem_iff
    ((increasing_newestFirst key table).sublist List.filter_sublist) ?_
  intro a
  rw [hfilter.mem_firstBy, List.mem_filter, List.mem_filter, mem_newestFirst h]
  rfl

/-- Backward along it: the distinct rows after the cursor, nearest first. -/
theorem rowsPast_prev (h : Copies key table) (cursor : Option κ) :
    rowsPast key .desc .prev table cursor =
      ((newestFirst key table).filter fun row =>
        cursor.all fun cursor => cursor < key row).reverse := by
  have hfilter := h.filter fun row => cursor.all (KeysetOp.greater.admits (key row))
  have hids : Function.Injective (id : κ → κ) := Function.injective_id
  refine (increasing_firstBy hids _).eq_of_mem_iff ?_ ?_
  · rw [Increasing, List.pairwise_reverse]
    exact (increasing_newestFirst key table).sublist List.filter_sublist
  · intro a
    rw [List.mem_reverse, List.mem_filter, mem_newestFirst h]
    exact hfilter.mem_firstBy.trans List.mem_filter

end

/-! ## The row before -/

/-- Each row with the one after it, which a window of the whole list reads. -/
def withNext : List α → List (α × Option α)
  | [] => []
  | a :: l => (a, l.head?) :: withNext l

theorem map_fst_withNext (l : List α) : (withNext l).map Prod.fst = l := by
  induction l with
  | nil => rfl
  | cons a l ih => rw [withNext, List.map_cons, ih]

theorem length_withNext (l : List α) : (withNext l).length = l.length := by
  rw [← List.length_map Prod.fst, map_fst_withNext]

/-- Every row but the last has one after it. -/
theorem withNext_append_singleton (l : List α) (last : α) :
    ∃ earlier, withNext (l ++ [last]) = earlier ++ [(last, none)] ∧
      ∀ pair ∈ earlier, ∃ xs next ys, l ++ [last] = xs ++ pair.1 :: next :: ys ∧
        pair.2 = some next := by
  induction l with
  | nil => exact ⟨[], rfl, fun _ h => absurd h List.not_mem_nil⟩
  | cons a l ih =>
      obtain ⟨earlier, hwith, hearlier⟩ := ih
      obtain ⟨next, ys, hnext⟩ := List.exists_cons_of_ne_nil
        (List.append_ne_nil_of_right_ne_nil l (List.cons_ne_nil last []))
      refine ⟨(a, some next) :: earlier, ?_, ?_⟩
      · rw [List.cons_append, withNext, hwith, hnext]
        rfl
      · intro pair hpair
        rcases List.mem_cons.mp hpair with rfl | hpair
        · exact ⟨[], next, ys, by rw [List.cons_append, hnext, List.nil_append], rfl⟩
        · obtain ⟨xs, following, zs, hsplit, hsome⟩ := hearlier pair hpair
          exact ⟨a :: xs, following, zs, by rw [List.cons_append, hsplit, List.cons_append], hsome⟩

/-- The newest row of a table older than a key. -/
def previousOf (key : α → κ) (table : List α) (position : κ) : Option α :=
  (table.filter fun row => key row < position).argmax key

/-- In the newest-first order the previous row comes next. -/
theorem previousOf_eq_head? {key : α → κ} {table : List α} (h : Copies key table) {xs ys : List α}
    {a : α} (hsplit : newestFirst key table = xs ++ a :: ys) :
    previousOf key table (key a) = ys.head? := by
  have hincreasing := increasing_newestFirst key table
  have hmem : ∀ b, b ∈ table.filter (fun row => key row < key a) ↔ b ∈ ys := by
    intro b
    have habove := filter_above (hsplit ▸ hincreasing)
    rw [← habove, List.mem_filter, List.mem_filter, ← hsplit, mem_newestFirst h]
    rfl
  rw [previousOf]
  cases ys with
  | nil =>
      rw [List.eq_nil_iff_forall_not_mem.mpr fun b hb => List.not_mem_nil ((hmem b).mp hb)]
      rfl
  | cons y ys =>
      apply argmax_eq_of_dominates ((hmem y).mpr List.mem_cons_self)
      intro b hb
      have hafter : Increasing (fun row => OrderDual.toDual (key row)) (y :: ys) :=
        hincreasing.sublist (hsplit ▸ (List.sublist_cons_self a _).trans
          (List.sublist_append_right xs _))
      rcases List.mem_cons.mp ((hmem b).mp hb) with rfl | hlater
      · exact .inl rfl
      · exact .inr (List.rel_of_pairwise_cons hafter hlater)

end SorobanExplorer
