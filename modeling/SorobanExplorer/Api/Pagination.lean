import SorobanExplorer.Api.Cursor

/-!
# Pages

A list fetches one row more than a page holds; the extra row says that there is
another page in the direction of the fetch.  `finalizePage` cuts it off and sets
the two continuations.
-/

namespace SorobanExplorer

structure PageInfo where
  nextCursor : Option String
  prevCursor : Option String
  limit : ℕ
  deriving DecidableEq

/-- A page in presentation order. -/
structure Page (α : Type*) where
  rows : List α
  info : PageInfo

variable {α : Type*}

/-- The page of up to `limit + 1` fetched rows. -/
def finalizePage (rows : List α) (limit : ℕ) (direction : Direction) (hasPredecessor : Bool)
    (cursorOf : Direction → α → String) : Page α :=
  let hasExcess := decide (limit < rows.length)
  match direction with
  | .next =>
      -- fetched in presentation order, the extra row last
      let rows := if hasExcess then rows.take limit else rows
      { rows
        info :=
          { nextCursor := if hasExcess then rows.getLast?.map (cursorOf .next) else none
            prevCursor := if hasPredecessor then rows.head?.map (cursorOf .prev) else none
            limit } }
  | .prev =>
      -- fetched nearest first, the extra row farthest from the cursor
      let rows := (if hasExcess then rows.take limit else rows).reverse
      { rows
        info :=
          { nextCursor := rows.getLast?.map (cursorOf .next)
            prevCursor := if hasExcess then rows.head?.map (cursorOf .prev) else none
            limit } }

theorem ite_take_of_length {rows : List α} {limit : ℕ} :
    (if limit < rows.length then rows.take limit else rows) = rows.take limit := by
  split
  · rfl
  · rw [List.take_of_length_le (by omega)]

/-- A page fetched along the presentation order. -/
theorem finalizePage_next (rows : List α) (limit : ℕ) (hasPredecessor : Bool)
    (cursorOf : Direction → α → String) :
    finalizePage rows limit .next hasPredecessor cursorOf =
      { rows := rows.take limit
        info :=
          { nextCursor := if limit < rows.length then
              (rows.take limit).getLast?.map (cursorOf .next) else none
            prevCursor := if hasPredecessor then
              (rows.take limit).head?.map (cursorOf .prev) else none
            limit } } := by
  simp only [finalizePage, decide_eq_true_eq, ite_take_of_length]

/-- A page fetched against the presentation order. -/
theorem finalizePage_prev (rows : List α) (limit : ℕ) (hasPredecessor : Bool)
    (cursorOf : Direction → α → String) :
    finalizePage rows limit .prev hasPredecessor cursorOf =
      { rows := (rows.take limit).reverse
        info :=
          { nextCursor := (rows.take limit).reverse.getLast?.map (cursorOf .next)
            prevCursor := if limit < rows.length then
              (rows.take limit).reverse.head?.map (cursorOf .prev) else none
            limit } } := by
  simp only [finalizePage, decide_eq_true_eq, ite_take_of_length]

end SorobanExplorer
