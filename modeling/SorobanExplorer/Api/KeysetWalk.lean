import Mathlib.Data.Finite.Prod
import Mathlib.Data.Fintype.EquivFin
import SorobanExplorer.Api.Pagination
import SorobanExplorer.Lib.Ranked

/-!
# Walking a keyset

A page is the rows past the cursor, in the order of the fetch, cut by
`finalizePage`.  Following the continuations walks the table: `keysetWalk_visits`
says that a forward walk visits every row once, also when rows are appended on the
way, and that a continuation backwards leads to the page before.
-/

namespace SorobanExplorer

open Ranked Text

variable {α : Type*}

/-! ## Queries -/

def KeysetOp.holds : KeysetOp → TxListCursor → TxListCursor → Bool
  | .less, key, cursor => key < cursor
  | .greater, key, cursor => cursor < key

/-- Rows in the order of a query. -/
def FetchOrder.sort (position : α → TxListCursor) : FetchOrder → List α → List α
  | .asc, rows => sortBy position rows
  | .desc, rows => sortBy (fun row => OrderDual.toDual (position row)) rows

section

variable (codec : CursorCodec) (position : α → TxListCursor) (sort : SortOrder) (limit : ℕ)

/-- The rows past a cursor, in the order of the fetch, cut after `limit + 1`. -/
def fetchRows (table : List α) (direction : Direction) (cursor : Option TxListCursor) : List α :=
  let (op, order) := keysetSql sort direction
  (order.sort position (table.filter fun row => cursor.all (op.holds (position row)))).take
    (limit + 1)

/-- The cursor of a row. -/
def cursorFor (direction : Direction) (row : α) : String :=
  codec.encode (position row) direction

/-- The page a request gets. -/
def listPage (table : List α) (raw : Option String) : Except CursorError (Page α) :=
  (decodeCursor codec raw).map fun (direction, cursor) =>
    finalizePage (fetchRows position sort limit table direction cursor) limit direction
      cursor.isSome (cursorFor codec position)

/-- A table in presentation order. -/
def presented (table : List α) : List α :=
  (keysetSql sort .next).2.sort position table

/-- The page of the `k`-th fetch along the forward continuations, each from the table
as it is then; nothing once a page has no continuation. -/
def pageAt (tables : ℕ → List α) : ℕ → Option (Except CursorError (Page α))
  | 0 => some (listPage codec position sort limit (tables 0) none)
  | k + 1 =>
      match pageAt tables k with
      | some (.ok page) => page.info.nextCursor.map fun cursor =>
          listPage codec position sort limit (tables (k + 1)) (some cursor)
      | _ => none

def rowsAt (tables : ℕ → List α) (k : ℕ) : List α :=
  match pageAt codec position sort limit tables k with
  | some (.ok page) => page.rows
  | _ => []

/-- The rows of the first `n` pages of a walk. -/
def visited (tables : ℕ → List α) (n : ℕ) : List α :=
  (List.range n).flatMap (rowsAt codec position sort limit tables)

/-- A page reached from the first one by continuations, either way. -/
inductive Reached (table : List α) : Page α → Prop
  | first {page} : listPage codec position sort limit table none = .ok page → Reached table page
  | next {page page' cursor} : Reached table page → page.info.nextCursor = some cursor →
      listPage codec position sort limit table (some cursor) = .ok page' → Reached table page'
  | prev {page page' cursor} : Reached table page → page.info.prevCursor = some cursor →
      listPage codec position sort limit table (some cursor) = .ok page' → Reached table page'

end

/-! ## Ranks -/

/-- A position's rank in the presentation order. -/
def rank : SortOrder → TxListCursor → ℤ ×ₗ ℤ
  | .asc, position => toLex (position.ledgerSequence.toInt, position.applicationOrder.toInt)
  | .desc, position => toLex (-position.ledgerSequence.toInt, -position.applicationOrder.toInt)

theorem TxListCursor.lt_iff {a b : TxListCursor} :
    a < b ↔ a.ledgerSequence.toInt < b.ledgerSequence.toInt ∨
      a.ledgerSequence.toInt = b.ledgerSequence.toInt ∧
        a.applicationOrder.toInt < b.applicationOrder.toInt := by
  show a.tuple < b.tuple ↔ _
  rw [TxListCursor.tuple, TxListCursor.tuple, Prod.Lex.toLex_lt_toLex]

@[simp] theorem rank_asc_lt {a b : TxListCursor} : rank .asc a < rank .asc b ↔ a < b := by
  rw [TxListCursor.lt_iff, rank, rank, Prod.Lex.toLex_lt_toLex]

@[simp] theorem rank_desc_lt {a b : TxListCursor} : rank .desc a < rank .desc b ↔ b < a := by
  rw [TxListCursor.lt_iff, rank, rank, Prod.Lex.toLex_lt_toLex]
  simp only
  omega

theorem rank_injective (sort : SortOrder) : Function.Injective (rank sort) := by
  intro a b h
  apply TxListCursor.tuple_injective
  cases sort with
  | asc => exact h
  | desc =>
      obtain ⟨hledger, horder⟩ := Prod.mk.inj (toLex.injective h)
      rw [TxListCursor.tuple, TxListCursor.tuple, Int.neg_inj.mp hledger, Int.neg_inj.mp horder]

/-- A row's rank. -/
def rowRank (position : α → TxListCursor) (sort : SortOrder) (row : α) : ℤ ×ₗ ℤ :=
  rank sort (position row)

section

variable {position : α → TxListCursor} {table : List α}

theorem nodup_map_rowRank (h : (table.map position).Nodup) (sort : SortOrder) :
    (table.map (rowRank position sort)).Nodup := by
  have hmap := h.map (rank_injective sort)
  rwa [List.map_map] at hmap

/-- The order of a fetch along or against the presentation order. -/
theorem sort_keysetSql (sort : SortOrder) (direction : Direction)
    (h : (table.map position).Nodup) :
    (keysetSql sort direction).2.sort position table =
      match direction with
      | .next => sortBy (rowRank position sort) table
      | .prev => (sortBy (rowRank position sort) table).reverse := by
  have hdual : ((table.map fun row => OrderDual.toDual (position row))).Nodup := by
    have hmap := h.map OrderDual.toDual.injective
    rwa [List.map_map] at hmap
  have hasc := increasing_sortBy (nodup_map_rowRank h .asc)
  have hdesc := increasing_sortBy (nodup_map_rowRank h .desc)
  cases sort <;> cases direction
  · refine (increasing_sortBy h).eq_of_mem_iff (hasc.imp ?_) (by simp)
    exact fun hab => rank_asc_lt.mp hab
  · refine (increasing_sortBy hdual).eq_of_mem_iff ?_ (by simp)
    rw [Increasing, List.pairwise_reverse]
    exact hasc.imp fun hab => OrderDual.toDual_lt_toDual.mpr (rank_asc_lt.mp hab)
  · refine (increasing_sortBy hdual).eq_of_mem_iff (hdesc.imp ?_) (by simp)
    exact fun hab => OrderDual.toDual_lt_toDual.mpr (rank_desc_lt.mp hab)
  · refine (increasing_sortBy h).eq_of_mem_iff ?_ (by simp)
    rw [Increasing, List.pairwise_reverse]
    exact hdesc.imp fun hab => rank_desc_lt.mp hab

theorem holds_keysetSql (sort : SortOrder) (direction : Direction) (key : TxListCursor) :
    (keysetSql sort direction).1.holds key = fun cursor =>
      match direction with
      | .next => decide (rank sort cursor < rank sort key)
      | .prev => decide (rank sort key < rank sort cursor) := by
  funext cursor
  cases sort <;> cases direction <;> simp [keysetSql, KeysetOp.holds]

theorem presented_eq (sort : SortOrder) (h : (table.map position).Nodup) :
    presented position sort table = sortBy (rowRank position sort) table :=
  sort_keysetSql sort .next h

/-- Along the presentation order: the rows after the cursor. -/
theorem fetchRows_next (sort : SortOrder) (limit : ℕ) (h : (table.map position).Nodup)
    (cursor : Option TxListCursor) :
    fetchRows position sort limit table .next cursor =
      ((presented position sort table).filter fun row =>
        cursor.all fun cursor => rank sort cursor < rowRank position sort row).take
          (limit + 1) := by
  simp only [fetchRows, holds_keysetSql]
  rw [sort_keysetSql sort .next (nodup_map_filter h _), presented_eq sort h,
    sortBy_filter (nodup_map_rowRank h sort)]
  rfl

/-- Against the presentation order: the rows before the cursor, nearest first. -/
theorem fetchRows_prev (sort : SortOrder) (limit : ℕ) (h : (table.map position).Nodup)
    (cursor : Option TxListCursor) :
    fetchRows position sort limit table .prev cursor =
      ((presented position sort table).filter fun row =>
        cursor.all fun cursor => rowRank position sort row < rank sort cursor).reverse.take
          (limit + 1) := by
  simp only [fetchRows, holds_keysetSql]
  rw [sort_keysetSql sort .prev (nodup_map_filter h _), presented_eq sort h,
    sortBy_filter (nodup_map_rowRank h sort)]
  rfl

/-! ## One page -/

variable {codec : CursorCodec} {limit : ℕ}

/-- The page cut from the rows after a cursor. -/
theorem finalizePage_take_next (rows : List α) (hasPredecessor : Bool) :
    finalizePage (rows.take (limit + 1)) limit .next hasPredecessor
        (cursorFor codec position) =
      { rows := rows.take limit
        info :=
          { nextCursor := if limit < rows.length then
              (rows.take limit).getLast?.map (cursorFor codec position .next) else none
            prevCursor := if hasPredecessor then
              (rows.take limit).head?.map (cursorFor codec position .prev) else none
            limit } } := by
  have hlong : limit < (rows.take (limit + 1)).length ↔ limit < rows.length := by
    rw [List.length_take]
    omega
  rw [finalizePage_next, List.take_take, Nat.min_eq_left (Nat.le_succ limit)]
  simp only [hlong]

/-- The page cut from the rows before a cursor. -/
theorem finalizePage_take_prev (rows : List α) (hasPredecessor : Bool) :
    finalizePage (rows.reverse.take (limit + 1)) limit .prev hasPredecessor
        (cursorFor codec position) =
      { rows := rows.drop (rows.length - limit)
        info :=
          { nextCursor := (rows.drop (rows.length - limit)).getLast?.map
              (cursorFor codec position .next)
            prevCursor := if limit < rows.length then
              (rows.drop (rows.length - limit)).head?.map (cursorFor codec position .prev)
              else none
            limit } } := by
  have hlong : limit < (rows.reverse.take (limit + 1)).length ↔ limit < rows.length := by
    rw [List.length_take, List.length_reverse]
    omega
  have hrows : (rows.reverse.take limit).reverse = rows.drop (rows.length - limit) := by
    rw [List.take_reverse, List.reverse_reverse]
  rw [finalizePage_prev, List.take_take, Nat.min_eq_left (Nat.le_succ limit), hrows]
  simp only [hlong]

/-- The first page. -/
theorem listPage_none (sort : SortOrder) (h : (table.map position).Nodup) :
    listPage codec position sort limit table none =
      .ok (finalizePage ((presented position sort table).take (limit + 1)) limit .next false
        (cursorFor codec position)) := by
  have hall : ((presented position sort table).filter fun row =>
      (none : Option TxListCursor).all fun cursor => rank sort cursor < rowRank position sort row) =
      presented position sort table := by simp
  simp only [listPage, decodeCursor, Except.map, fetchRows_next sort limit h, hall,
    Option.isSome_none]

/-- The page after a row. -/
theorem listPage_next (sort : SortOrder) (h : (table.map position).Nodup) {row : α}
    (hcodec : codec.ReadsBack (position row)) :
    listPage codec position sort limit table (some (cursorFor codec position .next row)) =
      .ok (finalizePage (((presented position sort table).filter fun other =>
        rowRank position sort row < rowRank position sort other).take (limit + 1)) limit .next true
        (cursorFor codec position)) := by
  rw [listPage, decodeCursor, cursorFor, codec.decode_encode hcodec]
  simp only [Except.map, fetchRows_next sort limit h, Option.all_some, Option.isSome_some]
  rfl

/-- The page before a row. -/
theorem listPage_prev (sort : SortOrder) (h : (table.map position).Nodup) {row : α}
    (hcodec : codec.ReadsBack (position row)) :
    listPage codec position sort limit table (some (cursorFor codec position .prev row)) =
      .ok (finalizePage (((presented position sort table).filter fun other =>
        rowRank position sort other < rowRank position sort row).reverse.take (limit + 1)) limit
        .prev true (cursorFor codec position)) := by
  rw [listPage, decodeCursor, cursorFor, codec.decode_encode hcodec]
  simp only [Except.map, fetchRows_prev sort limit h, Option.all_some, Option.isSome_some]
  rfl

theorem increasing_presented (sort : SortOrder) (h : (table.map position).Nodup) :
    Increasing (rowRank position sort) (presented position sort table) := by
  rw [presented_eq sort h]
  exact increasing_sortBy (nodup_map_rowRank h sort)

theorem mem_presented (sort : SortOrder) (h : (table.map position).Nodup) {row : α} :
    row ∈ presented position sort table ↔ row ∈ table := by
  rw [presented_eq sort h, mem_sortBy]

end

/-! ## Walking forward -/

section

variable {codec : CursorCodec} {position : α → TxListCursor} {sort : SortOrder} {limit : ℕ}
  {tables : ℕ → List α}

/-- Tables between whose fetches rows newer than the first page are appended. -/
structure Appends (codec : CursorCodec) (position : α → TxListCursor) (sort : SortOrder)
    (limit : ℕ) (tables : ℕ → List α) : Prop where
  distinct : ∀ k, ((tables k).map position).Nodup
  kept : ∀ k, ∀ row ∈ tables k, row ∈ tables (k + 1)
  newer : ∀ k, ∀ row ∈ tables k, row ∉ tables 0 →
    ∀ first ∈ rowsAt codec position sort limit tables 0, position first < position row

theorem Appends.kept_of_first (h : Appends codec position sort limit tables) (k : ℕ) :
    ∀ row ∈ tables 0, row ∈ tables k := by
  induction k with
  | zero => exact fun row hrow => hrow
  | succ k ih => exact fun row hrow => h.kept k row (ih row hrow)

theorem visited_succ (k : ℕ) :
    visited codec position sort limit tables (k + 1) =
      visited codec position sort limit tables k ++ rowsAt codec position sort limit tables k := by
  rw [visited, List.range_succ, List.flatMap_append, List.flatMap_singleton, visited]

/-- What is known of the page of the `k`-th fetch and the rows visited so far: they
increase, they are rows of the tables, and either the walk is over and has visited
every row of the first table, or it goes on after its last row with the rest. -/
structure Walked (codec : CursorCodec) (position : α → TxListCursor) (sort : SortOrder)
    (limit : ℕ) (tables : ℕ → List α) (k : ℕ) (page : Page α) : Prop where
  increasing : Increasing (rowRank position sort)
    (visited codec position sort limit tables (k + 1))
  mem_tables : ∀ row ∈ visited codec position sort limit tables (k + 1), ∃ j, row ∈ tables j
  own : sort = .desc →
    ∀ row ∈ visited codec position sort limit tables (k + 1), row ∈ tables 0
  rest : (page.info.nextCursor = none ∧
      ∀ row ∈ tables 0, row ∈ visited codec position sort limit tables (k + 1)) ∨
    ∃ last ∈ tables k, page.info.nextCursor = some (cursorFor codec position .next last) ∧
      k < (visited codec position sort limit tables (k + 1)).length ∧
      (∃ first ∈ rowsAt codec position sort limit tables 0,
        rowRank position sort first ≤ rowRank position sort last) ∧
      (∀ row ∈ visited codec position sort limit tables (k + 1),
        rowRank position sort row ≤ rowRank position sort last) ∧
      ∀ row ∈ tables 0, row ∈ visited codec position sort limit tables (k + 1) ∨
        rowRank position sort last < rowRank position sort row

/-- One page: cut from the rest `rest` of the table, which comes after everything
visited before. -/
theorem walked_of_rest {k : ℕ} {rest : List α} {prevCursor : Option String} (hlimit : 1 ≤ limit)
    (hpage : pageAt codec position sort limit tables k = some (.ok
      { rows := rest.take limit
        info :=
          { nextCursor := if limit < rest.length then
              (rest.take limit).getLast?.map (cursorFor codec position .next) else none
            prevCursor, limit } }))
    (hrest : Increasing (rowRank position sort) rest) (hrestTables : ∀ row ∈ rest, row ∈ tables k)
    (hrestOwn : sort = .desc → ∀ row ∈ rest, row ∈ tables 0)
    (hbefore : Increasing (rowRank position sort) (visited codec position sort limit tables k))
    (hbeforeTables : ∀ row ∈ visited codec position sort limit tables k, ∃ j, row ∈ tables j)
    (hbeforeOwn : sort = .desc →
      ∀ row ∈ visited codec position sort limit tables k, row ∈ tables 0)
    (hcross : ∀ row ∈ visited codec position sort limit tables k, ∀ other ∈ rest,
      rowRank position sort row < rowRank position sort other)
    (hlength : k ≤ (visited codec position sort limit tables k).length)
    (hfirst : k = 0 ∨ ∃ first ∈ rowsAt codec position sort limit tables 0, ∀ row ∈ rest,
      rowRank position sort first ≤ rowRank position sort row)
    (hcomplete : ∀ row ∈ tables 0,
      row ∈ visited codec position sort limit tables k ∨ row ∈ rest) :
    ∃ page, pageAt codec position sort limit tables k = some (.ok page) ∧
      Walked codec position sort limit tables k page := by
  have hrows : rowsAt codec position sort limit tables k = rest.take limit := by
    rw [rowsAt, hpage]
  have hsub : ∀ row ∈ rest.take limit, row ∈ rest := fun row => List.mem_of_mem_take
  refine ⟨_, hpage, ?_, ?_, ?_, ?_⟩
  · rw [visited_succ, hrows]
    exact List.pairwise_append.mpr ⟨hbefore, hrest.sublist (List.take_sublist _ _),
      fun row hrow other hother => hcross row hrow other (hsub other hother)⟩
  · intro row hrow
    rw [visited_succ, hrows, List.mem_append] at hrow
    exact hrow.elim (hbeforeTables row) fun h => ⟨k, hrestTables row (hsub row h)⟩
  · intro hdesc row hrow
    rw [visited_succ, hrows, List.mem_append] at hrow
    exact hrow.elim (hbeforeOwn hdesc row) fun h => hrestOwn hdesc row (hsub row h)
  · rw [visited_succ, hrows]
    -- a longer rest has a next page, behind the last row of this one
    by_cases hlong : limit < rest.length
    · obtain ⟨last, hlastMem, hlast, hle, hsplit⟩ := hrest.exists_last_take hlimit hlong
      right
      refine ⟨last, hrestTables last (hsub last hlastMem), ?_, ?_, ?_, ?_, ?_⟩
      · simp only [if_pos hlong, hlast, Option.map_some]
      · rw [List.length_append, List.length_take]
        omega
      · obtain rfl | ⟨first, hfirstMem, hfirst⟩ := hfirst
        · exact ⟨last, hrows ▸ hlastMem, le_refl _⟩
        · exact ⟨first, hfirstMem, hfirst last (hsub last hlastMem)⟩
      · intro row hrow
        obtain hrow | hrow := List.mem_append.mp hrow
        · exact (hcross row hrow last (hsub last hlastMem)).le
        · exact hle row hrow
      · intro row hrow
        obtain hseen | hrow := hcomplete row hrow
        · exact .inl (List.mem_append_left _ hseen)
        · exact (hsplit row hrow).imp (List.mem_append_right _) id
    · left
      rw [List.take_of_length_le (by omega)]
      exact ⟨if_neg hlong, fun row hrow => List.mem_append.mpr (hcomplete row hrow)⟩

/-- Every page a walk gets is known as `Walked` says. -/
theorem walked_of_pageAt (hlimit : 1 ≤ limit) (h : Appends codec position sort limit tables)
    (hcodec : ∀ k, ∀ row ∈ tables k, codec.ReadsBack (position row)) (k : ℕ) :
    pageAt codec position sort limit tables k ≠ none →
      ∃ page, pageAt codec position sort limit tables k = some (.ok page) ∧
        Walked codec position sort limit tables k page := by
  induction k with
  | zero =>
      intro _
      have hpage : pageAt codec position sort limit tables 0 =
          some (listPage codec position sort limit (tables 0) none) := rfl
      rw [listPage_none sort (h.distinct 0), finalizePage_take_next] at hpage
      have hmem := @mem_presented α position (tables 0) sort (h.distinct 0)
      exact walked_of_rest hlimit hpage (increasing_presented sort (h.distinct 0))
        (fun row hrow => hmem.mp hrow) (fun _ row hrow => hmem.mp hrow) List.Pairwise.nil
        (by simp [visited]) (by simp [visited]) (by simp [visited]) (Nat.zero_le _) (.inl rfl)
        fun row hrow => .inr (hmem.mpr hrow)
  | succ k ih =>
      intro hsome
      have hprevious : pageAt codec position sort limit tables k ≠ none := by
        intro hnone
        exact hsome (by rw [pageAt, hnone])
      obtain ⟨page, hpage, hwalked⟩ := ih hprevious
      obtain ⟨hover, -⟩ | ⟨last, hlast, hnext, hlength, ⟨first, hfirst, hfirstLast⟩, hle, hrest⟩ :=
        hwalked.rest
      · exact absurd (by rw [pageAt, hpage]; simp [hover]) hsome
      · have hpage' : pageAt codec position sort limit tables (k + 1) =
            some (listPage codec position sort limit (tables (k + 1))
              (some (cursorFor codec position .next last))) := by
          rw [pageAt, hpage]
          simp [hnext]
        rw [listPage_next sort (h.distinct (k + 1)) (hcodec k last hlast),
          finalizePage_take_next] at hpage'
        have hmem : ∀ row, row ∈ ((presented position sort (tables (k + 1))).filter fun other =>
            rowRank position sort last < rowRank position sort other) ↔
            row ∈ tables (k + 1) ∧ rowRank position sort last < rowRank position sort row := by
          intro row
          rw [List.mem_filter, mem_presented sort (h.distinct (k + 1)), decide_eq_true_eq]
        refine walked_of_rest hlimit hpage'
          ((increasing_presented sort (h.distinct (k + 1))).sublist List.filter_sublist)
          (fun row hrow => ((hmem row).mp hrow).1) ?_ hwalked.increasing hwalked.mem_tables
          hwalked.own (fun row hrow other hother => (hle row hrow).trans_lt
            ((hmem other).mp hother).2) hlength ?_ ?_
        · -- a row appended since ranks before the first page, newest first
          intro hdesc row hrow
          obtain ⟨hrow, hafter⟩ := (hmem row).mp hrow
          by_contra hnew
          have hnewer := h.newer (k + 1) row hrow hnew first hfirst
          subst hdesc
          exact absurd ((rank_desc_lt.mpr hnewer).trans_le hfirstLast) hafter.not_gt
        · exact .inr ⟨first, hfirst, fun row hrow =>
            hfirstLast.trans ((hmem row).mp hrow).2.le⟩
        · intro row hrow
          exact (hrest row hrow).imp id fun hafter =>
            (hmem row).mpr ⟨h.kept_of_first (k + 1) row hrow, hafter⟩

instance : Finite TxListCursor :=
  Finite.of_injective
    (fun position : TxListCursor =>
      (position.ledgerSequence.toBitVec.toFin, position.applicationOrder.toBitVec.toFin))
    (by
      intro a b h
      obtain ⟨hledger, horder⟩ := Prod.mk.inj h
      cases a
      cases b
      congr
      · exact Int64.toBitVec.inj (BitVec.toFin_inj.mp hledger)
      · exact Int16.toBitVec.inj (BitVec.toFin_inj.mp horder))

/-- A walk ends: every page with a continuation adds a row, and there are only so many
positions. -/
theorem exists_pageAt_eq_none (hlimit : 1 ≤ limit)
    (h : Appends codec position sort limit tables)
    (hcodec : ∀ k, ∀ row ∈ tables k, codec.ReadsBack (position row)) :
    ∃ n, pageAt codec position sort limit tables n = none := by
  by_contra hforever
  push Not at hforever
  have : Fintype TxListCursor := Fintype.ofFinite _
  obtain ⟨page, hpage, hwalked⟩ :=
    walked_of_pageAt hlimit h hcodec (Fintype.card TxListCursor) (hforever _)
  obtain ⟨hover, -⟩ | ⟨last, -, -, hlength, -⟩ := hwalked.rest
  · exact hforever (Fintype.card TxListCursor + 1) (by rw [pageAt, hpage]; simp [hover])
  · have hnodup : ((visited codec position sort limit tables
        (Fintype.card TxListCursor + 1)).map position).Nodup := by
      have hranks := hwalked.increasing.nodup
      rw [show rowRank position sort = rank sort ∘ position from rfl, ← List.map_map] at hranks
      exact hranks.of_map
    have hcard := hnodup.length_le_card
    rw [List.length_map] at hcard
    omega

end

/-! ## Pages of an unchanged table -/

section

variable {codec : CursorCodec} {position : α → TxListCursor} {sort : SortOrder} {limit : ℕ}
  {table : List α}

/-- The `i`-th page of a list. -/
def chunk (limit : ℕ) (rows : List α) (i : ℕ) : List α :=
  (rows.drop (i * limit)).take limit

/-- The `i`-th page of a table, with its continuations. -/
structure IsPage (codec : CursorCodec) (position : α → TxListCursor) (sort : SortOrder)
    (limit : ℕ) (table : List α) (i : ℕ) (page : Page α) : Prop where
  rows_eq : page.rows = chunk limit (presented position sort table) i
  next_eq : page.info.nextCursor =
    if (i + 1) * limit < (presented position sort table).length then
      (chunk limit (presented position sort table) i).getLast?.map
        (cursorFor codec position .next)
    else none
  prev_eq : page.info.prevCursor =
    if i = 0 then none
    else (chunk limit (presented position sort table) i).head?.map
      (cursorFor codec position .prev)
  nonempty : i = 0 ∨ i * limit < (presented position sort table).length

theorem head?_chunk (hlimit : 1 ≤ limit) {rows : List α} {i : ℕ} (hi : i * limit < rows.length) :
    (chunk limit rows i).head? = some rows[i * limit] := by
  rw [List.head?_eq_getElem?, chunk, List.getElem?_take_of_lt (by omega), List.getElem?_drop,
    Nat.add_zero, List.getElem?_eq_getElem hi]

/-- Only the first page has no continuation backwards. -/
theorem IsPage.prevCursor_eq_none_iff (hlimit : 1 ≤ limit) {i : ℕ} {page : Page α}
    (h : IsPage codec position sort limit table i page) :
    page.info.prevCursor = none ↔ i = 0 := by
  rw [h.prev_eq]
  obtain rfl | hi := h.nonempty
  · simp
  · by_cases hzero : i = 0
    · simp [hzero]
    · rw [if_neg hzero, head?_chunk hlimit hi]
      simp [hzero]

theorem isPage_first (codec : CursorCodec) (sort : SortOrder) (limit : ℕ)
    (h : (table.map position).Nodup) :
    ∃ page, listPage codec position sort limit table none = .ok page ∧
      IsPage codec position sort limit table 0 page := by
  refine ⟨_, listPage_none sort h, ?_⟩
  rw [finalizePage_take_next]
  exact ⟨by simp [chunk], by simp [chunk], by simp, .inl rfl⟩

theorem take_append_getElem_cons (rows : List α) {m : ℕ} (hm : m < rows.length) :
    rows.take m ++ rows[m] :: rows.drop (m + 1) = rows := by
  rw [← List.drop_eq_getElem_cons hm, List.take_append_drop]

theorem isPage_next (hlimit : 1 ≤ limit) (h : (table.map position).Nodup)
    (hcodec : ∀ row ∈ table, codec.ReadsBack (position row)) {i : ℕ} {page : Page α}
    (hpage : IsPage codec position sort limit table i page) {cursor : String}
    (hcursor : page.info.nextCursor = some cursor) :
    ∃ page', listPage codec position sort limit table (some cursor) = .ok page' ∧
      IsPage codec position sort limit table (i + 1) page' := by
  rw [hpage.next_eq] at hcursor
  split at hcursor
  · rename_i hmore
    have hbound : i * limit + limit < (presented position sort table).length := by
      rw [Nat.succ_mul] at hmore
      exact hmore
    have hm : i * limit + (limit - 1) < (presented position sort table).length := by omega
    -- the last row of the page, and the rows after it
    have hlast : (chunk limit (presented position sort table) i).getLast? =
        some (presented position sort table)[i * limit + (limit - 1)] := by
      have hlength : (chunk limit (presented position sort table) i).length = limit := by
        rw [chunk, List.length_take, List.length_drop]
        omega
      rw [List.getLast?_eq_getElem?, hlength, chunk, List.getElem?_take_of_lt (by omega),
        List.getElem?_drop, List.getElem?_eq_getElem hm]
    rw [hlast, Option.map_some, Option.some.injEq] at hcursor
    subst hcursor
    have hmem := (mem_presented sort h).mp (List.getElem_mem hm)
    have hafter : (presented position sort table).filter (fun other =>
        rowRank position sort (presented position sort table)[i * limit + (limit - 1)] <
          rowRank position sort other) =
        (presented position sort table).drop ((i + 1) * limit) := by
      have hsplit := take_append_getElem_cons _ hm
      have hincreasing := increasing_presented sort h
      rw [← hsplit] at hincreasing
      have hfilter := filter_above hincreasing
      rw [hsplit] at hfilter
      rw [hfilter]
      congr 1
      rw [Nat.succ_mul]
      omega
    refine ⟨_, listPage_next sort h (hcodec _ hmem), ?_⟩
    rw [hafter, finalizePage_take_next]
    refine ⟨rfl, ?_, ?_, .inr hmore⟩
    · have hiff : limit < ((presented position sort table).drop ((i + 1) * limit)).length ↔
          (i + 1 + 1) * limit < (presented position sort table).length := by
        rw [List.length_drop, Nat.succ_mul (i + 1)]
        omega
      simp only [hiff, chunk]
    · simp [chunk]
  · cases hcursor

theorem isPage_prev (hlimit : 1 ≤ limit) (h : (table.map position).Nodup)
    (hcodec : ∀ row ∈ table, codec.ReadsBack (position row)) {i : ℕ} {page : Page α}
    (hpage : IsPage codec position sort limit table (i + 1) page) {cursor : String}
    (hcursor : page.info.prevCursor = some cursor) :
    ∃ page', listPage codec position sort limit table (some cursor) = .ok page' ∧
      IsPage codec position sort limit table i page' := by
  have hm : (i + 1) * limit < (presented position sort table).length :=
    hpage.nonempty.resolve_left (Nat.succ_ne_zero i)
  -- the first row of the page, and the rows before it
  rw [hpage.prev_eq, if_neg (Nat.succ_ne_zero i), head?_chunk hlimit hm, Option.map_some,
    Option.some.injEq] at hcursor
  subst hcursor
  have hmem := (mem_presented sort h).mp (List.getElem_mem hm)
  have hbefore : (presented position sort table).filter (fun other =>
      rowRank position sort other <
        rowRank position sort (presented position sort table)[(i + 1) * limit]) =
      (presented position sort table).take ((i + 1) * limit) := by
    have hsplit := take_append_getElem_cons _ hm
    have hincreasing := increasing_presented sort h
    rw [← hsplit] at hincreasing
    have hfilter := filter_below hincreasing
    rw [hsplit] at hfilter
    exact hfilter
  have hlength : ((presented position sort table).take ((i + 1) * limit)).length =
      i * limit + limit := by
    rw [List.length_take, Nat.succ_mul] at *
    omega
  have hrows : ((presented position sort table).take ((i + 1) * limit)).drop
      (((presented position sort table).take ((i + 1) * limit)).length - limit) =
      chunk limit (presented position sort table) i := by
    rw [hlength, Nat.add_sub_cancel, List.drop_take, chunk]
    congr 1
    rw [Nat.succ_mul]
    omega
  refine ⟨_, listPage_prev sort h (hcodec _ hmem), ?_⟩
  rw [hbefore, finalizePage_take_prev, hrows, hlength]
  refine ⟨rfl, ?_, ?_, ?_⟩
  · rw [if_pos hm]
  · cases i with
    | zero => simp
    | succ i =>
        rw [if_pos (by rw [Nat.succ_mul]; omega), if_neg (Nat.succ_ne_zero i)]
  · right
    rw [Nat.succ_mul] at hm
    omega

/-- Every page reached by continuations is a page of the table. -/
theorem isPage_of_reached (hlimit : 1 ≤ limit) (h : (table.map position).Nodup)
    (hcodec : ∀ row ∈ table, codec.ReadsBack (position row)) {page : Page α}
    (hreached : Reached codec position sort limit table page) :
    ∃ i, IsPage codec position sort limit table i page := by
  induction hreached with
  | first hpage =>
      obtain ⟨page', hpage', his⟩ := isPage_first codec sort limit h
      rw [hpage] at hpage'
      cases hpage'
      exact ⟨0, his⟩
  | next _ hcursor hpage ih =>
      obtain ⟨i, his⟩ := ih
      obtain ⟨page', hpage', his'⟩ := isPage_next hlimit h hcodec his hcursor
      rw [hpage] at hpage'
      cases hpage'
      exact ⟨i + 1, his'⟩
  | prev _ hcursor hpage ih =>
      obtain ⟨i, his⟩ := ih
      cases i with
      | zero => simp [his.prev_eq] at hcursor
      | succ i =>
          obtain ⟨page', hpage', his'⟩ := isPage_prev hlimit h hcodec his hcursor
          rw [hpage] at hpage'
          cases hpage'
          exact ⟨i, his'⟩

end

/-! ## Walks -/

/-- Rows in presentation order, none twice. -/
def InOrder (position : α → TxListCursor) (sort : SortOrder) (rows : List α) : Prop :=
  rows.Pairwise fun a b =>
    match sort with
    | .asc => position a < position b
    | .desc => position b < position a

theorem inOrder_of_increasing {position : α → TxListCursor} {sort : SortOrder} {rows : List α}
    (h : Increasing (rowRank position sort) rows) : InOrder position sort rows := by
  cases sort
  · exact h.imp fun hab => rank_asc_lt.mp hab
  · exact h.imp fun hab => rank_desc_lt.mp hab

section

variable {codec : CursorCodec} {position : α → TxListCursor} {sort : SortOrder} {limit : ℕ}
  {tables : ℕ → List α}

/-- The last page of a walk, and what is known of it. -/
theorem exists_last_page (hlimit : 1 ≤ limit) (h : Appends codec position sort limit tables)
    (hcodec : ∀ k, ∀ row ∈ tables k, codec.ReadsBack (position row)) :
    ∃ n page, pageAt codec position sort limit tables (n + 1) = none ∧
      (∀ k ≤ n, ∃ page, pageAt codec position sort limit tables k = some (.ok page)) ∧
      Walked codec position sort limit tables n page ∧
      ∀ row ∈ tables 0, row ∈ visited codec position sort limit tables (n + 1) := by
  have hend := exists_pageAt_eq_none hlimit h hcodec
  classical
  cases hfind : Nat.find hend with
  | zero =>
      have hnone := Nat.find_spec hend
      rw [hfind] at hnone
      cases hnone
  | succ n =>
      have hnone := Nat.find_spec hend
      rw [hfind] at hnone
      have hok : ∀ k ≤ n, ∃ page, pageAt codec position sort limit tables k = some (.ok page) ∧
          Walked codec position sort limit tables k page :=
        fun k hk => walked_of_pageAt hlimit h hcodec k (Nat.find_min hend (by omega))
      obtain ⟨page, hpage, hwalked⟩ := hok n le_rfl
      refine ⟨n, page, hnone, fun k hk => (hok k hk).imp fun _ => And.left, hwalked, ?_⟩
      obtain ⟨-, hcomplete⟩ | ⟨last, -, hnext, -⟩ := hwalked.rest
      · exact hcomplete
      · -- a page with a continuation is not the last
        rw [pageAt, hpage] at hnone
        simp [hnext] at hnone

end

/-- A forward walk ends and has visited the rows it started with in order and once,
and newest first or on an unchanged table no others; on an unchanged table a
continuation backwards leads to the page before; and cursors survive the wire. -/
theorem keysetWalk_visits (codec : CursorCodec) (position : α → TxListCursor) (sort : SortOrder)
    (limit : ℕ) (tables : ℕ → List α) (hlimit : 1 ≤ limit)
    (h : Appends codec position sort limit tables)
    (hcodec : ∀ k, ∀ row ∈ tables k, codec.ReadsBack (position row)) :
    (∃ n, pageAt codec position sort limit tables n = none ∧
      (∀ k < n, ∃ page, pageAt codec position sort limit tables k = some (.ok page)) ∧
      InOrder position sort (visited codec position sort limit tables n) ∧
      (∀ row ∈ tables 0, row ∈ visited codec position sort limit tables n) ∧
      (∀ row ∈ visited codec position sort limit tables n, ∃ k, row ∈ tables k) ∧
      (sort = .desc ∨ (∀ k, tables k = tables 0) →
        visited codec position sort limit tables n = presented position sort (tables 0))) ∧
    (∀ page, Reached codec position sort limit (tables 0) page →
      ∃ i, page.rows = chunk limit (presented position sort (tables 0)) i ∧
        (page.info.prevCursor = none ↔ i = 0) ∧
        ∀ cursor, page.info.prevCursor = some cursor →
          ∃ page', listPage codec position sort limit (tables 0) (some cursor) = .ok page' ∧
            page'.rows = chunk limit (presented position sort (tables 0)) (i - 1)) ∧
    ∀ k, ∀ row ∈ tables k, ∀ direction,
      codec.decode (codec.encode (position row) direction) = .ok (direction, position row) := by
  refine ⟨?_, ?_, fun k row hrow direction => codec.decode_encode (hcodec k row hrow) direction⟩
  · obtain ⟨n, page, hnone, hok, hwalked, hcomplete⟩ := exists_last_page hlimit h hcodec
    refine ⟨n + 1, hnone, fun k hk => hok k (by omega), inOrder_of_increasing hwalked.increasing,
      hcomplete, hwalked.mem_tables, fun hcase => ?_⟩
    -- rows that arrive during a descending walk stand before it
    have hown : ∀ row ∈ visited codec position sort limit tables (n + 1), row ∈ tables 0 := by
      obtain hdesc | hunchanged := hcase
      · exact hwalked.own hdesc
      · intro row hrow
        obtain ⟨k, hk⟩ := hwalked.mem_tables row hrow
        exact hunchanged k ▸ hk
    refine hwalked.increasing.eq_of_mem_iff (increasing_presented sort (h.distinct 0)) ?_
    intro row
    rw [mem_presented sort (h.distinct 0)]
    exact ⟨hown row, hcomplete row⟩
  · intro page hreached
    obtain ⟨i, his⟩ := isPage_of_reached hlimit (h.distinct 0) (hcodec 0) hreached
    refine ⟨i, his.rows_eq, his.prevCursor_eq_none_iff hlimit, fun cursor hcursor => ?_⟩
    -- the first page has no cursor back
    cases i with
    | zero => simp [his.prev_eq] at hcursor
    | succ i =>
        obtain ⟨page', hpage', his'⟩ := isPage_prev hlimit (h.distinct 0) (hcodec 0) his hcursor
        exact ⟨page', hpage', his'.rows_eq⟩

/-- The text of a cursor in ledger 5. -/
def pinnedText (direction order : String) : Bytes :=
  asBytes ("\x7b\"dir\":\"" ++ direction ++
    "\",\"p\":\x7b\"src\":\"ch_position\",\"ledger_sequence\":5,\"application_order\":" ++
    order ++ "\x7d\x7d")

/-- Its base64, by the parts that differ. -/
def pinnedBase64Url (direction order : String) : String :=
  "eyJkaXIiOiJ" ++ direction ++
    "IiwicCI6eyJzcmMiOiJjaF9wb3NpdGlvbiIsImxlZGdlcl9zZXF1ZW5jZSI6NSwiYXBwbGljYXRpb25fb3JkZXIiOj" ++
    order

/-- The cursors of some rows with their text and base64. -/
def pinnedCursors : List (Json × Bytes × String) :=
  [(1, "1", "F9fQ"), (2, "2", "J9fQ"), (3, "3", "N9fQ"), (4, "4", "R9fQ"), (5, "5", "V9fQ")].flatMap
    fun (order, text, tail) =>
      [(cursorEnvelope ⟨5, order⟩ .next, pinnedText "next" text, pinnedBase64Url "uZXh0" tail),
        (cursorEnvelope ⟨5, order⟩ .prev, pinnedText "prev" text, pinnedBase64Url "wcmV2" tail)]

/-- The crates on these cursors. -/
def CursorCodec.pinned : CursorCodec where
  toVec json := ((pinnedCursors.find? (·.1 = json)).map (·.2.1)).getD []
  fromSlice bytes := (pinnedCursors.find? (·.2.1 = bytes)).map (·.1)
  base64Encode bytes := ((pinnedCursors.find? (·.2.1 = bytes)).map (·.2.2)).getD ""
  base64Decode text := (pinnedCursors.find? (·.2.2 = text)).map (·.2.1)

/-- A walk over two rows, one a page. -/
theorem keysetWalk_visits_pinned :
    ∃ n, pageAt CursorCodec.pinned id .desc 1 (fun _ => [⟨5, 1⟩, ⟨5, 2⟩]) n = none ∧
      visited CursorCodec.pinned id .desc 1 (fun _ => [⟨5, 1⟩, ⟨5, 2⟩]) n =
        presented id .desc [⟨5, 1⟩, ⟨5, 2⟩] := by
  have hcodec : ∀ position ∈ ([⟨5, 1⟩, ⟨5, 2⟩] : List TxListCursor),
      CursorCodec.pinned.ReadsBack position := by
    intro position hposition direction
    simp only [List.mem_cons, List.not_mem_nil, or_false] at hposition
    obtain rfl | rfl := hposition <;> cases direction <;> decide
  obtain ⟨⟨n, hnone, -, -, -, -, hvisited⟩, -⟩ := keysetWalk_visits CursorCodec.pinned id .desc 1
    (fun _ => [⟨5, 1⟩, ⟨5, 2⟩]) le_rfl
    ⟨fun _ => by decide, fun _ _ hrow => hrow, fun _ _ hrow hnew => absurd hrow hnew⟩
    fun _ => hcodec
  exact ⟨n, hnone, hvisited (.inl rfl)⟩

end SorobanExplorer
