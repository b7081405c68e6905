import SorobanExplorer.Persist.CommitMarker
import SorobanExplorer.Persist.ContractVerdicts

/-!
# The writer's requests as one write

The writer streams the rows of a ledger table by table and sends its marker last; to the
writers of contracts that is one request.  Here the store of the requests is read as a
warehouse.  A row that comes into the store, by an acknowledged insert or late, is a row that
lands (`drift_ofStore`); and where a ledger has its marker, the tables hold what a write in
one step adds to them (`mem_write_ofStore`).
-/

namespace SorobanExplorer.ContractVerdicts

open Interaction NftReclassify Persist Relation Store

/-! ## Rows of all tables -/

namespace ContractTable

/-- The stream of the writer that has the rows of a table. -/
def stream : ContractTable → StreamTable
  | wasmPrograms => .wasmPrograms
  | sorobanContracts => .sorobanContracts
  | nft (.tokens, .hot) => .nfts
  | nft (.tokens, .pending) => .nftsPending
  | nft (.ownershipChanges, .hot) => .nftOwnershipChanges
  | nft (.ownershipChanges, .pending) => .nftOwnershipChangesPending

def all : List ContractTable :=
  [wasmPrograms, sorobanContracts, nft (.tokens, .hot), nft (.tokens, .pending),
    nft (.ownershipChanges, .hot), nft (.ownershipChanges, .pending)]

theorem mem_all (table : ContractTable) : table ∈ all := by
  rcases table with _ | _ | ⟨_ | _, _ | _⟩ <;> decide

/-- A row of any of the tables. -/
abbrev AnyRow : Type := Σ table : ContractTable, table.Row

/-- The rows of one table. -/
def rowsOf (table : ContractTable) (rows : List AnyRow) : List table.Row :=
  rows.filterMap fun row => if h : row.1 = table then some (h ▸ row.2) else none

theorem mem_rowsOf {table : ContractTable} {rows : List AnyRow} {row : table.Row} :
    row ∈ table.rowsOf rows ↔ ⟨table, row⟩ ∈ rows := by
  rw [rowsOf, List.mem_filterMap]
  constructor
  · rintro ⟨⟨other, row'⟩, hmem, hrow⟩
    by_cases h : other = table
    · subst h
      obtain rfl : row' = row := by simpa using hrow
      exact hmem
    · simp [h] at hrow
  · exact fun hmem => ⟨⟨table, row⟩, hmem, by simp⟩

theorem rowsOf_append (table : ContractTable) (rows rows' : List AnyRow) :
    table.rowsOf (rows ++ rows') = table.rowsOf rows ++ table.rowsOf rows' :=
  List.filterMap_append

@[simp] theorem rowsOf_self (table : ContractTable) (row : table.Row) :
    table.rowsOf [⟨table, row⟩] = [row] := by
  simp [rowsOf]

theorem rowsOf_of_ne {table other : ContractTable} (row : table.Row) (h : table ≠ other) :
    other.rowsOf [⟨table, row⟩] = [] := by
  simp [rowsOf, h]

end ContractTable

open ContractTable

/-! ## The store as a warehouse -/

/-- The rows of a staging, as the writer streams them. -/
def StagedRows.streamed (staged : StagedRows) (stream : StreamTable) : List AnyRow :=
  (all.filter (·.stream = stream)).flatMap fun table =>
    (staged.rows table).map fun row => ⟨table, row⟩

theorem StagedRows.mem_streamed {staged : StagedRows} {table : ContractTable} {row : table.Row}
    (h : row ∈ staged.rows table) : ⟨table, row⟩ ∈ staged.streamed table.stream :=
  List.mem_flatMap.mpr ⟨table, List.mem_filter.mpr ⟨mem_all table, decide_eq_true rfl⟩,
    List.mem_map_of_mem h⟩

theorem StagedRows.mem_of_streamed {staged : StagedRows} {stream : StreamTable}
    {table : ContractTable} {row : table.Row} (h : ⟨table, row⟩ ∈ staged.streamed stream) :
    row ∈ staged.rows table := by
  obtain ⟨other, -, hmem⟩ := List.mem_flatMap.mp h
  obtain ⟨row', hrow', heq⟩ := List.mem_map.mp hmem
  cases heq
  exact hrow'

/-- The tables of a store, oldest rows first, and the ledgers that have their marker; the
stagings are those that were sent. -/
def Warehouse.ofStore (sent : List StagedRows) (s : Store AnyRow) : Warehouse where
  rows table := table.rowsOf (s.rows.reverse.map Prod.snd)
  committed := s.ledgers.map fun marker => UInt32.ofNat marker.row.sequence.toNat
  sent := sent

open Warehouse

theorem Warehouse.mem_rows_ofStore {sent : List StagedRows} {s : Store AnyRow}
    {table : ContractTable} {row : table.Row} :
    row ∈ (ofStore sent s).rows table ↔ ∃ stream, (stream, ⟨table, row⟩) ∈ s.rows := by
  rw [ofStore, mem_rowsOf]
  simp

/-- A row that comes into the store lands. -/
theorem ofStore_cons (sent : List StagedRows) (s : Store AnyRow) (stream : StreamTable)
    (table : ContractTable) (row : table.Row) :
    ofStore sent { s with rows := (stream, ⟨table, row⟩) :: s.rows } =
      (ofStore sent s).withRows table ((ofStore sent s).rows table ++ [row]) := by
  have hrows : ∀ other : ContractTable,
      other.rowsOf (((stream, ⟨table, row⟩) :: s.rows).reverse.map Prod.snd) =
        ((ofStore sent s).withRows table ((ofStore sent s).rows table ++ [row])).rows other := by
    intro other
    rw [List.reverse_cons, List.map_append, rowsOf_append]
    by_cases hother : other = table
    · subst hother
      rw [rows_withRows_self, List.map_singleton, rowsOf_self]
      rfl
    · rw [rows_withRows_of_ne hother, List.map_singleton, rowsOf_of_ne row (Ne.symm hother),
        List.append_nil]
      rfl
  exact congrArg (fun rows => Warehouse.mk rows (ofStore sent s).committed sent) (funext hrows)

/-- Whatever the store is given of the rows of stagings, by an acknowledged insert or late, is
rows that land. -/
theorem drift_ofStore {sent : List StagedRows} (s : Store AnyRow)
    (rows : List (StreamTable × AnyRow))
    (hsent : ∀ row ∈ rows, ∃ staged ∈ sent, row.2 ∈ staged.streamed row.1) :
    ReflTransGen Warehouse.Drift (ofStore sent s)
      (ofStore sent { s with rows := rows ++ s.rows }) := by
  induction rows with
  | nil => exact .refl
  | cons row rows ih =>
      obtain ⟨stream, table, row⟩ := row
      obtain ⟨staged, hstaged, hrow⟩ := hsent _ List.mem_cons_self
      refine (ih fun row hrow => hsent row (List.mem_cons_of_mem _ hrow)).tail ?_
      have hland := ofStore_cons sent { s with rows := rows ++ s.rows } stream table row
      rw [List.cons_append, hland]
      exact .land hstaged (StagedRows.mem_of_streamed hrow)

/-- **A write in one step.**  Where a ledger has its marker, a write in one step adds no row to
the tables that is not there. -/
theorem mem_write_ofStore {prior : LedgerRow → Store AnyRow → Prop} {s : Store AnyRow}
    (hs : s.Consistent prior) {marker : Marker} (hmarker : marker ∈ s.ledgers)
    {staged : StagedRows} (hstaged : s.stagings[marker.staging]? =
      some { ledgerRows := [marker], rows := staged.streamed })
    (sent : List StagedRows) (table : ContractTable) (row : table.Row) :
    row ∈ ((ofStore sent s).write staged).rows table ↔ row ∈ (ofStore sent s).rows table := by
  constructor
  · intro hrow
    rcases List.mem_append.mp hrow with hold | hnew
    · exact hold
    · obtain ⟨staged', writer, hstaged', -, hacked⟩ :=
        hs.complete marker (hs.ledgers_sent marker hmarker)
      obtain rfl := Option.some.inj (hstaged'.symm.trans hstaged)
      have hstored := hs.acked_stored writer _ _
        (hacked table.stream _ (StagedRows.mem_streamed hnew))
      exact mem_rows_ofStore.mpr ⟨table.stream, hstored⟩
  · exact List.mem_append_left _

end SorobanExplorer.ContractVerdicts
