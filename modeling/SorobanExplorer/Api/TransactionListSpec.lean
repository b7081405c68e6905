import SorobanExplorer.Api.TransactionList
import SorobanExplorer.Lib.Windowed

/-!
# What the transaction list returns

Under the contract or operation-type filter a page looks for its rows in a window
of candidates.  `listComplete_iff` says when a walk of the filtered list returns
every transaction that passes the filters.

## Strategy

`fetchList_next` reads one fetch as `Windowed.found` in the candidates past the
cursor.  The `k`-th page is then the one of `Windowed.fetchAt`, and the walk is
complete exactly if that one is.  Only where the first page reads another partition
than the transactions lie in does no fetch see them.
-/

namespace SorobanExplorer.TransactionList

open Ranked KeyedFold Text

/-! ## The filtered list -/

section

variable (db : Database)

/-- The tables agree with each other, and the transactions lie in one partition. -/
structure Database.Consistent : Prop where
  distinct : (db.transactions.map (·.position)).Nodup
  activity : ∀ row ∈ db.contractActivity, ∃ t ∈ db.transactions, t.position = row.position
  operations : ∀ row ∈ db.transactionOperations, ∃ t ∈ db.transactions, t.position = row.position
  ledgers : ∀ t ∈ db.transactions, ∃ ledger ∈ db.ledgers, ledger.sequence = t.ledgerSequence
  accounts : ∀ a ∈ db.accounts, ∀ b ∈ db.accounts, a.accountId = b.accountId → a.id = b.id
  contracts : ∀ c ∈ db.sorobanContracts, ∀ d ∈ db.sorobanContracts,
    c.contractId = d.contractId → c.id = d.id
  partition : ∀ t ∈ db.transactions, ∀ u ∈ db.transactions,
    partitionOf t.ledgerSequence = partitionOf u.ledgerSequence

def hasSource (account : String) (t : TransactionsRow) : Bool :=
  db.accounts.any fun row => row.accountId = account ∧ row.id = t.sourceId

def touches (contract : String) (t : TransactionsRow) : Bool :=
  db.sorobanContracts.any fun c => c.contractId = contract ∧
    db.contractActivity.any fun row => row.contractId = c.id ∧ row.position = t.position

def hasOperation (opType : Int16) (t : TransactionsRow) : Bool :=
  db.transactionOperations.any fun row => row.type = opType ∧ row.position = t.position

variable (params : ListParams)

/-- A transaction that passes every filter. -/
def passes (t : TransactionsRow) : Bool :=
  params.filterSourceAccount.all (hasSource db · t) &&
    (params.filterContractId.all (touches db · t) &&
      params.filterOperationType.all (hasOperation db · t))

/-- The filter that takes the candidates: the contract if it is set, else the
operation type. -/
def leads (t : TransactionsRow) : Bool :=
  match params.filterContractId with
  | some contract => touches db contract t
  | none => params.filterOperationType.all (hasOperation db · t)

def newestFirst (rows : List TransactionsRow) : List TransactionsRow :=
  presented TransactionsRow.position .desc rows

/-- The candidates, newest first. -/
def candidates : List TransactionsRow :=
  newestFirst (db.transactions.filter (leads db params))

/-- The partition that a page without a contract filter reads: the cursor's, and the
chain head's on the first page. -/
def readPartition (cursor : Option TxListCursor) : Int64 :=
  (cursor.map fun cursor => partitionOf cursor.ledgerSequence).getD
    (partitionOf (maxSequence db.ledgers))

/-- A page can see the transactions: only a contract's are read from every partition. -/
def Reads (cursor : Option TxListCursor) : Prop :=
  params.filterContractId = none → ∀ t ∈ db.transactions,
    partitionOf t.ledgerSequence = readPartition db cursor

/-- How many candidates a fetch looks at. -/
def window (limit : ℕ) : ℕ :=
  if params.filterContractId = none ∧ params.filterOperationType = none then
    db.transactions.length
  else limit * 4

/-- The row the list shows of a transaction. -/
def listRow (t : TransactionsRow) : TxListRow where
  hash := hexEncode t.hash
  ledgerSequence := t.ledgerSequence
  applicationOrder := t.applicationOrder
  sourceAccount := nonEmpty ((db.accounts.find? (·.id = t.sourceId)).map (·.accountId))
  feeCharged := t.feeCharged
  innerTxHash := nonEmpty (t.innerTxHash.map hexEncode)
  successful := t.successful
  operationCount := t.operationCount
  hasSoroban := t.hasSoroban
  operationTypes := sortedUniqueLabels
    ((db.transactionOperations.filter (·.position = t.position)).map (·.type)).dedup
  createdAt := ((lastOf t.ledgerSequence
    (db.ledgers.map fun ledger => (ledger.sequence, ledger.closedAt))).getD 0)

/-- The walk ends and its pages are the transactions that pass the filters, newest
first. -/
def ListComplete (codec : CursorCodec) (limit : ℕ) (headRead : Bool) : Prop :=
  ∃ n, pageAt db codec params limit headRead n = none ∧
    (∀ k < n, ∃ page, pageAt db codec params limit headRead k = some (.ok page)) ∧
    visited db codec params limit headRead n =
      (newestFirst (db.transactions.filter (passes db params))).map (listRow db)

end

variable {db : Database} {params : ListParams}

/-! ## The rows of a page -/

theorem le_maxSequence {ledgers : List LedgersRow} {ledger : LedgersRow} (h : ledger ∈ ledgers) :
    ledger.sequence ≤ maxSequence ledgers := by
  unfold maxSequence
  have hsorted := pairwise_sortBy
    (fun row : LedgersRow => OrderDual.toDual row.sequence.toInt) ledgers
  have hmem : ledger ∈ sortBy (fun row => OrderDual.toDual row.sequence.toInt) ledgers :=
    mem_sortBy.mpr h
  cases hrows : sortBy (fun row : LedgersRow => OrderDual.toDual row.sequence.toInt) ledgers with
  | nil => rw [hrows] at hmem; cases hmem
  | cons first rest =>
      rw [hrows] at hsorted hmem
      rw [List.head?_cons, Option.map_some, Option.getD_some, Int64.le_iff_toInt_le]
      obtain rfl | hrest := List.mem_cons.mp hmem
      · exact le_rfl
      · exact OrderDual.toDual_le_toDual.mp (List.rel_of_pairwise_cons hsorted hrest)

theorem lastOf_resolveAccounts {ids : List Int64} {id : Int64} (h : id ∈ ids) :
    lastOf id (resolveAccounts db ids) = (db.accounts.find? (·.id = id)).map (·.accountId) := by
  rw [resolveAccounts, lastOf_map_pair, getLast?_filter_firstBy, List.find?_filter]
  congr 2
  funext row
  by_cases hid : row.id = id
  · simp [hid, h]
  · simp [hid]

@[simp] theorem sortedUniqueLabels_nil : sortedUniqueLabels [] = [] := by
  simp [sortedUniqueLabels, sortedUnique]

theorem lastOf_fetchTxListAggregates {keys : List TxListCursor} {position : TxListCursor}
    (h : position ∈ keys) :
    (lastOf position (fetchTxListAggregates db keys)).getD [] =
      sortedUniqueLabels
        ((db.transactionOperations.filter (·.position = position)).map (·.type)).dedup := by
  have hrows : ∀ row : TransactionOperationsRow, row.position = position →
      row.position ∈ keys ∧ partitionOf row.ledgerSequence ∈
        keys.map fun key => partitionOf key.ledgerSequence := by
    rintro row rfl
    exact ⟨h, List.mem_map.mpr ⟨row.position, h, rfl⟩⟩
  unfold fetchTxListAggregates
  dsimp only
  have hlookup := fun l : List TxListCursor => getLast?_filter_firstBy id l position
  simp only [id_eq] at hlookup
  rw [lastOf_map_pair fun key => key, hlookup]
  cases hfind : List.find? (fun key => decide (key = position)) _ with
  | none =>
      -- the transaction has no operations
      have hnone : db.transactionOperations.filter (·.position = position) = [] := by
        rw [List.filter_eq_nil_iff]
        intro row hrow hposition
        rw [decide_eq_true_eq] at hposition
        have hmiss := List.find?_eq_none.mp hfind row.position
          (List.mem_map_of_mem (List.mem_filter.mpr ⟨hrow, decide_eq_true (hrows row hposition)⟩))
        exact hmiss (decide_eq_true hposition)
      rw [hnone]
      simp
  | some key =>
      have hkey := List.find?_some hfind
      rw [decide_eq_true_eq] at hkey
      subst hkey
      rw [Option.map_some, Option.getD_some, List.filter_filter]
      congr 3
      apply List.filter_congr
      intro row _
      by_cases hposition : row.position = key
      · simp only [hposition, decide_true, Bool.true_and, decide_eq_true_eq]
        exact hposition ▸ hrows row hposition
      · simp [hposition]

theorem lastOf_closedAts {sequences : List Int64} {sequence : Int64} (h : sequence ∈ sequences) :
    lastOf sequence ((db.ledgers.filter fun ledger => ledger.sequence ∈ sequences).map
        fun ledger => (ledger.sequence, ledger.closedAt)) =
      lastOf sequence (db.ledgers.map fun ledger => (ledger.sequence, ledger.closedAt)) := by
  rw [lastOf_map_pair, lastOf_map_pair, List.filter_filter]
  congr 2
  apply List.filter_congr
  intro ledger _
  by_cases hsequence : ledger.sequence = sequence
  · simp [hsequence, h]
  · simp [hsequence]

/-- The page row of a transaction. -/
def pageRow (db : Database) (t : TransactionsRow) : TxPageChRow where
  hash := hexEncode t.hash
  ledgerSequence := t.ledgerSequence
  applicationOrder := t.applicationOrder
  sourceAccount := (db.accounts.find? (·.id = t.sourceId)).map (·.accountId)
  feeCharged := t.feeCharged
  innerTxHash := t.innerTxHash.map hexEncode
  successful := t.successful
  operationCount := t.operationCount
  hasSoroban := t.hasSoroban
  createdAt := (lastOf t.ledgerSequence
    (db.ledgers.map fun ledger => (ledger.sequence, ledger.closedAt))).getD 0

theorem resolveSourceAndClosedAt_map (hdb : db.Consistent) {ts : List TransactionsRow}
    (hts : ∀ t ∈ ts, t ∈ db.transactions) :
    resolveSourceAndClosedAt db (ts.map TransactionsRow.toRaw) = ts.map (pageRow db) := by
  unfold resolveSourceAndClosedAt
  dsimp only
  rw [List.filterMap_map, List.filterMap_eq_map_iff_forall_eq_some]
  intro t ht
  have hsource : t.toRaw.sourceId ∈ (ts.map TransactionsRow.toRaw).map (·.sourceId) :=
    List.mem_map_of_mem (List.mem_map_of_mem ht)
  have hledger : t.toRaw.ledgerSequence ∈ (ts.map TransactionsRow.toRaw).map (·.ledgerSequence) :=
    List.mem_map_of_mem (List.mem_map_of_mem ht)
  rw [Function.comp_apply, lastOf_closedAts hledger, lastOf_resolveAccounts hsource]
  obtain ⟨ledger, hmem, hsequence⟩ := hdb.ledgers t (hts t ht)
  have hsome := isSome_lastOf_of_mem
    (List.mem_map_of_mem (f := fun ledger : LedgersRow => (ledger.sequence, ledger.closedAt)) hmem)
  obtain ⟨closedAt, hclosedAt⟩ := Option.isSome_iff_exists.mp hsome
  rw [hsequence] at hclosedAt
  have hraw : t.toRaw.ledgerSequence = t.ledgerSequence := rfl
  rw [hraw, hclosedAt, Option.map_some, Option.some.injEq, pageRow, hclosedAt, Option.getD_some]
  rfl

/-! ## The statements -/

/-- A position past the cursor of a walk. -/
def past (cursor : Option TxListCursor) (position : TxListCursor) : Bool :=
  cursor.all fun cursor => position < cursor

/-- The candidates that are left. -/
def rest (db : Database) (params : ListParams) (cursor : Option TxListCursor) :
    List TransactionsRow :=
  (candidates db params).filter fun t => past cursor t.position

theorem Database.Consistent.position_injective (hdb : db.Consistent) {t u : TransactionsRow}
    (ht : t ∈ db.transactions) (hu : u ∈ db.transactions) (h : t.position = u.position) : t = u :=
  List.inj_on_of_nodup_map hdb.distinct ht hu h

theorem Database.Consistent.le_head (hdb : db.Consistent) {t : TransactionsRow}
    (ht : t ∈ db.transactions) : t.ledgerSequence ≤ maxSequence db.ledgers := by
  obtain ⟨ledger, hledger, hsequence⟩ := hdb.ledgers t ht
  exact hsequence ▸ le_maxSequence hledger

theorem nodup_filter (hdb : db.Consistent) (p : TransactionsRow → Bool) :
    ((db.transactions.filter p).map (·.position)).Nodup :=
  nodup_map_filter hdb.distinct p

theorem increasing_newestFirst (hdb : db.Consistent) (p : TransactionsRow → Bool) :
    Increasing (rowRank TransactionsRow.position .desc)
      (newestFirst (db.transactions.filter p)) :=
  increasing_presented .desc (nodup_filter hdb p)

theorem mem_newestFirst (hdb : db.Consistent) {p : TransactionsRow → Bool} {t : TransactionsRow} :
    t ∈ newestFirst (db.transactions.filter p) ↔ t ∈ db.transactions ∧ p t := by
  rw [newestFirst, mem_presented .desc (nodup_filter hdb p), List.mem_filter]

theorem mem_rest (hdb : db.Consistent) {cursor : Option TxListCursor} {t : TransactionsRow} :
    t ∈ rest db params cursor ↔
      t ∈ db.transactions ∧ leads db params t ∧ past cursor t.position := by
  rw [rest, List.mem_filter, candidates, mem_newestFirst hdb, and_assoc]

theorem increasing_rest (hdb : db.Consistent) (cursor : Option TxListCursor) :
    Increasing (rowRank TransactionsRow.position .desc) (rest db params cursor) :=
  (increasing_newestFirst hdb _).sublist List.filter_sublist

theorem length_rest_le (hdb : db.Consistent) (cursor : Option TxListCursor) :
    (rest db params cursor).length ≤ db.transactions.length := by
  have hnodup : (rest db params cursor).Nodup :=
    List.Nodup.of_map _ (increasing_rest hdb cursor).nodup
  exact (hnodup.subperm fun t ht => ((mem_rest hdb).mp ht).1).length_le

theorem rest_none : rest db params none = candidates db params :=
  List.filter_eq_self.mpr fun _ _ => rfl

theorem length_candidates_le (hdb : db.Consistent) :
    (candidates db params).length ≤ db.transactions.length :=
  rest_none ▸ length_rest_le hdb none

/-- Positions sorted and each taken once are those of the rows they belong to. -/
theorem firstBy_sort_positions {ts : List TransactionsRow} {positions : List TxListCursor}
    (hts : Increasing (rowRank TransactionsRow.position .desc) ts)
    (hmem : ∀ position, position ∈ positions ↔ ∃ t ∈ ts, t.position = position) :
    firstBy id (FetchOrder.desc.sort id positions) = ts.map (·.position) := by
  have hinjective : Function.Injective fun position : TxListCursor =>
      OrderDual.toDual (id position) := OrderDual.toDual.injective
  refine (increasing_firstBy_sortBy hinjective positions).eq_of_mem_iff ?_ ?_
  · rw [Increasing, List.pairwise_map]
    exact hts.imp fun hab => OrderDual.toDual_lt_toDual.mpr (rank_desc_lt.mp hab)
  · intro position
    rw [mem_firstBy_id, mem_sortBy, hmem, List.mem_map]

theorem mem_map_position (hdb : db.Consistent) {ts : List TransactionsRow}
    (hts : ∀ t ∈ ts, t ∈ db.transactions) {t : TransactionsRow} (ht : t ∈ db.transactions) :
    t.position ∈ ts.map (·.position) ↔ t ∈ ts := by
  rw [List.mem_map]
  constructor
  · rintro ⟨u, hu, hposition⟩
    exact hdb.position_injective (hts u hu) ht hposition ▸ hu
  · exact fun h => ⟨t, h, rfl⟩

theorem hasOperation_iff {opType : Int16} {t : TransactionsRow} :
    hasOperation db opType t ↔
      ∃ row ∈ db.transactionOperations, row.type = opType ∧ row.position = t.position := by
  simp [hasOperation]

/-- The operations of a type, looked up at the positions of a page. -/
theorem mem_ofType {positions : List TxListCursor} {opType : Int16} {t : TransactionsRow}
    (h : t.position ∈ positions) :
    t.position ∈ (db.transactionOperations.filter fun row =>
        row.position ∈ positions ∧
          partitionOf row.ledgerSequence ∈
            positions.map (fun position => partitionOf position.ledgerSequence) ∧
          row.type = opType).map (·.position) ↔ hasOperation db opType t := by
  rw [hasOperation_iff, List.mem_map]
  constructor
  · rintro ⟨row, hrow, hposition⟩
    obtain ⟨hmem, hmatch⟩ := List.mem_filter.mp hrow
    exact ⟨row, hmem, (of_decide_eq_true hmatch).2.2, hposition⟩
  · rintro ⟨row, hmem, htype, hposition⟩
    have hrow : row.position ∈ positions := hposition ▸ h
    exact ⟨row, List.mem_filter.mpr ⟨hmem, decide_eq_true
      ⟨hrow, List.mem_map.mpr ⟨row.position, hrow, rfl⟩, htype⟩⟩, hposition⟩

/-- The page at the positions of some transactions. -/
theorem pageAtPositions_map (hdb : db.Consistent) {ts : List TransactionsRow}
    (hts : Increasing (rowRank TransactionsRow.position .desc) ts)
    (hmem : ∀ t ∈ ts, t ∈ db.transactions) (src : Option Int64) (ot : Option Int16)
    (limPeek : ℕ) :
    pageAtPositions db (ts.map (·.position)) src ot .desc limPeek =
      ((ts.filter fun t => src.all (t.sourceId = ·) && ot.all (hasOperation db · t)).take
        limPeek).map TransactionsRow.toRaw := by
  unfold pageAtPositions
  dsimp only
  congr 2
  rw [firstBy_eq_self]
  · refine (increasing_newestFirst hdb _).eq_of_mem_iff (hts.sublist List.filter_sublist) ?_
    intro t
    rw [mem_newestFirst hdb, List.mem_filter, decide_eq_true_eq, Bool.and_eq_true]
    constructor
    · rintro ⟨ht, hposition, -, hsrc, hot⟩
      refine ⟨(mem_map_position hdb hmem ht).mp hposition, hsrc, ?_⟩
      cases ot with
      | none => rfl
      | some opType => exact (mem_ofType hposition).mp (of_decide_eq_true hot)
    · rintro ⟨hmember, hsrc, hot⟩
      have ht := hmem t hmember
      have hposition := (mem_map_position hdb hmem ht).mpr hmember
      refine ⟨ht, hposition, List.mem_map.mpr ⟨t.position, hposition, rfl⟩, hsrc, ?_⟩
      cases ot with
      | none => rfl
      | some opType => exact decide_eq_true ((mem_ofType hposition).mpr hot)
  · exact ((sortBy_perm _ _).map _).nodup_iff.mpr (nodup_filter hdb _)

/-- Statement A: the transactions of the source that are left. -/
theorem unfilteredPage_next (hdb : db.Consistent) {src : Option Int64}
    {cursor : Option TxListCursor} (limPeek : ℕ)
    (hpartition : ∀ t ∈ db.transactions, partitionOf t.ledgerSequence = readPartition db cursor) :
    unfilteredPage db src (partitionOf (maxSequence db.ledgers)) (maxSequence db.ledgers) cursor
        .next limPeek =
      ((newestFirst (db.transactions.filter fun t =>
        past cursor t.position && src.all (t.sourceId = ·))).take limPeek).map
          TransactionsRow.toRaw := by
  unfold unfilteredPage
  dsimp only [keysetSqlDesc, keysetSql]
  have hfilter : (db.transactions.filter fun t =>
      partitionOf t.ledgerSequence = readPartition db cursor ∧
        t.ledgerSequence ≤ maxSequence db.ledgers ∧
          cursor.all (KeysetOp.less.holds t.position) ∧ src.all (t.sourceId = ·)) =
      db.transactions.filter fun t => past cursor t.position && src.all (t.sourceId = ·) := by
    apply List.filter_congr
    intro t ht
    simp only [hpartition t ht, hdb.le_head ht, true_and]
    rw [Bool.decide_and]
    simp only [Bool.decide_eq_true]
    rfl
  rw [readPartition] at hfilter
  rw [hfilter]
  rfl

/-- Statement B's candidates. -/
theorem contractPositions_next (hdb : db.Consistent) {contractId : Int64}
    {cursor : Option TxListCursor} (limOver : ℕ)
    (hleads : ∀ t, leads db params t ↔
      ∃ row ∈ db.contractActivity, row.contractId = contractId ∧ row.position = t.position) :
    contractPositions db contractId (maxSequence db.ledgers) cursor .next limOver =
      ((rest db params cursor).take limOver).map (·.position) := by
  unfold contractPositions
  dsimp only [keysetSqlDesc, keysetSql]
  rw [List.map_take]
  congr 1
  apply firstBy_sort_positions (increasing_rest hdb cursor)
  intro position
  rw [List.mem_map]
  -- an activity row and its transaction stand at one position
  constructor
  · rintro ⟨row, hrow, rfl⟩
    obtain ⟨hmem, hmatch⟩ := List.mem_filter.mp hrow
    obtain ⟨hcontract, -, hcursor⟩ := of_decide_eq_true hmatch
    obtain ⟨t, ht, hposition⟩ := hdb.activity row hmem
    refine ⟨t, (mem_rest hdb).mpr ⟨ht, (hleads t).mpr ⟨row, hmem, hcontract, hposition.symm⟩, ?_⟩,
      hposition⟩
    rw [hposition]
    exact hcursor
  · rintro ⟨t, ht, rfl⟩
    obtain ⟨hmem, hlead, hcursor⟩ := (mem_rest hdb).mp ht
    obtain ⟨row, hrow, hcontract, hposition⟩ := (hleads t).mp hlead
    refine ⟨row, List.mem_filter.mpr ⟨hrow, decide_eq_true ⟨hcontract, ?_, ?_⟩⟩, hposition⟩
    · have hledger : row.ledgerSequence = t.ledgerSequence :=
        congrArg TxListCursor.ledgerSequence hposition
      rw [hledger]
      exact hdb.le_head hmem
    · rw [hposition]
      exact hcursor

/-- Statement C's candidates. -/
theorem opTypePositions_next (hdb : db.Consistent) {opType : Int16}
    {cursor : Option TxListCursor} (limOver : ℕ)
    (hpartition : ∀ t ∈ db.transactions, partitionOf t.ledgerSequence = readPartition db cursor)
    (hleads : ∀ t, leads db params t ↔ hasOperation db opType t) :
    opTypePositions db opType (partitionOf (maxSequence db.ledgers)) (maxSequence db.ledgers)
        cursor .next limOver =
      ((rest db params cursor).take limOver).map (·.position) := by
  unfold opTypePositions
  dsimp only [keysetSqlDesc, keysetSql]
  rw [List.map_take]
  congr 1
  apply firstBy_sort_positions (increasing_rest hdb cursor)
  intro position
  rw [List.mem_map]
  constructor
  · rintro ⟨row, hrow, rfl⟩
    obtain ⟨hmem, hmatch⟩ := List.mem_filter.mp hrow
    obtain ⟨htype, -, -, hcursor⟩ := of_decide_eq_true hmatch
    obtain ⟨t, ht, hposition⟩ := hdb.operations row hmem
    refine ⟨t, (mem_rest hdb).mpr ⟨ht, (hleads t).mpr (hasOperation_iff.mpr
      ⟨row, hmem, htype, hposition.symm⟩), ?_⟩, hposition⟩
    rw [hposition]
    exact hcursor
  · rintro ⟨t, ht, rfl⟩
    obtain ⟨hmem, hlead, hcursor⟩ := (mem_rest hdb).mp ht
    obtain ⟨row, hrow, htype, hposition⟩ := hasOperation_iff.mp ((hleads t).mp hlead)
    -- the row shares its transaction's ledger, so its partition and the head
    have hledger : row.ledgerSequence = t.ledgerSequence :=
      congrArg TxListCursor.ledgerSequence hposition
    refine ⟨row, List.mem_filter.mpr ⟨hrow, decide_eq_true ⟨htype, ?_, ?_, ?_⟩⟩, hposition⟩
    · rw [hledger]
      exact hpartition t hmem
    · rw [hledger]
      exact hdb.le_head hmem
    · rw [hposition]
      exact hcursor

/-! ## One fetch -/

/-- A source filter names no account, or it compares the source id. -/
theorem source_cases (hdb : db.Consistent) (filter : Option String) :
    (filter.map (resolveAccountSurrogate db) = some none ∧
      ∀ t, filter.all (hasSource db · t) = false) ∨
    (filter.map (resolveAccountSurrogate db) ≠ some none ∧
      ∀ t, filter.all (hasSource db · t) =
        (filter.map (resolveAccountSurrogate db)).join.all (t.sourceId = ·)) := by
  cases filter with
  | none => exact .inr ⟨by simp, fun _ => rfl⟩
  | some account =>
      rw [Option.map_some, resolveAccountSurrogate]
      cases hfind : db.accounts.find? (·.accountId = account) with
      | none =>
          refine .inl ⟨rfl, fun t => ?_⟩
          rw [Option.all_some, hasSource, List.any_eq_false]
          intro row hrow
          -- no account of that name: no row has it as a source
          have hmiss := List.find?_eq_none.mp hfind row hrow
          simp only [decide_eq_true_eq] at hmiss ⊢
          exact fun h => hmiss h.1
      | some found =>
          have hname := List.find?_some hfind
          rw [decide_eq_true_eq] at hname
          have hmem := List.mem_of_find?_eq_some hfind
          refine .inr ⟨by simp, fun t => ?_⟩
          rw [Option.map_some, Option.join_some, Option.all_some, Option.all_some, hasSource,
            Bool.eq_iff_iff, List.any_eq_true, decide_eq_true_eq]
          -- names and ids of accounts are one to one
          constructor
          · rintro ⟨row, hrow, hmatch⟩
            obtain ⟨haccount, hid⟩ := of_decide_eq_true hmatch
            exact hid ▸ hdb.accounts row hrow found hmem (haccount.trans hname.symm)
          · exact fun hid => ⟨found, hmem, decide_eq_true ⟨hname, hid.symm⟩⟩

/-- A contract filter names no contract, or it asks for the activity of one id. -/
theorem contract_cases (hdb : db.Consistent) (contract : String) :
    (resolveContractSurrogate db contract = none ∧ ∀ t, touches db contract t = false) ∨
    ∃ contractId, resolveContractSurrogate db contract = some contractId ∧
      ∀ t, touches db contract t ↔
        ∃ row ∈ db.contractActivity, row.contractId = contractId ∧ row.position = t.position := by
  rw [resolveContractSurrogate]
  cases hfind : db.sorobanContracts.find? (·.contractId = contract) with
  | none =>
      refine .inl ⟨rfl, fun t => ?_⟩
      rw [touches, List.any_eq_false]
      intro row hrow
      -- no contract of that name: nothing touches it
      have hmiss := List.find?_eq_none.mp hfind row hrow
      simp only [decide_eq_true_eq] at hmiss ⊢
      exact fun h => hmiss h.1
  | some found =>
      have hname := List.find?_some hfind
      rw [decide_eq_true_eq] at hname
      have hmem := List.mem_of_find?_eq_some hfind
      refine .inr ⟨found.id, rfl, fun t => ?_⟩
      rw [touches, List.any_eq_true]
      constructor
      · rintro ⟨c, hc, hmatch⟩
        obtain ⟨hcontract, hany⟩ := of_decide_eq_true hmatch
        obtain ⟨row, hrow, hactivity⟩ := List.any_eq_true.mp hany
        obtain ⟨hid, hposition⟩ := of_decide_eq_true hactivity
        -- names and ids of contracts are one to one
        have hsame := hdb.contracts c hc found hmem (hcontract.trans hname.symm)
        exact ⟨row, hrow, hid.trans hsame, hposition⟩
      · rintro ⟨row, hrow, hid, hposition⟩
        exact ⟨found, hmem, decide_eq_true ⟨hname, List.any_eq_true.mpr
          ⟨row, hrow, decide_eq_true ⟨hid, hposition⟩⟩⟩⟩

/-- The rows of some transactions, each with its operation types. -/
theorem listRows_map {ts : List TransactionsRow}
    (hts : Increasing (rowRank TransactionsRow.position .desc) ts) :
    (firstBy (·.position) (ts.map (pageRow db))).map (fun row =>
        row.intoListRow ((lastOf row.position (fetchTxListAggregates db
          ((firstBy (·.position) (ts.map (pageRow db))).map (·.position)))).getD [])) =
      ts.map (listRow db) := by
  have hpositions : (ts.map (pageRow db)).map (·.position) = ts.map (·.position) := by
    rw [List.map_map]
    rfl
  have hnodup : ((ts.map (pageRow db)).map (·.position)).Nodup := by
    rw [hpositions, List.Nodup, List.pairwise_map]
    exact hts.imp fun hab => ne_of_gt (rank_desc_lt.mp hab)
  rw [firstBy_eq_self hnodup, hpositions, List.map_map]
  apply List.map_congr_left
  intro t ht
  have hmem : (pageRow db t).position ∈ ts.map (·.position) := List.mem_map_of_mem ht
  rw [Function.comp_apply, lastOf_fetchTxListAggregates hmem]
  rfl

theorem window_of_filter {limit : ℕ}
    (h : ¬ (params.filterContractId = none ∧ params.filterOperationType = none)) :
    window db params limit = limit * 4 :=
  if_neg h

/-- The second statement over a window of candidates. -/
theorem resolve_pageAtPositions (hdb : db.Consistent) {limit n : ℕ} {cursor : Option TxListCursor}
    {src : Option Int64} {ot : Option Int16}
    (hpasses : ∀ t ∈ rest db params cursor,
      passes db params t = (src.all (t.sourceId = ·) && ot.all (hasOperation db · t))) :
    (if (((rest db params cursor).take n).map (·.position)).isEmpty then []
      else resolveSourceAndClosedAt db (pageAtPositions db
        (((rest db params cursor).take n).map (·.position)) src ot .desc (limit + 1))) =
      (Windowed.found (passes db params) n limit (rest db params cursor)).map (pageRow db) := by
  have hmem : ∀ t ∈ (rest db params cursor).take n, t ∈ db.transactions :=
    fun t ht => ((mem_rest hdb).mp (List.mem_of_mem_take ht)).1
  have hfilter : ((rest db params cursor).take n).filter (passes db params) =
      ((rest db params cursor).take n).filter fun t =>
        src.all (t.sourceId = ·) && ot.all (hasOperation db · t) :=
    List.filter_congr fun t ht => hpasses t (List.mem_of_mem_take ht)
  rw [Windowed.found, hfilter]
  by_cases hempty : (rest db params cursor).take n = []
  · rw [hempty]
    rfl
  · rw [if_neg (by simpa using hempty),
      pageAtPositions_map hdb ((increasing_rest hdb cursor).sublist (List.take_sublist _ _)) hmem,
      resolveSourceAndClosedAt_map hdb]
    intro t ht
    exact hmem t (List.mem_of_mem_filter (List.mem_of_mem_take ht))

/-- The rows past a cursor: the first that pass the filters among a window of
candidates. -/
theorem fetchListRows_next (hdb : db.Consistent) {limit : ℕ} {cursor : Option TxListCursor}
    {head : Option Int64} {sourceId contractSurrogate : Option Int64}
    (hhead : head.getD (maxSequence db.ledgers) = maxSequence db.ledgers)
    (hreads : Reads db params cursor)
    (hsource : ∀ t, params.filterSourceAccount.all (hasSource db · t) =
      sourceId.all (t.sourceId = ·))
    (hcontract : (params.filterContractId = none ∧ contractSurrogate = none) ∨
      ∃ contract contractId, params.filterContractId = some contract ∧
        contractSurrogate = some contractId ∧ ∀ t, touches db contract t ↔
          ∃ row ∈ db.contractActivity, row.contractId = contractId ∧
            row.position = t.position) :
    fetchListRows db ⟨limit, cursor, params.filterSourceAccount, params.filterContractId,
        params.filterOperationType⟩ sourceId contractSurrogate .next head =
      (Windowed.found (passes db params) (window db params limit) limit
        (rest db params cursor)).map (pageRow db) := by
  unfold fetchListRows
  dsimp only
  rw [hhead]
  obtain ⟨hnone, rfl⟩ | ⟨contract, contractId, hsome, rfl, htouches⟩ := hcontract
  · cases hop : params.filterOperationType with
    | none =>
        -- statement A: every candidate is in the window
        dsimp only
        rw [unfilteredPage_next hdb _ (hreads hnone), resolveSourceAndClosedAt_map hdb]
        · rw [Windowed.found, window, if_pos ⟨hnone, hop⟩,
            List.take_of_length_le (length_rest_le hdb cursor)]
          congr 2
          refine (increasing_newestFirst hdb _).eq_of_mem_iff
            ((increasing_rest hdb cursor).sublist List.filter_sublist) ?_
          intro t
          rw [mem_newestFirst hdb, List.mem_filter, mem_rest hdb, passes, leads, hsource, hnone,
            hop]
          simp [and_assoc]
        · intro t ht
          exact ((mem_newestFirst hdb).mp (List.mem_of_mem_take ht)).1
    | some opType =>
        dsimp only
        have hleads : ∀ t, leads db params t ↔ hasOperation db opType t := by
          intro t
          rw [leads, hnone, hop]
          rfl
        rw [opTypePositions_next hdb _ (hreads hnone) hleads,
          window_of_filter (by simp [hop])]
        apply resolve_pageAtPositions hdb
        intro t ht
        have hlead := (hleads t).mp ((mem_rest hdb).mp ht).2.1
        rw [passes, hsource, hnone, hop]
        simp [hlead]
  · dsimp only
    have hleads : ∀ t, leads db params t ↔ ∃ row ∈ db.contractActivity,
        row.contractId = contractId ∧ row.position = t.position := by
      intro t
      rw [leads, hsome]
      exact htouches t
    rw [contractPositions_next hdb _ hleads, window_of_filter (by simp [hsome])]
    apply resolve_pageAtPositions hdb
    intro t ht
    have hlead := (htouches t).mpr ((hleads t).mp ((mem_rest hdb).mp ht).2.1)
    rw [passes, hsource, hsome]
    simp [hlead]

theorem found_eq_nil {limit n : ℕ} {ts : List TransactionsRow}
    (h : ∀ t, passes db params t = false) :
    Windowed.found (passes db params) n limit ts = [] := by
  rw [Windowed.found, List.filter_eq_nil_iff.mpr fun t _ => by simp [h t], List.take_nil]

/-- One fetch along the walk. -/
theorem fetchList_next (hdb : db.Consistent) {limit : ℕ} {cursor : Option TxListCursor}
    {head : Option Int64} (hhead : head.getD (maxSequence db.ledgers) = maxSequence db.ledgers)
    (hreads : Reads db params cursor) :
    fetchList db ⟨limit, cursor, params.filterSourceAccount, params.filterContractId,
        params.filterOperationType⟩ .next head =
      (Windowed.found (passes db params) (window db params limit) limit
        (rest db params cursor)).map (listRow db) := by
  have hincreasing : Increasing (rowRank TransactionsRow.position .desc)
      (Windowed.found (passes db params) (window db params limit) limit
        (rest db params cursor)) :=
    (increasing_rest hdb cursor).sublist
      ((List.take_sublist _ _).trans (List.filter_sublist.trans (List.take_sublist _ _)))
  unfold fetchList
  dsimp only
  obtain ⟨hnone, hfalse⟩ | ⟨hsome, hsource⟩ := source_cases hdb params.filterSourceAccount
  · rw [hnone, found_eq_nil fun t => by rw [passes, hfalse, Bool.false_and]]
    rfl
  · split
    · rename_i hnone
      exact absurd hnone hsome
    · rename_i hnone _
      obtain ⟨contract, hfilter, hresolve⟩ := Option.map_eq_some_iff.mp hnone
      obtain ⟨-, hfalse⟩ | ⟨contractId, hfound, -⟩ := contract_cases hdb contract
      · rw [found_eq_nil fun t => by rw [passes, hfilter, Option.all_some, hfalse, Bool.false_and,
          Bool.and_false]]
        rfl
      · rw [hresolve] at hfound
        cases hfound
    · rename_i hcontract
      -- a resolved contract, or none asked for
      have hcases : (params.filterContractId = none ∧
          (params.filterContractId.map (resolveContractSurrogate db)).join = none) ∨
          ∃ contract contractId, params.filterContractId = some contract ∧
            (params.filterContractId.map (resolveContractSurrogate db)).join = some contractId ∧
            ∀ t, touches db contract t ↔ ∃ row ∈ db.contractActivity,
              row.contractId = contractId ∧ row.position = t.position := by
        cases hfilter : params.filterContractId with
        | none => exact .inl ⟨rfl, rfl⟩
        | some contract =>
            rw [hfilter, Option.map_some] at hcontract
            obtain ⟨hnone, -⟩ | ⟨contractId, hfound, htouches⟩ := contract_cases hdb contract
            · exact absurd (congrArg some hnone) hcontract
            · exact .inr ⟨contract, contractId, rfl, by rw [Option.map_some, hfound]; rfl,
                htouches⟩
      rw [fetchListRows_next hdb hhead hreads hsource hcases]
      exact listRows_map hincreasing

/-! ## The walk -/

variable {codec : CursorCodec} {limit : ℕ} {headRead : Bool}

/-- The page cut from the rows of a fetch. -/
structure Shows (db : Database) (codec : CursorCodec) (limit : ℕ) (rows : List TransactionsRow)
    (page : Page TxListRow) : Prop where
  rows_eq : page.rows = (rows.take limit).map (listRow db)
  next_eq : page.info.nextCursor =
    if limit < rows.length then
      (rows.take limit).getLast?.map fun t => codec.encode t.position .next
    else none

theorem shows_finalizePage (rows : List TransactionsRow) (hasPredecessor : Bool) :
    Shows db codec limit rows (finalizePage (rows.map (listRow db)) limit .next hasPredecessor
      fun direction row => codec.encode (listCursorFor row) direction) := by
  rw [finalizePage_next]
  refine ⟨by rw [List.map_take], ?_⟩
  rw [List.length_map, ← List.map_take, List.getLast?_map, Option.map_map]
  rfl

/-- What is left after a match. -/
theorem rest_some (hdb : db.Consistent) {n : ℕ} {t : TransactionsRow}
    (ht : ((candidates db params).filter (passes db params))[n]? = some t) :
    rest db params (some t.position) =
      Windowed.afterMatches (passes db params) (n + 1) (candidates db params) := by
  have hincreasing : Increasing (rowRank TransactionsRow.position .desc) (candidates db params) :=
    increasing_newestFirst hdb _
  rw [← Windowed.filter_above_match hincreasing ht, rest]
  apply List.filter_congr
  intro u _
  rw [past, Option.all_some, decide_eq_decide]
  exact rank_desc_lt.symm

theorem headRead_getD : (currentHeadOpt db headRead).getD (maxSequence db.ledgers) =
    maxSequence db.ledgers := by
  cases headRead <;> rfl

theorem shows_first (params : ListParams) (codec : CursorCodec) (limit : ℕ) (headRead : Bool)
    (hdb : db.Consistent) (hreads : Reads db params none) :
    ∃ page, listTransactions db codec params limit headRead none = .ok page ∧
      Shows db codec limit (Windowed.found (passes db params) (window db params limit) limit
        (candidates db params)) page := by
  refine ⟨_, rfl, ?_⟩
  dsimp only [Option.isNone_none]
  rw [if_pos rfl, fetchList_next hdb headRead_getD hreads, rest_none]
  exact shows_finalizePage _ _

theorem shows_next (params : ListParams) (headRead : Bool) (hdb : db.Consistent)
    {t : TransactionsRow} (ht : t ∈ db.transactions) (hcodec : codec.ReadsBack t.position) :
    ∃ page, listTransactions db codec params limit headRead
        (some (codec.encode t.position .next)) = .ok page ∧
      Shows db codec limit (Windowed.found (passes db params) (window db params limit) limit
        (rest db params (some t.position))) page := by
  rw [listTransactions, decodeCursor, codec.decode_encode hcodec]
  refine ⟨_, rfl, ?_⟩
  have hreads : Reads db params (some t.position) := fun _ u hu => hdb.partition u hu t ht
  dsimp only [Option.isNone_some]
  rw [if_neg Bool.false_ne_true, fetchList_next hdb rfl hreads]
  exact shows_finalizePage _ _

/-- The pages of the walk are those of the fetches. -/
theorem pageAt_of_fetchAt (params : ListParams) (headRead : Bool) (hdb : db.Consistent)
    (hreads : Reads db params none) (hlimit : 1 ≤ limit)
    (hcodec : ∀ t ∈ db.transactions, codec.ReadsBack t.position) (k : ℕ) :
    (Windowed.fetchAt (passes db params) (window db params limit) limit (candidates db params) k =
        none → pageAt db codec params limit headRead k = none) ∧
      ∀ rows, Windowed.fetchAt (passes db params) (window db params limit) limit
          (candidates db params) k = some rows →
        ∃ page, pageAt db codec params limit headRead k = some (.ok page) ∧
          Shows db codec limit rows page := by
  induction k with
  | zero =>
      refine ⟨fun h => absurd h (Option.some_ne_none _), fun rows hrows => ?_⟩
      obtain rfl := Option.some.inj hrows
      obtain ⟨page, hpage, hshows⟩ := shows_first params codec limit headRead hdb hreads
      exact ⟨page, congrArg some hpage, hshows⟩
  | succ k ih =>
      rw [pageAt, Windowed.fetchAt]
      cases hfetch : Windowed.fetchAt (passes db params) (window db params limit) limit
          (candidates db params) k with
      | none =>
          rw [ih.1 hfetch]
          exact ⟨fun _ => rfl, fun rows hrows => absurd hrows.symm (Option.some_ne_none _)⟩
      | some rows =>
          obtain ⟨page, hpage, hshows⟩ := ih.2 rows hfetch
          simp only [hpage]
          rw [hshows.next_eq]
          by_cases hlong : limit < rows.length
          · -- the next page starts after the last row of this one
            have hlast := Windowed.getLast?_page hlimit hfetch hlong
            have hne : (rows.take limit).getLast? ≠ none := by
              rw [Ne, List.getLast?_eq_none_iff, ← List.length_eq_zero_iff, List.length_take]
              omega
            obtain ⟨t, ht⟩ := Option.ne_none_iff_exists'.mp hne
            rw [ht] at hlast
            have hmem : t ∈ db.transactions :=
              ((mem_newestFirst hdb).mp
                (List.mem_filter.mp (List.mem_of_getElem? hlast.symm)).1).1
            have hcount : (k + 1) * limit - 1 + 1 = (k + 1) * limit := by
              rw [Nat.succ_mul]
              omega
            obtain ⟨page', hpage', hshows'⟩ := shows_next params headRead hdb hmem (hcodec t hmem)
            rw [rest_some hdb hlast.symm, hcount] at hshows'
            rw [if_pos hlong, if_pos hlong, ht, Option.map_some, Option.map_some]
            refine ⟨fun h => absurd h (Option.some_ne_none _), fun rows' hrows' => ?_⟩
            obtain rfl := Option.some.inj hrows'
            exact ⟨page', congrArg some hpage', hshows'⟩
          · rw [if_neg hlong, if_neg hlong]
            exact ⟨fun _ => rfl, fun rows hrows => absurd hrows.symm (Option.some_ne_none _)⟩

/-- What the first pages of the walk show. -/
theorem visited_eq (hdb : db.Consistent) (hreads : Reads db params none) (hlimit : 1 ≤ limit)
    (hcodec : ∀ t ∈ db.transactions, codec.ReadsBack t.position) (n : ℕ) :
    visited db codec params limit headRead n =
      (Windowed.visited (passes db params) (window db params limit) limit
        (candidates db params) n).map (listRow db) := by
  rw [visited, Windowed.visited, List.map_flatMap]
  apply List.flatMap_congr
  intro k _
  obtain ⟨hnone, hsome⟩ := pageAt_of_fetchAt params headRead hdb hreads hlimit hcodec k
  cases hfetch : Windowed.fetchAt (passes db params) (window db params limit) limit
      (candidates db params) k with
  | none =>
      rw [hnone hfetch, Option.getD_none, List.take_nil]
      rfl
  | some rows =>
      obtain ⟨page, hpage, hshows⟩ := hsome rows hfetch
      rw [hpage, Option.getD_some]
      exact hshows.rows_eq

theorem passes_leads {t : TransactionsRow} (h : passes db params t) : leads db params t := by
  rw [passes, Bool.and_eq_true, Bool.and_eq_true] at h
  obtain ⟨-, hcontract, hop⟩ := h
  rw [leads]
  cases hfilter : params.filterContractId with
  | none => exact hop
  | some contract =>
      rw [hfilter] at hcontract
      exact hcontract

theorem filter_candidates (hdb : db.Consistent) :
    (candidates db params).filter (passes db params) =
      newestFirst (db.transactions.filter (passes db params)) := by
  refine ((increasing_newestFirst hdb _).sublist List.filter_sublist).eq_of_mem_iff
    (increasing_newestFirst hdb _) ?_
  intro t
  rw [List.mem_filter, mem_newestFirst hdb, mem_newestFirst hdb]
  exact ⟨fun h => ⟨h.1.1, h.2⟩, fun h => ⟨⟨h.1, passes_leads h.2⟩, h.2⟩⟩

/-- A walk of the list is complete exactly if the walk of its fetches is. -/
theorem listComplete_iff_complete (hdb : db.Consistent) (hreads : Reads db params none)
    (hlimit : 1 ≤ limit)
    (hcodec : ∀ t ∈ db.transactions, codec.ReadsBack t.position) :
    ListComplete db params codec limit headRead ↔
      Windowed.Complete (passes db params) (window db params limit) limit
        (candidates db params) := by
  have hpages := pageAt_of_fetchAt params headRead hdb hreads hlimit hcodec
  have hnone : ∀ n, pageAt db codec params limit headRead n = none ↔
      Windowed.fetchAt (passes db params) (window db params limit) limit
        (candidates db params) n = none := by
    intro n
    refine ⟨fun h => ?_, (hpages n).1⟩
    cases hfetch : Windowed.fetchAt (passes db params) (window db params limit) limit
        (candidates db params) n with
    | none => rfl
    | some rows =>
        obtain ⟨page, hpage, -⟩ := (hpages n).2 rows hfetch
        rw [h] at hpage
        cases hpage
  constructor
  · rintro ⟨n, hend, hok, hall⟩
    refine ⟨n, (hnone n).mp hend, fun k hk => ?_, ?_⟩
    · obtain ⟨page, hpage⟩ := hok k hk
      rw [Option.isSome_iff_ne_none, Ne, ← hnone k, hpage]
      exact Option.some_ne_none _
    · -- as many rows as there are matches
      rw [visited_eq hdb hreads hlimit hcodec, ← filter_candidates hdb] at hall
      have hlength := congrArg List.length hall
      rw [List.length_map, List.length_map] at hlength
      exact (Windowed.visited_prefix n).eq_of_length hlength
  · rintro ⟨n, hend, hok, hall⟩
    refine ⟨n, (hnone n).mpr hend, fun k hk => ?_, ?_⟩
    · obtain ⟨rows, hrows⟩ := Option.isSome_iff_exists.mp (hok k hk)
      obtain ⟨page, hpage, -⟩ := (hpages k).2 rows hrows
      exact ⟨page, hpage⟩
    · rw [visited_eq hdb hreads hlimit hcodec, hall, filter_candidates hdb]

/-- A walk whose first page can see the transactions is complete exactly if no window of
candidates falls short. -/
theorem listComplete_iff_reaches (hdb : db.Consistent) (hreads : Reads db params none)
    (hlimit : 1 ≤ limit) (hcodec : ∀ t ∈ db.transactions, codec.ReadsBack t.position) :
    ListComplete db params codec limit headRead ↔
      Windowed.Reaches (passes db params) (window db params limit) limit
        (candidates db params) :=
  (listComplete_iff_complete hdb hreads hlimit hcodec).trans (Windowed.complete_iff_reaches hlimit)

/-! ## A first page in another partition -/

/-- Without a contract filter the first page reads the head's partition; with all
transactions in another one it is empty. -/
theorem fetchList_first (hdb : db.Consistent) (hcontract : params.filterContractId = none)
    (hother : ∀ t ∈ db.transactions,
      partitionOf t.ledgerSequence ≠ partitionOf (maxSequence db.ledgers)) :
    fetchList db ⟨limit, none, params.filterSourceAccount, params.filterContractId,
        params.filterOperationType⟩ .next (currentHeadOpt db headRead) = [] := by
  have hrows : ∀ sourceId, fetchListRows db ⟨limit, none, params.filterSourceAccount,
      params.filterContractId, params.filterOperationType⟩ sourceId none .next
        (currentHeadOpt db headRead) = [] := by
    intro sourceId
    unfold fetchListRows
    dsimp only
    rw [headRead_getD]
    cases params.filterOperationType with
    | none =>
        -- no transaction lies in the partition that is read
        have hnone : db.transactions.filter (fun t =>
            partitionOf t.ledgerSequence = partitionOf (maxSequence db.ledgers) ∧
              t.ledgerSequence ≤ maxSequence db.ledgers ∧
                (none : Option TxListCursor).all (KeysetOp.less.holds t.position) ∧
                  sourceId.all (t.sourceId = ·)) = [] := by
          rw [List.filter_eq_nil_iff]
          intro t ht hmatch
          exact hother t ht (of_decide_eq_true hmatch).1
        have hpage : unfilteredPage db sourceId (partitionOf (maxSequence db.ledgers))
            (maxSequence db.ledgers) none .next (limit + 1) = [] := by
          unfold unfilteredPage
          dsimp only [keysetSqlDesc, keysetSql, Option.map_none, Option.getD_none]
          rw [hnone, FetchOrder.sort, sortBy_eq_self List.Pairwise.nil, List.take_nil,
            List.map_nil]
        dsimp only
        rw [hpage]
        rfl
    | some opType =>
        -- an operation lies in its transaction's partition
        have hnone : db.transactionOperations.filter (fun row =>
            row.type = opType ∧
              partitionOf row.ledgerSequence = partitionOf (maxSequence db.ledgers) ∧
                row.ledgerSequence ≤ maxSequence db.ledgers ∧
                  (none : Option TxListCursor).all (KeysetOp.less.holds row.position)) = [] := by
          rw [List.filter_eq_nil_iff]
          intro row hrow hmatch
          obtain ⟨t, ht, hposition⟩ := hdb.operations row hrow
          have hledger : t.ledgerSequence = row.ledgerSequence :=
            congrArg TxListCursor.ledgerSequence hposition
          exact hother t ht (hledger ▸ (of_decide_eq_true hmatch).2.1)
        have hpositions : opTypePositions db opType (partitionOf (maxSequence db.ledgers))
            (maxSequence db.ledgers) none .next (limit * 4) = [] := by
          unfold opTypePositions
          dsimp only [keysetSqlDesc, keysetSql, Option.map_none, Option.getD_none]
          rw [hnone, FetchOrder.sort, List.map_nil, sortBy_eq_self List.Pairwise.nil]
          exact List.take_nil
        dsimp only
        rw [hpositions]
        rfl
  unfold fetchList
  dsimp only
  rw [hcontract] at hrows ⊢
  split
  · rfl
  · rename_i hmissing _
    cases hmissing
  · dsimp only [Option.map_none, Option.join_none]
    rw [hrows]
    rfl

/-- Such a walk is complete exactly if nothing passes the filters. -/
theorem listComplete_iff_none (hdb : db.Consistent) (hcontract : params.filterContractId = none)
    (hother : ∀ t ∈ db.transactions,
      partitionOf t.ledgerSequence ≠ partitionOf (maxSequence db.ledgers)) :
    ListComplete db params codec limit headRead ↔
      ∀ t ∈ db.transactions, passes db params t = false := by
  have hfirst : listTransactions db codec params limit headRead none =
      .ok (finalizePage [] limit .next false fun direction row =>
        codec.encode (listCursorFor row) direction) := by
    rw [← fetchList_first hdb hcontract hother]
    rfl
  have hpage : pageAt db codec params limit headRead 0 = some (.ok (finalizePage [] limit .next
      false fun direction row => codec.encode (listCursorFor row) direction)) :=
    congrArg some hfirst
  have hend : pageAt db codec params limit headRead 1 = none := by
    rw [pageAt, hpage]
    rfl
  -- an empty page carries no cursor on
  have hlater : ∀ k, pageAt db codec params limit headRead (k + 1) = none := by
    intro k
    induction k with
    | zero => exact hend
    | succ k ih => rw [pageAt, ih]
  have hshown : ∀ n, visited db codec params limit headRead n = [] := by
    intro n
    rw [visited, List.flatMap_eq_nil_iff]
    intro k _
    cases k with
    | zero =>
        rw [hpage]
        rfl
    | succ k =>
        rw [hlater k]
  have hempty : (newestFirst (db.transactions.filter (passes db params))).map (listRow db) = [] ↔
      ∀ t ∈ db.transactions, passes db params t = false := by
    rw [List.map_eq_nil_iff, List.eq_nil_iff_forall_not_mem]
    constructor
    · intro hmem t ht
      exact Bool.eq_false_iff.mpr fun hpasses =>
        hmem t ((mem_newestFirst hdb).mpr ⟨ht, hpasses⟩)
    · intro hfalse t ht
      obtain ⟨hmem, hpasses⟩ := (mem_newestFirst hdb).mp ht
      rw [hfalse t hmem] at hpasses
      cases hpasses
  constructor
  · rintro ⟨n, -, -, hall⟩
    rw [hshown] at hall
    exact hempty.mp hall.symm
  · intro hfalse
    refine ⟨1, hend, fun k hk => ?_, ?_⟩
    · obtain rfl : k = 0 := by omega
      exact ⟨_, hpage⟩
    · rw [hshown, hempty.mpr hfalse]

/-- A walk of the filtered list returns every transaction that passes the filters exactly
if, without a contract filter, those transactions lie in the chain head's partition, and no
filter but the source is set, or each window of `4 * limit` candidates holds more than a
page of matches or all that are left. -/
theorem listComplete_iff (codec : CursorCodec) (db : Database) (params : ListParams) (limit : ℕ)
    (headRead : Bool) (hdb : db.Consistent) (hlimit : 1 ≤ limit)
    (hcodec : ∀ t ∈ db.transactions, codec.ReadsBack t.position) :
    ListComplete db params codec limit headRead ↔
      (params.filterContractId = none → ∀ t ∈ db.transactions, passes db params t →
        partitionOf t.ledgerSequence = partitionOf (maxSequence db.ledgers)) ∧
      ((params.filterContractId = none ∧ params.filterOperationType = none) ∨
        Windowed.Reaches (passes db params) (limit * 4) limit (candidates db params)) := by
  by_cases hreads : Reads db params none
  · rw [listComplete_iff_reaches hdb hreads hlimit hcodec, window]
    have hhead : params.filterContractId = none → ∀ t ∈ db.transactions, passes db params t →
        partitionOf t.ledgerSequence = partitionOf (maxSequence db.ledgers) :=
      fun hcontract t ht _ => hreads hcontract t ht
    split
    · rename_i hunfiltered
      exact ⟨fun _ => ⟨hhead, .inl hunfiltered⟩,
        fun _ => Windowed.reaches_of_length_le (length_candidates_le hdb)⟩
    · rename_i hfiltered
      exact ⟨fun h => ⟨hhead, .inr h⟩, fun h => h.2.resolve_left hfiltered⟩
  · -- one transaction outside the head's partition: all are, and the first page is empty
    simp only [Reads, Classical.not_imp, not_forall] at hreads
    obtain ⟨hcontract, u, hu, hne⟩ := hreads
    have hother : ∀ t ∈ db.transactions,
        partitionOf t.ledgerSequence ≠ partitionOf (maxSequence db.ledgers) :=
      fun t ht h => hne ((hdb.partition u hu t ht).trans h)
    rw [listComplete_iff_none hdb hcontract hother]
    constructor
    · intro hfalse
      refine ⟨fun _ t ht hpasses => ?_, .inr (Windowed.reaches_of_none fun t ht => ?_)⟩
      · rw [hfalse t ht] at hpasses
        cases hpasses
      · exact hfalse t ((mem_newestFirst hdb).mp ht).1
    · intro ⟨hhead, _⟩ t ht
      exact Bool.eq_false_iff.mpr fun hpasses => hother t ht (hhead hcontract t ht hpasses)

/-- Five invocations of one contract in ledger 5; the oldest is a payment. -/
def pinnedInvocations : Database where
  ledgers := [⟨5, 1700000000000⟩]
  accounts := [⟨7, "GSOURCE"⟩]
  sorobanContracts := [⟨9, "CPINNED"⟩]
  transactions := [5, 4, 3, 2, 1].map fun order => ⟨[], 5, order, 7, 100, none, true, 1, true⟩
  transactionOperations := [⟨5, 5, 24⟩, ⟨5, 4, 24⟩, ⟨5, 3, 24⟩, ⟨5, 2, 24⟩, ⟨5, 1, 1⟩]
  contractActivity := [5, 4, 3, 2, 1].map fun order => ⟨9, 5, order⟩

theorem pinnedInvocations_consistent : pinnedInvocations.Consistent where
  distinct := by decide
  activity := by decide
  operations := by decide
  ledgers := by decide
  accounts := by decide
  contracts := by decide
  partition := by decide +kernel

theorem candidates_pinnedInvocations (opType : Option Int16) :
    candidates pinnedInvocations ⟨none, some "CPINNED", opType⟩ =
      pinnedInvocations.transactions := by
  have hincreasing : Increasing (rowRank TransactionsRow.position .desc)
      pinnedInvocations.transactions := by
    have hpositions : pinnedInvocations.transactions.Pairwise fun a b =>
        b.position.tuple < a.position.tuple := by decide
    exact hpositions.imp fun hab => rank_desc_lt.mpr hab
  refine (increasing_newestFirst pinnedInvocations_consistent _).eq_of_mem_iff hincreasing ?_
  intro t
  rw [mem_newestFirst pinnedInvocations_consistent]
  have hleads : ∀ t ∈ pinnedInvocations.transactions,
      touches pinnedInvocations "CPINNED" t := by decide
  exact ⟨And.left, fun ht => ⟨ht, hleads t ht⟩⟩

theorem pinned_readsBack :
    ∀ t ∈ pinnedInvocations.transactions, CursorCodec.pinned.ReadsBack t.position := by
  intro t ht direction
  revert t
  cases direction <;> decide

/-- The same, after the first ledger of the next partition. -/
def endedPartition : Database :=
  { pinnedInvocations with ledgers := [⟨500000, 1700003000000⟩, ⟨5, 1700000000000⟩] }

theorem endedPartition_consistent : endedPartition.Consistent :=
  { pinnedInvocations_consistent with
    ledgers := by decide }

/-- The walk over all invocations of the contract, and the walk over all transactions once
the chain head has left their partition. -/
theorem listComplete_iff_pinned :
    ListComplete pinnedInvocations ⟨none, some "CPINNED", none⟩ CursorCodec.pinned 1 true ∧
      ¬ ListComplete endedPartition ⟨none, none, none⟩ CursorCodec.pinned 1 true := by
  constructor
  · refine (listComplete_iff CursorCodec.pinned pinnedInvocations ⟨none, some "CPINNED", none⟩ 1
      true pinnedInvocations_consistent le_rfl pinned_readsBack).mpr
        ⟨fun hcontract => absurd hcontract (Option.some_ne_none _), .inr ?_⟩
    rw [candidates_pinnedInvocations]
    exact Windowed.reaches_of_forall (by decide) (by decide)
  · intro hcomplete
    have hhead := ((listComplete_iff CursorCodec.pinned endedPartition ⟨none, none, none⟩ 1 true
      endedPartition_consistent le_rfl pinned_readsBack).mp hcomplete).1 rfl
    have hmax : maxSequence endedPartition.ledgers = 500000 := by
      rw [maxSequence, sortBy_eq_self (by decide)]
      rfl
    rw [hmax] at hhead
    exact absurd (hhead _ List.mem_cons_self rfl) (by decide +kernel)

/-- The one payment is the fifth candidate: the first page is empty and the last. -/
theorem not_listComplete_fifthCandidate :
    ¬ ∀ (codec : CursorCodec) (db : Database) (params : ListParams) (limit : ℕ) (headRead : Bool),
      db.Consistent → 1 ≤ limit → (∀ t ∈ db.transactions, codec.ReadsBack t.position) →
      ListComplete db params codec limit headRead := by
  intro hclaim
  have hcomplete := hclaim CursorCodec.pinned pinnedInvocations ⟨none, some "CPINNED", some 1⟩ 1
    true pinnedInvocations_consistent le_rfl pinned_readsBack
  have hreads : Reads pinnedInvocations ⟨none, some "CPINNED", some 1⟩ none :=
    fun hcontract => absurd hcontract (Option.some_ne_none _)
  rw [listComplete_iff_reaches pinnedInvocations_consistent hreads le_rfl pinned_readsBack,
    candidates_pinnedInvocations] at hcomplete
  exact absurd (hcomplete 0) (by decide)

end SorobanExplorer.TransactionList
