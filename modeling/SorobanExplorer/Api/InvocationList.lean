import SorobanExplorer.Api.CursorWalk
import SorobanExplorer.Api.KeysetPage
import SorobanExplorer.Api.TransactionList
import SorobanExplorer.Lib.Collapse

/-!
# The invocations of a contract

The statement cuts its page in physical rows and collapses copies afterwards; it
fetches no more rows than a page and one.  Each key is then merged with its
transaction's header, and a key without one is skipped.
-/

namespace SorobanExplorer.InvocationList

open Ranked KeyedFold Text Collapse
open TransactionList (LedgersRow AccountsRow SorobanContractsRow TransactionsRow maxSequence
  partitionOf nonEmpty)

structure ContractActivityRow where
  contractId : Int64
  ledgerSequence : Int64
  applicationOrder : Int16
  callerId : Option Int64
  callerContractId : Option Int64
  invocationCount : Int32
  deriving DecidableEq

def ContractActivityRow.position (row : ContractActivityRow) : TxListCursor :=
  ⟨row.ledgerSequence, row.applicationOrder⟩

/-- The tables the list reads; any may hold a row twice. -/
structure Database where
  contractActivity : List ContractActivityRow
  ledgers : List LedgersRow
  transactions : List TransactionsRow
  accounts : List AccountsRow
  sorobanContracts : List SorobanContractsRow

structure TxMetaChRow where
  ledgerSequence : Int64
  applicationOrder : Int16
  hash : String
  successful : Bool
  createdAt : Int64

structure ContractInvocationRow where
  applicationOrder : Int16
  transactionHash : String
  ledgerSequence : Int64
  createdAt : Int64
  caller : Option String
  successful : Bool

/-- The cursor of a boundary row. -/
def invocationCursorFor (row : ContractInvocationRow) : TxListCursor :=
  ⟨row.ledgerSequence, row.applicationOrder⟩

def txListFormat : PayloadFormat TxListCursor :=
  ⟨TxListCursor.toJson, TxListCursor.fromJson⟩

section

variable (db : Database) (contractSurrogateId : Int64)

/-- The invocations of a contract in written ledgers. -/
def matching : List ContractActivityRow :=
  db.contractActivity.filter fun row =>
    row.contractId = contractSurrogateId ∧ 0 < row.invocationCount ∧
      row.ledgerSequence ≤ maxSequence db.ledgers

/-- The page's keys: cut inside, collapsed outside. -/
def keyRows (limit : ℕ) (cursor : Option TxListCursor) (direction : Direction) :
    List ContractActivityRow :=
  let (op, order) := keysetSqlDesc direction
  firstBy ContractActivityRow.position ((order.sorted ContractActivityRow.position
    ((matching db contractSurrogateId).filter fun row =>
      cursor.all (op.admits row.position))).take limit)

/-- The headers at some positions, joined with their ledgers. -/
def txRows (positions : List TxListCursor) : List TxMetaChRow :=
  let partitions := positions.map fun position => partitionOf position.ledgerSequence
  (db.transactions.filter fun t =>
    t.position ∈ positions ∧ partitionOf t.ledgerSequence ∈ partitions).flatMap fun t =>
      (db.ledgers.filter (·.sequence = t.ledgerSequence)).map fun ledger =>
        { ledgerSequence := t.ledgerSequence
          applicationOrder := t.applicationOrder
          hash := hexEncode t.hash
          successful := t.successful
          createdAt := ledger.closedAt }

def resolveAccounts (ids : List Int64) : List (Int64 × String) :=
  (firstBy (·.id) (db.accounts.filter fun row => row.id ∈ ids)).map fun row =>
    (row.id, row.accountId)

def resolveContracts (ids : List Int64) : List (Int64 × String) :=
  (firstBy (·.id) (db.sorobanContracts.filter fun row => row.id ∈ ids)).map fun row =>
    (row.id, row.contractId)

/-- A key with the header at its position, if there is one. -/
def mergeHeader (headers : List (TxListCursor × TxMetaChRow)) (accounts contracts : List (Int64 × String))
    (key : ContractActivityRow) : Option ContractInvocationRow :=
  (lastOf key.position headers).map fun tx =>
    { applicationOrder := key.applicationOrder
      transactionHash := tx.hash
      ledgerSequence := key.ledgerSequence
      createdAt := tx.createdAt
      caller := nonEmpty ((key.callerId.bind fun id => lastOf id accounts).or
        (key.callerContractId.bind fun id => lastOf id contracts))
      successful := tx.successful }

def fetchContractInvocations (limit : ℕ) (cursor : Option TxListCursor) (direction : Direction) :
    List ContractInvocationRow :=
  let keys := keyRows db contractSurrogateId limit cursor direction
  let headers := (txRows db (keys.map (·.position))).map fun tx =>
    ((⟨tx.ledgerSequence, tx.applicationOrder⟩ : TxListCursor), tx)
  keys.filterMap (mergeHeader headers (resolveAccounts db (keys.filterMap (·.callerId)))
    (resolveContracts db (keys.filterMap (·.callerContractId))))

/-- The page a request gets. -/
def listInvocations (codec : CursorCodec) (limit : ℕ) :
    Option String → Except CursorError (Page ContractInvocationRow) :=
  pagedList codec txListFormat limit (fetchContractInvocations db contractSurrogateId)
    invocationCursorFor

/-! ## Complete walks -/

/-- The order of the list. -/
def newest (row : ContractActivityRow) : TxListCursorᵒᵈ :=
  OrderDual.toDual row.position

/-- The distinct positions where the contract was invoked, newest first. -/
def invocations : List ContractActivityRow :=
  distinct ContractActivityRow.position newest (matching db contractSurrogateId)

/-- The walk of the list returns every position where the contract was invoked once, in
order. -/
def ListComplete (codec : CursorCodec) (limit : ℕ) : Prop :=
  WalksThrough (listInvocations db contractSurrogateId codec limit) invocationCursorFor
    ((invocations db contractSurrogateId).map (·.position))

/-- Every invocation has its transaction and its ledger. -/
def HasHeaders : Prop :=
  ∀ row ∈ matching db contractSurrogateId, ∃ t ∈ db.transactions, t.position = row.position ∧
    ∃ ledger ∈ db.ledgers, ledger.sequence = row.ledgerSequence

end

variable {db : Database} {contractSurrogateId : Int64} {codec : CursorCodec} {limit : ℕ}

/-! ## The keys of a page -/

theorem copied_matching (hcopies : Copies ContractActivityRow.position
    (matching db contractSurrogateId)) :
    Copied ContractActivityRow.position newest (matching db contractSurrogateId) :=
  ⟨hcopies, fun _ _ _ _ heq => OrderDual.toDual.injective heq⟩

theorem keyRows_next (limit : ℕ) (cursor : Option TxListCursor) :
    keyRows db contractSurrogateId limit cursor .next =
      collapse ContractActivityRow.position newest limit
        ((matching db contractSurrogateId).filter fun row =>
          cursor.all fun cursor => OrderDual.toDual cursor < newest row) := rfl

/-! ## The headers -/

theorem exists_header {positions : List TxListCursor} {key : ContractActivityRow}
    {accounts contracts : List (Int64 × String)} {row : ContractInvocationRow}
    (h : mergeHeader ((txRows db positions).map fun tx =>
      ((⟨tx.ledgerSequence, tx.applicationOrder⟩ : TxListCursor), tx)) accounts contracts key =
        some row) :
    invocationCursorFor row = key.position ∧ ∃ t ∈ db.transactions, t.position = key.position ∧
      ∃ ledger ∈ db.ledgers, ledger.sequence = key.ledgerSequence := by
  obtain ⟨tx, hlast, rfl⟩ := Option.map_eq_some_iff.mp h
  refine ⟨rfl, ?_⟩
  obtain ⟨_, hmem, heq⟩ := List.mem_map.mp (mem_of_lastOf hlast)
  obtain ⟨hposition, rfl⟩ := Prod.mk.inj heq
  obtain ⟨t, ht, htx⟩ := List.mem_flatMap.mp hmem
  obtain ⟨ledger, hledger, rfl⟩ := List.mem_map.mp htx
  obtain ⟨hledger, hsequence⟩ := List.mem_filter.mp hledger
  refine ⟨t, (List.mem_filter.mp ht).1, hposition, ledger, hledger, ?_⟩
  rw [of_decide_eq_true hsequence]
  exact congrArg TxListCursor.ledgerSequence hposition

theorem isSome_mergeHeader {positions : List TxListCursor} {key : ContractActivityRow}
    (hkey : key.position ∈ positions) (accounts contracts : List (Int64 × String))
    (h : ∃ t ∈ db.transactions, t.position = key.position ∧
      ∃ ledger ∈ db.ledgers, ledger.sequence = key.ledgerSequence) :
    (mergeHeader ((txRows db positions).map fun tx =>
      ((⟨tx.ledgerSequence, tx.applicationOrder⟩ : TxListCursor), tx)) accounts contracts
        key).isSome := by
  obtain ⟨t, ht, hposition, ledger, hledger, hsequence⟩ := h
  have hledgerSequence : t.ledgerSequence = key.ledgerSequence :=
    congrArg TxListCursor.ledgerSequence hposition
  have htx : ({ ledgerSequence := t.ledgerSequence
                applicationOrder := t.applicationOrder
                hash := hexEncode t.hash
                successful := t.successful
                createdAt := ledger.closedAt } : TxMetaChRow) ∈ txRows db positions := by
    refine List.mem_flatMap.mpr ⟨t, List.mem_filter.mpr ⟨ht, ?_⟩,
      List.mem_map.mpr ⟨ledger, List.mem_filter.mpr ⟨hledger, ?_⟩, rfl⟩⟩
    · rw [decide_eq_true_iff, hposition, hledgerSequence]
      exact ⟨hkey, List.mem_map.mpr ⟨key.position, hkey, rfl⟩⟩
    · rw [decide_eq_true_iff, hsequence, hledgerSequence]
  have hentry := isSome_lastOf_of_mem (List.mem_map_of_mem (f := fun tx : TxMetaChRow =>
    ((⟨tx.ledgerSequence, tx.applicationOrder⟩ : TxListCursor), tx)) htx)
  rw [mergeHeader, Option.isSome_map, ← hposition]
  exact hentry

/-- With every header there, no key is skipped. -/
theorem map_fetchContractInvocations (hheaders : HasHeaders db contractSurrogateId) (limit : ℕ)
    (cursor : Option TxListCursor) :
    (fetchContractInvocations db contractSurrogateId limit cursor .next).map invocationCursorFor =
      (keyRows db contractSurrogateId limit cursor .next).map (·.position) := by
  rw [fetchContractInvocations, List.map_filterMap]
  refine (List.filterMap_congr (g := some ∘ (·.position)) fun key hkey => ?_).trans
    (congrFun List.filterMap_eq_map _)
  have hmem : key ∈ matching db contractSurrogateId := by
    rw [keyRows_next, collapse] at hkey
    have hkey := List.mem_of_mem_take ((firstBy_sublist _ _).subset hkey)
    exact List.mem_of_mem_filter (mem_sortBy.mp hkey)
  have hsome := isSome_mergeHeader (List.mem_map_of_mem hkey)
    (resolveAccounts db ((keyRows db contractSurrogateId limit cursor .next).filterMap (·.callerId)))
    (resolveContracts db
      ((keyRows db contractSurrogateId limit cursor .next).filterMap (·.callerContractId)))
    (hheaders key hmem)
  obtain ⟨row, hrow⟩ := Option.isSome_iff_exists.mp hsome
  rw [hrow, Option.map_some, (exists_header hrow).1]
  rfl

/-! ## The walk -/

/-- With every header there, the walk goes through the distinct positions. -/
theorem walks (hlimit : 1 ≤ limit)
    (hcopies : Copies ContractActivityRow.position (matching db contractSurrogateId))
    (hheaders : HasHeaders db contractSurrogateId)
    (hcodec : ∀ row ∈ matching db contractSurrogateId,
      codec.ReadsBackPayload txListFormat row.position) :
    Walks (listInvocations db contractSurrogateId codec limit) invocationCursorFor
      ((invocations db contractSurrogateId).map (·.position)) limit
      (found ContractActivityRow.position newest (limit + 1) limit (matching db contractSurrogateId))
      fun position => codec.encodePayload txListFormat position .next := by
  have hfetch : ∀ cursor, (fetchContractInvocations db contractSurrogateId (limit + 1) cursor
      .next).map invocationCursorFor =
      ((collapse ContractActivityRow.position newest (limit + 1)
        ((matching db contractSurrogateId).filter fun row =>
          cursor.all fun cursor => OrderDual.toDual cursor < newest row)).take (limit + 1)).map
            (·.position) := by
    intro cursor
    rw [map_fetchContractInvocations hheaders, keyRows_next,
      List.take_of_length_le (length_collapse_le ..)]
  refine walks_pagedList hlimit (copied_matching hcopies) hcodec
    (fun row _ => TxListCursor.fromJson_toJson row.position) ?_ fun row _ => hfetch _
  simp only [hfetch none, Option.all_none, List.filter_true]

/-- A page shows only keys with a header. -/
theorem exists_header_of_mem_walkRows {n : ℕ} {row : ContractInvocationRow}
    (h : row ∈ walkRows (listInvocations db contractSurrogateId codec limit) n) :
    ∃ t ∈ db.transactions, t.position = invocationCursorFor row ∧
      ∃ ledger ∈ db.ledgers, ledger.sequence = row.ledgerSequence := by
  obtain ⟨raw, page, hpage, hrow⟩ := exists_page_of_mem_walkRows h
  rw [listInvocations, pagedList] at hpage
  cases hdecode : decodePayloadCursor codec txListFormat raw with
  | error error => rw [hdecode] at hpage; cases hpage
  | ok request =>
      rw [hdecode] at hpage
      obtain rfl := Except.ok.inj hpage
      obtain ⟨key, -, hmerge⟩ := List.mem_filterMap.mp (mem_of_mem_finalizePage hrow)
      obtain ⟨hposition, t, ht, htkey, ledger, hledger, hsequence⟩ := exists_header hmerge
      exact ⟨t, ht, htkey.trans hposition.symm, ledger, hledger,
        hsequence.trans (congrArg TxListCursor.ledgerSequence hposition).symm⟩

/-- A walk of the list is complete exactly if every invocation has its header and the
copies of no page fill its window of a page and one row. -/
theorem complete_iff_headers_and_room (hlimit : 1 ≤ limit)
    (hcopies : Copies ContractActivityRow.position (matching db contractSurrogateId))
    (hcodec : ∀ row ∈ matching db contractSurrogateId,
      codec.ReadsBackPayload txListFormat row.position) :
    ListComplete db contractSurrogateId codec limit ↔
      HasHeaders db contractSurrogateId ∧
        Room ContractActivityRow.position newest (limit + 1) limit
          (matching db contractSurrogateId) := by
  have hcopied := copied_matching hcopies
  have hreaches : HasHeaders db contractSurrogateId →
      (ListComplete db contractSurrogateId codec limit ↔
        Room ContractActivityRow.position newest (limit + 1) limit
          (matching db contractSurrogateId)) := by
    intro hheaders
    exact walksThrough_pagedList_iff hlimit hcopied (walks hlimit hcopies hheaders hcodec) id
  refine ⟨fun hcomplete => ?_, fun h => (hreaches h.1).mpr h.2⟩
  have hheaders : HasHeaders db contractSurrogateId := by
    obtain ⟨n, -, -, hall⟩ := hcomplete
    intro row hrow
    have hmem := List.mem_map_of_mem (f := ContractActivityRow.position)
      ((mem_distinct hcopied).mpr hrow)
    rw [← invocations, ← hall] at hmem
    obtain ⟨shownRow, hshown, hposition⟩ := List.mem_map.mp hmem
    obtain ⟨t, ht, htrow, ledger, hledger, hsequence⟩ := exists_header_of_mem_walkRows hshown
    exact ⟨t, ht, htrow.trans hposition, ledger, hledger,
      hsequence.trans (congrArg TxListCursor.ledgerSequence hposition)⟩
  exact ⟨hheaders, (hreaches hheaders).mp hcomplete⟩

end SorobanExplorer.InvocationList
