import Mathlib.Data.List.ReduceOption
import SorobanExplorer.Lib.GroupBy
import SorobanExplorer.Lib.Traverse
import SorobanExplorer.Persist.ContractsSpec
import SorobanExplorer.Persist.OperationIdentity

/-!
# Every operation has one row

The table of the walk holds, for each identity, the smallest index of its operations
(`lookup_opAgg`).  An index names one operation of its transaction, and so does a row by its
position (`represented_rowOf`); the operations of a row are those that look like that one.
-/

namespace SorobanExplorer.Operations

open KeyedFold Persist Text Traverse

/-! ## Ledgers -/

/-- The operations of a ledger's transactions, as they are extracted: each transaction once,
its operations numbered from 0, and at most as many as a transaction may have. -/
structure LedgerOperations (operations : List (String × List StagedOperation)) : Prop where
  once : (operations.map Prod.fst).Nodup
  numbered : ∀ tx ∈ operations,
    tx.2.map (·.operationIndex.toNat) = List.range tx.2.length
  capped : ∀ tx ∈ operations, tx.2.length ≤ 100
  named : ∀ tx ∈ operations, ∀ op ∈ tx.2, NamesPools op.details

/-- The operations of the transactions the ledger has, each with its transaction. -/
def staged (orders : Table String Int16) (operations : List (String × List StagedOperation)) :
    List (String × StagedOperation) :=
  operations.flatMap fun tx =>
    if (orders.lookup tx.1).isSome then tx.2.map (tx.1, ·) else []

/-- Whether a row has the position of an operation. -/
def standsAt (orders : Table String Int16) (row : TransactionOperationRow)
    (s : String × StagedOperation) : Bool :=
  orders.lookup s.1 = some row.applicationOrder ∧
    (s.2.operationIndex.toNat : ℤ) = row.operationIndex.toInt

open Classical in
/-- The operations a row stands for: those that look like the one at its position. -/
noncomputable def represented (orders : Table String Int16)
    (operations : List (String × List StagedOperation)) (row : TransactionOperationRow) :
    List (String × StagedOperation) :=
  (staged orders operations).filter fun s =>
    ∃ first ∈ staged orders operations, standsAt orders row first ∧ Alike first s

/-! ## Positions -/

theorem i16TryFrom_ok {n : ℕ} {message : String} {order : Int16}
    (h : i16TryFrom n message = .ok order) : n < 2 ^ 15 ∧ order = .ofNat n := by
  unfold i16TryFrom at h
  split_ifs at h with hn
  cases h
  exact ⟨hn, rfl⟩

theorem i16TryFrom_of_lt {n : ℕ} (message : String) (h : n < 2 ^ 15) :
    i16TryFrom n message = .ok (.ofNat n) := by
  rw [i16TryFrom, if_pos h]

section

variable {hashes : List String} {orders : Table String Int16}
  (horders : appOrderByHash hashes = .ok orders)

include horders

theorem appOrderByHash_ok : orders = collect (hashes.zipIdx.map fun entry =>
      (entry.1, Int16.ofNat (entry.2 + 1))) ∧ ∀ entry ∈ hashes.zipIdx, entry.2 + 1 < 2 ^ 15 := by
  unfold appOrderByHash at horders
  cases hpositions : hashes.zipIdx.mapM (fun entry : String × ℕ => do
      let order ← i16TryFrom (entry.2 + 1) "application_order overflow (>i16)"
      return (entry.1, order)) with
  | error e =>
      rw [hpositions] at horders
      cases horders
  | ok positions =>
      rw [hpositions] at horders
      obtain rfl : collect positions = orders := Except.ok.inj horders
      have hforall := mapM_eq_ok_iff.mp hpositions
      -- each position is the number of its place, counted from 1
      have hstep : ∀ entry ∈ hashes.zipIdx, ∀ position : String × Int16,
          (do
            let order ← i16TryFrom (entry.2 + 1) "application_order overflow (>i16)"
            return (entry.1, order) : Except SchemaError (String × Int16)) = .ok position →
          entry.2 + 1 < 2 ^ 15 ∧ position = (entry.1, Int16.ofNat (entry.2 + 1)) := by
        intro entry _ position hposition
        cases horder : i16TryFrom (entry.2 + 1) "application_order overflow (>i16)" with
        | error e =>
            rw [horder] at hposition
            cases hposition
        | ok order =>
            rw [horder] at hposition
            obtain ⟨hlt, rfl⟩ := i16TryFrom_ok horder
            exact ⟨hlt, (Except.ok.inj hposition).symm⟩
      have hread := forall₂_of_mem hforall hstep
      refine ⟨congrArg collect ?_, fun entry hentry => ?_⟩
      · have heq : List.Forall₂ (fun (entry : String × ℕ) position =>
            (entry.1, Int16.ofNat (entry.2 + 1)) = position) hashes.zipIdx positions :=
          hread.imp fun _ _ h => h.2.symm
        rwa [List.forall₂_map_left_iff.symm, List.forall₂_eq_eq_eq, eq_comm] at heq
      · obtain ⟨position, -, hposition⟩ := exists_of_mem_left hread hentry
        exact hposition.1

theorem isSome_lookup_iff (hash : String) : (orders.lookup hash).isSome ↔ hash ∈ hashes := by
  obtain ⟨rfl, -⟩ := appOrderByHash_ok horders
  rw [lookup_collect]
  constructor
  · intro h
    obtain ⟨order, horder⟩ := Option.isSome_iff_exists.mp h
    obtain ⟨entry, hentry, heq⟩ := List.mem_map.mp (mem_of_lastOf horder)
    cases heq
    exact List.fst_mem_of_mem_zipIdx hentry
  · intro hmem
    obtain ⟨i, hi, rfl⟩ := List.getElem_of_mem hmem
    have hsaid : (hashes[i], Int16.ofNat (i + 1)) ∈
        hashes.zipIdx.map fun entry => (entry.1, Int16.ofNat (entry.2 + 1)) :=
      List.mem_map.mpr ⟨(hashes[i], i),
        List.mk_mem_zipIdx_iff_getElem?.mpr (List.getElem?_eq_getElem hi), rfl⟩
    exact isSome_lastOf_of_mem hsaid

/-- A position belongs to one transaction. -/
theorem lookup_injective {hash hash' : String} {order : Int16}
    (h : orders.lookup hash = some order) (h' : orders.lookup hash' = some order) : hash = hash' := by
  obtain ⟨rfl, hlt⟩ := appOrderByHash_ok horders
  rw [lookup_collect] at h h'
  obtain ⟨⟨_, i⟩, hi, heq⟩ := List.mem_map.mp (mem_of_lastOf h)
  obtain ⟨⟨_, j⟩, hj, heq'⟩ := List.mem_map.mp (mem_of_lastOf h')
  obtain ⟨rfl, hiOrder⟩ := Prod.mk.inj heq
  obtain ⟨rfl, hjOrder⟩ := Prod.mk.inj heq'
  have hsame : i = j := by
    have hint := congrArg Int16.toInt (hiOrder.trans hjOrder.symm)
    rw [Int16.toInt_ofNat_of_lt (hlt _ hi), Int16.toInt_ofNat_of_lt (hlt _ hj)] at hint
    omega
  subst hsame
  have hget := List.mk_mem_zipIdx_iff_getElem?.mp hi
  rw [List.mk_mem_zipIdx_iff_getElem?.mp hj] at hget
  exact (Option.some.inj hget).symm

end

/-! ## Groups -/

section

variable {orders : Table String Int16} {operations : List (String × List StagedOperation)}

/-- What an operation adds to the table. -/
def indexed (s : String × StagedOperation) : Update OpKey UInt32 :=
  minIndex (identity s) s.2.operationIndex

theorem staged_cons (orders : Table String Int16) (tx : String × List StagedOperation)
    (rest : List (String × List StagedOperation)) :
    staged orders (tx :: rest) = staged orders [tx] ++ staged orders rest := by
  simp [staged]

theorem foldl_staged {orders : Table String Int16}
    (operations : List (String × List StagedOperation)) (table : Table OpKey UInt32) :
    operations.foldl (fun table tx => runAll ((staged orders [tx]).map indexed) table) table =
      runAll ((staged orders operations).map indexed) table := by
  induction operations generalizing table with
  | nil => rfl
  | cons tx rest ih =>
      rw [List.foldl_cons, ih, staged_cons orders tx rest, List.map_append]
      exact (List.foldl_append ..).symm

/-- The indices under an identity. -/
def indices (orders : Table String Int16) (operations : List (String × List StagedOperation))
    (key : OpKey) : List UInt32 :=
  ((staged orders operations).filter (identity · = key)).map (·.2.operationIndex)

theorem lookup_opAgg (key : OpKey) :
    (runAll ((staged orders operations).map indexed) ∅).lookup key =
      (indices orders operations key).min? := by
  have hsaid := history_min key
    ((staged orders operations).map fun s => (identity s, s.2.operationIndex))
  rw [lookup_runAll, AList.lookup_empty]
  rw [List.map_map, List.filter_map, List.map_map] at hsaid
  exact hsaid

theorem min?_indices {key : OpKey} {least : UInt32} :
    (indices orders operations key).min? = some least ↔
      (∃ s ∈ staged orders operations, identity s = key ∧ s.2.operationIndex = least) ∧
        ∀ s ∈ staged orders operations, identity s = key → least ≤ s.2.operationIndex := by
  rw [List.min?_eq_some_iff]
  simp only [indices, List.mem_map, List.mem_filter, decide_eq_true_eq]
  constructor
  · rintro ⟨⟨s, ⟨hs, hkey⟩, hindex⟩, hleast⟩
    exact ⟨⟨s, hs, hkey, hindex⟩, fun t ht htkey => hleast _ ⟨t, ⟨ht, htkey⟩, rfl⟩⟩
  · rintro ⟨⟨s, hs, hkey, hindex⟩, hleast⟩
    refine ⟨⟨s, ⟨hs, hkey⟩, hindex⟩, ?_⟩
    rintro index ⟨t, ⟨ht, htkey⟩, rfl⟩
    exact hleast t ht htkey

theorem mem_staged {s : String × StagedOperation} :
    s ∈ staged orders operations ↔
      (orders.lookup s.1).isSome ∧ ∃ tx ∈ operations, tx.1 = s.1 ∧ s.2 ∈ tx.2 := by
  rw [staged, List.mem_flatMap]
  constructor
  · rintro ⟨tx, htx, hs⟩
    split_ifs at hs with hsome
    · obtain ⟨op, hop, rfl⟩ := List.mem_map.mp hs
      exact ⟨hsome, tx, htx, rfl, hop⟩
    · cases hs
  · rintro ⟨hsome, tx, htx, heq, hop⟩
    refine ⟨tx, htx, ?_⟩
    rw [heq, if_pos hsome]
    exact List.mem_map_of_mem hop

end

/-! ## One operation -/

section

variable [Crates]

theorem mapM_decodeHash {texts : List String} (field : String)
    (h : ∀ text ∈ texts, ∃ poolId : Hash, text = hexEncode poolId.bytes) :
    texts.mapM (decodeHash · field) = .ok (texts.filterMap hexDecode) := by
  induction texts with
  | nil => rfl
  | cons text texts ih =>
      obtain ⟨poolId, rfl⟩ := h text List.mem_cons_self
      rw [List.mapM_cons, decodeHash_hexEncode, ih fun other hother =>
        h other (List.mem_cons_of_mem _ hother), List.filterMap_cons_some (hexDecode_hexEncode _)]
      rfl

theorem foldl_touch_opAgg (ledgerSequence : ℤ) (applicationOrder : Int16) (assets : List AssetRef)
    (walk : Walk) :
    (assets.foldl (Walk.touch ledgerSequence applicationOrder) walk).opAgg = walk.opAgg := by
  induction assets generalizing walk with
  | nil => rfl
  | cons asset assets ih =>
      rw [List.foldl_cons, ih]
      unfold Walk.touch
      split_ifs <;> rfl

theorem walkOperation_ok {ledgerSequence : ℤ} {txHash : String} {applicationOrder : Int16}
    {walk : Walk} {op : StagedOperation} (hnamed : NamesPools op.details)
    (hindex : op.operationIndex.toNat < 2 ^ 15) :
    ∃ after, walkOperation ledgerSequence txHash applicationOrder walk op = .ok after ∧
      after.opAgg = (indexed (txHash, op)).run walk.opAgg := by
  have hpools := mapM_decodeHash "op.pool_ids" (poolIdsHex_named hnamed)
  unfold walkOperation
  dsimp only
  rw [hpools, i16TryFrom_of_lt _ hindex]
  refine ⟨_, rfl, ?_⟩
  show Update.run (Walk.opAgg _) _ = _
  rw [foldl_touch_opAgg]
  rfl

/-! ## The walk -/

section

variable {orders : Table String Int16} {operations : List (String × List StagedOperation)}
  (hledger : LedgerOperations operations)

include hledger

omit [Crates] in
theorem index_lt {tx : String × List StagedOperation} (htx : tx ∈ operations)
    {op : StagedOperation} (hop : op ∈ tx.2) : op.operationIndex.toNat < 2 ^ 15 := by
  have hmem : op.operationIndex.toNat ∈ List.range tx.2.length := by
    rw [← hledger.numbered tx htx]
    exact List.mem_map_of_mem hop
  have hcapped := hledger.capped tx htx
  have hlt := List.mem_range.mp hmem
  omega

/-- The table of the walk is that of the staged operations, in order. -/
theorem walk_ok (ledgerSequence : ℤ) (walk : Walk) :
    ∃ after, operations.foldlM (walkTransaction ledgerSequence orders) walk = .ok after ∧
      after.opAgg = runAll ((staged orders operations).map indexed) walk.opAgg := by
  have htransaction : ∀ walk : Walk, ∀ tx ∈ operations,
      ∃ after, walkTransaction ledgerSequence orders walk tx = .ok after ∧
        after.opAgg = runAll ((staged orders [tx]).map indexed) walk.opAgg := by
    intro walk tx htx
    unfold walkTransaction
    cases horder : orders.lookup tx.1 with
    | none =>
        have hnone : staged orders [tx] = [] := by simp [staged, horder]
        exact ⟨walk, rfl, by rw [hnone]; rfl⟩
    | some applicationOrder =>
        have hstep : ∀ walk : Walk, ∀ op ∈ tx.2, ∃ after,
            walkOperation ledgerSequence tx.1 applicationOrder walk op = .ok after ∧
              after.opAgg = (indexed (tx.1, op)).run walk.opAgg :=
          fun walk op hop => walkOperation_ok (hledger.named tx htx op hop)
            (index_lt hledger htx hop)
        obtain ⟨after, hafter, hagg⟩ :=
          @foldlM_ok _ _ _ _ _ Walk.opAgg (fun table op => (indexed (tx.1, op)).run table) _ hstep
            { walk with seenTxAssetIds := [] }
        have hsome : staged orders [tx] = tx.2.map (tx.1, ·) := by simp [staged, horder]
        refine ⟨after, hafter, hagg.trans ?_⟩
        rw [hsome, runAll, List.map_map, List.foldl_map]
        rfl
  obtain ⟨after, hafter, hagg⟩ := @foldlM_ok _ _ _ _ _ Walk.opAgg
    (fun table tx => runAll ((staged orders [tx]).map indexed) table) _ htransaction walk
  exact ⟨after, hafter, hagg.trans (foldl_staged operations walk.opAgg)⟩

omit [Crates] in
/-- An index names one operation of its transaction. -/
theorem staged_injective {s t : String × StagedOperation} (hs : s ∈ staged orders operations)
    (ht : t ∈ staged orders operations) (hhash : s.1 = t.1)
    (hindex : s.2.operationIndex.toNat = t.2.operationIndex.toNat) : s = t := by
  obtain ⟨-, tx, htx, hs, hsop⟩ := mem_staged.mp hs
  obtain ⟨-, tx', htx', ht, htop⟩ := mem_staged.mp ht
  obtain rfl : tx = tx' := List.inj_on_of_nodup_map hledger.once htx htx' <|
    calc tx.1 = s.1 := hs
      _ = t.1 := hhash
      _ = tx'.1 := ht.symm
  have hnodup : (tx.2.map (·.operationIndex.toNat)).Nodup := by
    rw [hledger.numbered tx htx]
    exact List.nodup_range
  exact Prod.ext hhash (List.inj_on_of_nodup_map hnodup hsop htop hindex)

omit [Crates] in
theorem named_of_mem_staged {s : String × StagedOperation} (hs : s ∈ staged orders operations) :
    NamesPools s.2.details := by
  obtain ⟨-, tx, htx, -, hop⟩ := mem_staged.mp hs
  exact hledger.named tx htx s.2 hop

/-! ## Rows -/

/-- The row of a group. -/
def rowOf (ledgerSequence : ℤ) (orders : Table String Int16) (group : OpKey × UInt32) :
    TransactionOperationRow :=
  identityRow ledgerSequence ((orders.lookup group.1.txHashHex).getD 0) (.ofNat group.2.toNat) group.1

omit [Crates] in
/-- What a group of the table is: an operation at the smallest index of its identity. -/
theorem exists_first {group : OpKey × UInt32}
    (hgroup : (indices orders operations group.1).min? = some group.2) :
    ∃ s ∈ staged orders operations, identity s = group.1 ∧ s.2.operationIndex = group.2 ∧
      group.2.toNat < 2 ^ 15 ∧ ∃ order, orders.lookup group.1.txHashHex = some order := by
  obtain ⟨⟨s, hs, hkey, hindex⟩, -⟩ := min?_indices.mp hgroup
  obtain ⟨hsome, tx, htx, -, hop⟩ := mem_staged.mp hs
  have hlt := index_lt hledger htx hop
  have htxHash : group.1.txHashHex = s.1 := by
    rw [← hkey]
    rfl
  rw [hindex] at hlt
  rw [htxHash]
  exact ⟨s, hs, hkey, hindex, hlt, Option.isSome_iff_exists.mp hsome⟩

theorem groupRow_ok {ledgerSequence : ℤ} {group : OpKey × UInt32}
    (hgroup : (indices orders operations group.1).min? = some group.2) :
    groupRow ledgerSequence orders group = .ok (some (rowOf ledgerSequence orders group)) := by
  obtain ⟨-, -, -, -, hlt, order, horder⟩ := exists_first hledger hgroup
  unfold groupRow
  rw [horder]
  dsimp only
  rw [i16TryFrom_of_lt _ hlt, rowOf, horder]
  rfl

section

variable {hashes : List String} (horders : appOrderByHash hashes = .ok orders)

include horders

/-- The operations a row stands for are those of its group. -/
theorem represented_rowOf {ledgerSequence : ℤ} {group : OpKey × UInt32}
    (hgroup : (indices orders operations group.1).min? = some group.2) :
    represented orders operations (rowOf ledgerSequence orders group) =
      (staged orders operations).filter (identity · = group.1) := by
  obtain ⟨s, hs, hkey, hindex, hlt, order, horder⟩ := exists_first hledger hgroup
  have hown : (rowOf ledgerSequence orders group).applicationOrder = order := by
    show (orders.lookup group.1.txHashHex).getD 0 = order
    rw [horder]
    rfl
  have hposition : (rowOf ledgerSequence orders group).operationIndex.toInt = group.2.toNat :=
    Int16.toInt_ofNat_of_lt hlt
  have hhash : s.1 = group.1.txHashHex := by
    rw [← hkey]
    rfl
  have hstands : orders.lookup s.1 = some (rowOf ledgerSequence orders group).applicationOrder ∧
      (s.2.operationIndex.toNat : ℤ) = (rowOf ledgerSequence orders group).operationIndex.toInt := by
    constructor
    · rw [hown, hhash, horder]
    · rw [hposition, hindex]
  refine List.filter_congr fun t ht => ?_
  rw [decide_eq_decide]
  constructor
  · -- the position is that of one operation, so the one found there has the identity
    rintro ⟨first, hfirst, hstandsFirst, halike⟩
    have hfirstAt := of_decide_eq_true hstandsFirst
    have hsame : first = s := by
      refine staged_injective hledger hfirst hs
        (lookup_injective horders hfirstAt.1 hstands.1) ?_
      have hint := hfirstAt.2.trans hstands.2.symm
      omega
    subst hsame
    rw [← hkey]
    exact ((key_eq_iff (named_of_mem_staged hledger hs) (named_of_mem_staged hledger ht)).mpr
      halike).symm
  · intro htkey
    refine ⟨s, hs, decide_eq_true hstands, ?_⟩
    exact (key_eq_iff (named_of_mem_staged hledger hs) (named_of_mem_staged hledger ht)).mp
      (hkey.trans htkey.symm)

/-- Two groups at one position are one. -/
theorem rowOf_position_injective {ledgerSequence : ℤ} {group group' : OpKey × UInt32}
    (hgroup : (indices orders operations group.1).min? = some group.2)
    (hgroup' : (indices orders operations group'.1).min? = some group'.2)
    (hposition : ((rowOf ledgerSequence orders group).applicationOrder,
        (rowOf ledgerSequence orders group).operationIndex) =
      ((rowOf ledgerSequence orders group').applicationOrder,
        (rowOf ledgerSequence orders group').operationIndex)) : group = group' := by
  obtain ⟨s, hs, hkey, -⟩ := exists_first hledger hgroup
  obtain ⟨horder, hindex⟩ := Prod.mk.inj hposition
  have hreps : represented orders operations (rowOf ledgerSequence orders group) =
      represented orders operations (rowOf ledgerSequence orders group') := by
    have hstands : standsAt orders (rowOf ledgerSequence orders group) =
        standsAt orders (rowOf ledgerSequence orders group') := by
      funext s
      rw [standsAt, standsAt, horder, hindex]
    rw [represented, represented, hstands]
  rw [represented_rowOf hledger horders hgroup, represented_rowOf hledger horders hgroup'] at hreps
  have hmem : s ∈ (staged orders operations).filter (identity · = group.1) :=
    List.mem_filter.mpr ⟨hs, decide_eq_true hkey⟩
  rw [hreps] at hmem
  have hkeys : group.1 = group'.1 := hkey.symm.trans (of_decide_eq_true (List.mem_filter.mp hmem).2)
  rw [hkeys] at hgroup
  exact Prod.ext hkeys (Option.some.inj (hgroup.symm.trans hgroup'))

end

end

/-! ## The rows of a ledger -/

/-- A row has the columns of an operation: its type, its source, and what it names. -/
structure Shows (row : TransactionOperationRow) (op : StagedOperation) : Prop where
  opType : OperationType.tryFrom row.opType = some op.opType
  source : row.sourceId = op.sourceAccount.map Ids.accountId
  destination : ∀ id, row.destinationId = some id ↔
    ∃ account, NamesAccount op account ∧ Ids.accountId account = id
  contract : ∀ id, row.contractId = some id ↔
    ∃ contract, NamesContract op contract ∧ Ids.contractId contract = id
  asset : ∀ code issuer, NamesAsset op code issuer →
    row.assetCode = code ∧ row.assetIssuerId = issuer.map Ids.accountId
  noAsset : (∀ code issuer, ¬ NamesAsset op code issuer) →
    row.assetCode = "" ∧ row.assetIssuerId = none
  pools : row.poolIds.Pairwise (· < ·) ∧
    ∀ poolId, poolId ∈ row.poolIds ↔ ∃ pool, Touches op pool ∧ pool.bytes = poolId

theorem shows_identityRow (ledgerSequence : ℤ) (applicationOrder operationIndex : Int16)
    {s : String × StagedOperation} (hnamed : NamesPools s.2.details) :
    Shows (identityRow ledgerSequence applicationOrder operationIndex (identity s)) s.2 := by
  constructor
  case opType => exact tryFrom_toI16 s.2.opType
  case source => rfl
  case destination =>
    intro id
    show Option.map _ (OpTyped.fromDetails s.2.opType s.2.details).destination = _ ↔ _
    rw [Option.map_eq_some_iff]
    exact exists_congr fun account => and_congr_left fun _ => namesAccount_iff.symm
  case contract =>
    intro id
    show Option.map _ (OpTyped.fromDetails s.2.opType s.2.details).contractId = _ ↔ _
    rw [Option.map_eq_some_iff]
    exact exists_congr fun contract => and_congr_left fun _ => namesContract_iff.symm
  case asset =>
    intro code issuer hnames
    obtain ⟨⟨hcode, hissuer⟩, -⟩ := namesAsset_iff.mp hnames
    exact ⟨hcode, congrArg (Option.map Ids.accountId) hissuer⟩
  case noAsset =>
    intro hnone
    have hcode : (OpTyped.fromDetails s.2.opType s.2.details).assetCode.getD "" = "" := by
      by_contra hne
      exact hnone _ _ (namesAsset_iff.mpr ⟨⟨rfl, rfl⟩, hne⟩)
    exact ⟨hcode, congrArg (Option.map Ids.accountId) (assetIssuer_eq_none hcode)⟩
  case pools =>
    exact ⟨SortedUnique.pairwise_sortedUnique _, fun poolId =>
      SortedUnique.mem_sortedUnique.trans (mem_poolIds_iff hnamed)⟩

/-- The rows stand for every operation of the ledger's transactions, each row for those that
look alike, with their columns and at their smallest index. -/
structure Covers (hashes : List String) (orders : Table String Int16)
    (operations : List (String × List StagedOperation)) (ledgerSequence : ℤ)
    (rows : List TransactionOperationRow) : Prop where
  keys : (rows.map fun row => (row.applicationOrder, row.operationIndex)).Nodup
  once : ∀ tx ∈ operations, tx.1 ∈ hashes → ∀ op ∈ tx.2,
    ∃! row, row ∈ rows ∧ (tx.1, op) ∈ represented orders operations row
  shared : ∀ row ∈ rows, ∀ s ∈ represented orders operations row,
    ∀ t ∈ staged orders operations, t ∈ represented orders operations row ↔ Alike s t
  columns : ∀ row ∈ rows, row.ledgerSequence = ledgerSequence ∧
    ∀ s ∈ represented orders operations row,
      orders.lookup s.1 = some row.applicationOrder ∧ Shows row s.2
  smallest : ∀ row ∈ rows,
    (∃ s ∈ represented orders operations row,
      (s.2.operationIndex.toNat : ℤ) = row.operationIndex.toInt) ∧
    ∀ s ∈ represented orders operations row,
      row.operationIndex.toInt ≤ s.2.operationIndex.toNat
  counts : (rows.map fun row => (represented orders operations row).length).sum =
    ((operations.filter (·.1 ∈ hashes)).map (·.2.length)).sum

omit [Crates] in
theorem length_staged {hashes : List String} {orders : Table String Int16}
    (horders : appOrderByHash hashes = .ok orders)
    (operations : List (String × List StagedOperation)) :
    (staged orders operations).length =
      ((operations.filter (·.1 ∈ hashes)).map (·.2.length)).sum := by
  induction operations with
  | nil => rfl
  | cons tx rest ih =>
      rw [staged_cons orders tx rest, List.length_append, ih]
      by_cases hmem : tx.1 ∈ hashes
      · have hsome := (isSome_lookup_iff horders tx.1).mpr hmem
        simp [staged, hsome, hmem]
      · have hnone : ¬ (orders.lookup tx.1).isSome :=
          fun hsome => hmem ((isSome_lookup_iff horders tx.1).mp hsome)
        simp [staged, hnone, hmem]

/-- What the walk leaves is one group for each identity. -/
theorem operationRows_ok {orders : Table String Int16}
    {operations : List (String × List StagedOperation)} (hledger : LedgerOperations operations)
    (drain : DrainOrder (OpKey × UInt32)) (ledgerSequence : ℤ) :
    ∃ (out : OperationRows) (groups : List (OpKey × UInt32)),
      operationRows operations orders drain ledgerSequence = .ok out ∧
      out.txOperationRows = groups.map (rowOf ledgerSequence orders) ∧
      (groups.map Prod.fst).Nodup ∧
      ∀ group, group ∈ groups ↔ (indices orders operations group.1).min? = some group.2 := by
  obtain ⟨walk, hwalk, hagg⟩ := @walk_ok _ orders _ hledger ledgerSequence ⟨[], [], ∅, []⟩
  set groups := drain.drain (pairs walk.opAgg) with hgroups
  have hperm : groups.Perm (pairs walk.opAgg) := drain.perm _
  -- a group keeps the first index of its identity
  have hmem : ∀ group, group ∈ groups ↔
      (indices orders operations group.1).min? = some group.2 := by
    intro group
    rw [hperm.mem_iff, ← lookup_opAgg]
    exact (@mem_pairs _ _ _ walk.opAgg group.1 group.2).trans (by rw [hagg])
  have hrows : groups.mapM (groupRow ledgerSequence orders) =
      .ok (groups.map (some <| rowOf ledgerSequence orders ·)) :=
    mapM_eq_pure fun group hgroup => groupRow_ok hledger ((hmem group).mp hgroup)
  have hreduce : (groups.map (some <| rowOf ledgerSequence orders ·)).reduceOption =
      groups.map (rowOf ledgerSequence orders) := by
    rw [List.reduceOption, List.filterMap_map]
    exact List.filterMap_eq_map_iff_forall_eq_some.mpr fun _ _ => rfl
  refine ⟨⟨walk.opAssetRows, walk.poolAmountRows, groups.map (rowOf ledgerSequence orders)⟩, groups,
    ?_, rfl, ((hperm.map Prod.fst).nodup_iff).mpr (nodup_map_fst_pairs _), hmem⟩
  unfold operationRows
  rw [hwalk]
  show (groups.mapM (groupRow ledgerSequence orders) >>= _) = _
  rw [hrows]
  show Except.ok _ = _
  rw [hreduce]

/-- **Operation rows cover everything once**, whatever order the groups come in. -/
theorem operationRows_cover {hashes : List String} {orders : Table String Int16}
    {operations : List (String × List StagedOperation)}
    (horders : appOrderByHash hashes = .ok orders) (hledger : LedgerOperations operations)
    (drain : DrainOrder (OpKey × UInt32)) (ledgerSequence : ℤ) :
    ∃ out, operationRows operations orders drain ledgerSequence = .ok out ∧
      Covers hashes orders operations ledgerSequence out.txOperationRows := by
  obtain ⟨out, groups, hout, hrows, hnodup, hmem⟩ :=
    @operationRows_ok _ orders _ hledger drain ledgerSequence
  refine ⟨out, hout, ?_⟩
  rw [hrows]
  have hreps : ∀ group ∈ groups, represented orders operations (rowOf ledgerSequence orders group) =
      (staged orders operations).filter (identity · = group.1) :=
    fun group hgroup => represented_rowOf hledger horders ((hmem group).mp hgroup)
  -- A staged operation stands in the group of its identity, which has a smallest index.
  have hstaged : ∀ s ∈ staged orders operations, ∃ group ∈ groups, identity s = group.1 := by
    intro s hs
    have hindices : indices orders operations (identity s) ≠ [] :=
      List.ne_nil_of_mem (List.mem_map_of_mem (List.mem_filter.mpr ⟨hs, decide_eq_true rfl⟩))
    cases hleast : (indices orders operations (identity s)).min? with
    | none => exact absurd (List.min?_eq_none_iff.mp hleast) hindices
    | some least => exact ⟨(identity s, least), (hmem _).mpr hleast, rfl⟩
  constructor
  case keys =>
    rw [List.map_map]
    refine List.Nodup.map_on ?_ hnodup.of_map
    intro group hgroup group' hgroup' hposition
    exact rowOf_position_injective hledger horders ((hmem _).mp hgroup) ((hmem _).mp hgroup')
      hposition
  case once =>
    intro tx htx hhash op hop
    have hs : (tx.1, op) ∈ staged orders operations :=
      mem_staged.mpr ⟨(isSome_lookup_iff horders tx.1).mpr hhash, tx, htx, rfl, hop⟩
    obtain ⟨group, hgroup, hkey⟩ := hstaged _ hs
    refine ⟨rowOf ledgerSequence orders group, ⟨List.mem_map_of_mem hgroup, ?_⟩, ?_⟩
    · rw [hreps group hgroup]
      exact List.mem_filter.mpr ⟨hs, decide_eq_true hkey⟩
    · -- Another row of it would be of the same identity, so of the same group.
      rintro row ⟨hrow, hin⟩
      obtain ⟨other, hother, rfl⟩ := List.mem_map.mp hrow
      rw [hreps other hother] at hin
      have hotherKey : identity (tx.1, op) = other.1 := of_decide_eq_true (List.mem_filter.mp hin).2
      rw [List.inj_on_of_nodup_map hnodup hother hgroup (hotherKey.symm.trans hkey)]
  case shared =>
    intro row hrow s hs t ht
    obtain ⟨group, hgroup, rfl⟩ := List.mem_map.mp hrow
    rw [hreps group hgroup] at hs ⊢
    obtain ⟨hs, hkey⟩ := List.mem_filter.mp hs
    rw [List.mem_filter, ← key_eq_iff (named_of_mem_staged hledger hs)
      (named_of_mem_staged hledger ht), of_decide_eq_true hkey, decide_eq_true_iff]
    exact ⟨fun h => h.2.symm, fun h => ⟨ht, h.symm⟩⟩
  case columns =>
    intro row hrow
    obtain ⟨group, hgroup, rfl⟩ := List.mem_map.mp hrow
    refine ⟨rfl, fun s hs => ?_⟩
    rw [hreps group hgroup] at hs
    obtain ⟨hs, hkey⟩ := List.mem_filter.mp hs
    have hkey : identity s = group.1 := of_decide_eq_true hkey
    obtain ⟨order, horder⟩ := Option.isSome_iff_exists.mp (mem_staged.mp hs).1
    have hhash : group.1.txHashHex = s.1 := by
      rw [← hkey]
      rfl
    constructor
    · show _ = some ((orders.lookup group.1.txHashHex).getD 0)
      rw [hhash, horder]
      rfl
    · rw [rowOf, ← hkey]
      exact shows_identityRow _ _ _ (named_of_mem_staged hledger hs)
  case smallest =>
    intro row hrow
    obtain ⟨group, hgroup, rfl⟩ := List.mem_map.mp hrow
    have hleast := (hmem group).mp hgroup
    obtain ⟨s, hs, hkey, hindex, hlt, -⟩ := exists_first hledger hleast
    have hposition : (rowOf ledgerSequence orders group).operationIndex.toInt = group.2.toNat :=
      Int16.toInt_ofNat_of_lt hlt
    rw [hreps group hgroup, hposition]
    refine ⟨⟨s, List.mem_filter.mpr ⟨hs, decide_eq_true hkey⟩, by rw [hindex]⟩, ?_⟩
    intro t ht
    obtain ⟨ht, htkey⟩ := List.mem_filter.mp ht
    have hle := (min?_indices.mp hleast).2 t ht (of_decide_eq_true htkey)
    exact_mod_cast UInt32.le_iff_toNat_le.mp hle
  case counts =>
    -- The rows represent the fibres of the identity, which add up to everything staged.
    have hlengths : (groups.map (rowOf ledgerSequence orders)).map
          (fun row => (represented orders operations row).length) =
        (groups.map Prod.fst).map fun key =>
          (((staged orders operations).filter (identity · = key)).map fun _ => 1).sum := by
      rw [List.map_map, List.map_map]
      apply List.map_congr_left
      intro group hgroup
      show (represented orders operations (rowOf ledgerSequence orders group)).length = _
      rw [hreps group hgroup]
      simp
    rw [hlengths, GroupBy.sum_fibers (fun _ => 1) hnodup, ← length_staged horders]
    · simp
    · intro s hs
      obtain ⟨group, hgroup, hkey⟩ := hstaged s hs
      rw [hkey]
      exact List.mem_map_of_mem hgroup

end

private def paymentOf (asset : String) (index : UInt32) : StagedOperation where
  transactionHash := ""
  operationIndex := index
  opType := .payment
  sourceAccount := none
  sourceMuxedId := none
  destinationMuxedId := none
  details := .obj [("destination", .str "GA"), ("asset", .str asset)]
  assetAppearances := []

private theorem namesPools_paymentOf (asset : String) (index : UInt32) :
    NamesPools (paymentOf asset index).details := by
  constructor
  · intro text htext
    simp [paymentOf] at htext
  · intro ids hids
    simp [paymentOf] at hids

private theorem alike_paymentOf (hash asset : String) (index index' : UInt32) :
    Alike (hash, paymentOf asset index) (hash, paymentOf asset index') where
  transaction := rfl
  opType := rfl
  source := rfl
  account _ := Iff.rfl
  contract _ := Iff.rfl
  asset code issuer := by
    rw [namesAsset_iff, namesAsset_iff]
    rfl
  pools _ := Iff.rfl

private theorem not_alike_usdc (hash : String) :
    ¬ Alike (hash, paymentOf "native" 0) (hash, paymentOf "USDC:GI" 1) := by
  intro h
  have hnames : NamesAsset (paymentOf "USDC:GI" 1) "USDC" (some "GI") :=
    .credit rfl (by decide) (by decide) (by decide) rfl
  obtain ⟨⟨hcode, -⟩, hne⟩ := namesAsset_iff.mp ((h.asset _ _).mpr hnames)
  have hnative : (OpTyped.fromDetails .payment (paymentOf "native" 0).details).assetCode = none :=
    rfl
  rw [show (paymentOf "native" 0).opType = .payment from rfl, hnative] at hcode
  exact hne hcode.symm

/-- A payment made twice and one of another asset, and the first payment again in another
transaction: the two share a row, and the others have rows of their own. -/
theorem operationRows_cover_twicePaid :
    let _ : Crates := Crates.pinned
    let orders : Table String Int16 := collect [("a", 1), ("b", 2)]
    let operations := [("a", [paymentOf "native" 0, paymentOf "USDC:GI" 1, paymentOf "native" 2]),
      ("b", [paymentOf "native" 0])]
    ∃ out, operationRows operations orders .stored 7 = .ok out ∧
      Covers ["a", "b"] orders operations 7 out.txOperationRows ∧
      ∃ row ∈ out.txOperationRows,
        ("a", paymentOf "native" 0) ∈ represented orders operations row ∧
        ("a", paymentOf "native" 2) ∈ represented orders operations row ∧
        ("a", paymentOf "USDC:GI" 1) ∉ represented orders operations row ∧
        ("b", paymentOf "native" 0) ∉ represented orders operations row := by
  intro _ orders operations
  have horders : appOrderByHash ["a", "b"] = .ok orders := rfl
  have hledger : LedgerOperations operations := by
    refine ⟨by decide, by decide, by decide, ?_⟩
    intro tx htx op hop
    rcases List.mem_pair.mp htx with rfl | rfl
    · simp only [List.mem_cons, List.not_mem_nil, or_false] at hop
      rcases hop with rfl | rfl | rfl <;> exact namesPools_paymentOf _ _
    · obtain rfl := List.mem_singleton.mp hop
      exact namesPools_paymentOf _ _
  obtain ⟨out, hout, hcovers⟩ := operationRows_cover horders hledger .stored 7
  refine ⟨out, hout, hcovers, ?_⟩
  have hstaged : ∀ s : String × StagedOperation, s ∈ [("a", paymentOf "native" 0),
      ("a", paymentOf "USDC:GI" 1), ("a", paymentOf "native" 2), ("b", paymentOf "native" 0)] →
      s ∈ staged orders operations := fun _ hs => hs
  obtain ⟨row, ⟨hrow, hfirst⟩, -⟩ :=
    hcovers.once _ List.mem_cons_self (by decide) (paymentOf "native" 0) List.mem_cons_self
  -- the row of the first payment of transaction a
  have hshared := hcovers.shared row hrow _ hfirst
  refine ⟨row, hrow, hfirst, ?_, ?_, ?_⟩
  · exact (hshared _ (hstaged _ (by simp))).mpr (alike_paymentOf "a" "native" 0 2)
  · exact fun h => not_alike_usdc "a" ((hshared _ (hstaged _ (by simp))).mp h)
  · intro h
    have hhash : "a" = "b" := ((hshared _ (hstaged _ (by simp))).mp h).transaction
    exact absurd hhash (by decide)

end SorobanExplorer.Operations
