import SorobanExplorer.Api.CursorWalk
import SorobanExplorer.Api.KeysetPage
import SorobanExplorer.Api.TransactionList

/-!
# The list of assets

The seek reads eight times the rows a page and one needs, most-held first, and
collapses the versions of an asset afterwards; the page is then hydrated by the
surrogate ids.  A search joins the contracts' metadata, once for each stored version.
-/

namespace SorobanExplorer.AssetList

open Ranked KeyedFold Text Collapse
open TransactionList (SorobanContractsRow)

/-! ## Tables -/

structure AssetsRow where
  assetType : Int16
  assetCode : String
  issuerId : Int64
  contractId : Int64
  id : Int64
  deriving DecidableEq

/-- The identity of an asset. -/
def AssetsRow.tuple (row : AssetsRow) : Int16 × String × Int64 × Int64 :=
  (row.assetType, row.assetCode, row.issuerId, row.contractId)

structure BalanceAggregatesRow where
  assetId : Int64
  holderCount : Option Int32
  deriving DecidableEq

structure AssetSacRow where
  assetType : Int16
  assetCode : String
  issuerId : Int64
  contractId : Int64
  sacDeployed : UInt8

def AssetSacRow.tuple (row : AssetSacRow) : Int16 × String × Int64 × Int64 :=
  (row.assetType, row.assetCode, row.issuerId, row.contractId)

structure SorobanContractMetadataRow where
  contractId : String
  name : Option String
  symbol : Option String
  version : Int64

/-- The tables the list reads; any may hold a row twice. -/
structure Database where
  assets : List AssetsRow
  balanceAggregates : List BalanceAggregatesRow
  assetSac : List AssetSacRow
  sorobanContracts : List SorobanContractsRow
  sorobanContractMetadata : List SorobanContractMetadataRow

/-! ## Cursors -/

/-- The rank the seek ordered a row by, and its id. -/
structure AssetKeyCursor where
  holderRank : Int32
  id : Int64
  deriving DecidableEq

namespace AssetKeyCursor

/-- The rank before the id. -/
def tuple (cursor : AssetKeyCursor) : ℤ ×ₗ ℤ :=
  toLex (cursor.holderRank.toInt, cursor.id.toInt)

theorem tuple_injective : Function.Injective tuple := by
  intro a b h
  obtain ⟨hrank, hid⟩ := Prod.mk.inj (toLex.injective h)
  cases a
  cases b
  rw [Int32.toInt_inj] at hrank
  rw [Int64.toInt_inj] at hid
  simp_all

instance : LinearOrder AssetKeyCursor :=
  LinearOrder.lift' tuple tuple_injective

end AssetKeyCursor

/-- A 32-bit integer; nothing out of range. -/
def jsonI32 : Json → Option Int32
  | .num n => if -2 ^ 31 ≤ n ∧ n < 2 ^ 31 then some (.ofInt n) else none
  | _ => none

theorem jsonI32_toInt (n : Int32) : jsonI32 (.num n.toInt) = some n := by
  have hrange : -2 ^ 31 ≤ n.toInt ∧ n.toInt < 2 ^ 31 := ⟨n.le_toInt, n.toInt_lt⟩
  rw [jsonI32, if_pos hrange, Int32.ofInt_toInt]

def assetKeyFormat : PayloadFormat AssetKeyCursor where
  toJson cursor :=
    .obj [("holder_rank", .num cursor.holderRank.toInt), ("id", .num cursor.id.toInt)]
  fromJson
    | .obj fields => do
        let holderRank ← jsonI32 (← fieldOnce fields "holder_rank")
        let id ← jsonI64 (← fieldOnce fields "id")
        some ⟨holderRank, id⟩
    | .arr [holderRank, id] => do
        some ⟨← jsonI32 holderRank, ← jsonI64 id⟩
    | _ => none

theorem assetKeyFormat_fromJson_toJson (cursor : AssetKeyCursor) :
    assetKeyFormat.fromJson (assetKeyFormat.toJson cursor) = some cursor := by
  simp [assetKeyFormat, fieldOnce, jsonI32_toInt, jsonI64_toInt]

/-! ## The seek -/

/-- The key columns of an asset, with the rank it is ordered by. -/
structure AssetListKeyChRow where
  asset : AssetsRow
  holderRank : Int32
  deriving DecidableEq

def AssetListKeyChRow.cursor (row : AssetListKeyChRow) : AssetKeyCursor :=
  ⟨row.holderRank, row.asset.id⟩

structure ResolvedListParams where
  assetType : Option Int16
  assetCode : Option String
  sacOnly : Bool

/-- `lower`: of the ASCII letters. -/
def lower (text : String) : List Char :=
  text.toList.map Char.toLower

/-- `position` of a text in another. -/
def occursIn (needle haystack : List Char) : Bool :=
  haystack.tails.any fun rest => needle.isPrefixOf rest

def SEEK_OVERFETCH : ℕ := 8

/-- The code an asset is shown under. -/
def shownCode (asset : AssetsRow) : List Char :=
  lower (if asset.assetType = 0 then "XLM" else asset.assetCode)

section

variable (db : Database) (params : ResolvedListParams)

/-- The newest metadata of a contract. -/
def metadataOf (contractId : String) : Option SorobanContractMetadataRow :=
  argmaxInt (·.version.toInt) (db.sorobanContractMetadata.filter (·.contractId = contractId))

/-- The name and symbol joined to an asset, once for each stored version of its
contract. -/
def searchJoin (asset : AssetsRow) : List (Option String × Option String) :=
  let versions := (db.sorobanContracts.filter (·.id = asset.contractId)).map (·.contractId)
  (if versions = [] then [""] else versions).map fun contractId =>
    ((metadataOf db contractId).bind (·.name), (metadataOf db contractId).bind (·.symbol))

/-- The rows a search joins and keeps; without one the asset alone. -/
def searched (asset : AssetsRow) : List (Option String × Option String) :=
  match params.assetCode with
  | none => [(none, none)]
  | some needle => (searchJoin db asset).filter fun (name, symbol) =>
      occursIn (lower needle) (shownCode asset) ∨
        occursIn (lower needle) (lower (name.getD "")) ∨
        occursIn (lower needle) (lower (symbol.getD ""))

/-- The ranks joined to an asset; without an aggregate it ranks below a measured zero. -/
def holderRanks (asset : AssetsRow) : List Int32 :=
  let aggregates := db.balanceAggregates.filter (·.assetId = asset.id)
  if aggregates = [] then [-1] else aggregates.map fun row => row.holderCount.getD (-1)

/-- The rows of the seek, with every version and every joined row. -/
def matching : List AssetListKeyChRow :=
  (db.assets.filter fun asset => params.assetType.all (asset.assetType = ·) ∧
    (params.sacOnly → db.assetSac.any fun row => row.tuple = asset.tuple ∧ row.sacDeployed ≠ 0)
    ).flatMap fun asset =>
      (searched db params asset).flatMap fun _ =>
        (holderRanks db asset).map fun holderRank => ⟨asset, holderRank⟩

def seek (limit : ℕ) (cursor : Option AssetKeyCursor) (direction : Direction) :
    List AssetListKeyChRow :=
  let (op, order) := keysetSql .desc direction
  (order.sorted AssetListKeyChRow.cursor ((matching db params).filter fun row =>
    cursor.all (op.admits row.cursor))).take (limit * SEEK_OVERFETCH)

/-! ## One page -/

def dedupConsecutive (raw : List AssetListKeyChRow) (limit : ℕ) : List AssetListKeyChRow :=
  Collapse.dedupConsecutive (·.asset.tuple) limit [] raw

/-- The stored assets of some keys, in their order; each id is handed out once. -/
def hydrateAssets (keys : List AssetsRow) : List AssetsRow :=
  let rows := firstBy AssetsRow.tuple
    (db.assets.filter fun row => row.tuple ∈ keys.map AssetsRow.tuple)
  let byId := rows.map fun row => (row.id, row)
  (firstBy AssetsRow.id keys).filterMap fun key => lastOf key.id byId

structure ListedAsset where
  row : AssetsRow
  holderRank : Int32

def ListedAsset.cursor (listed : ListedAsset) : AssetKeyCursor :=
  ⟨listed.holderRank, listed.row.id⟩

def fetchList (limit : ℕ) (cursor : Option AssetKeyCursor) (direction : Direction) :
    List ListedAsset :=
  let raw := seek db params limit cursor direction
  let ranks := raw.map fun row => (row.asset.id, row.holderRank)
  (hydrateAssets db ((dedupConsecutive raw limit).map (·.asset))).map fun row =>
    -- every hydrated id is one of the seek's
    ⟨row, (lastOf row.id ranks).getD 0⟩

/-- The page a request gets. -/
def listAssets (codec : CursorCodec) (limit : ℕ) :
    Option String → Except CursorError (Page ListedAsset) :=
  pagedList codec assetKeyFormat limit (fetchList db params) ListedAsset.cursor

/-! ## Complete walks -/

/-- The order of the list. -/
def mostHeld (row : AssetListKeyChRow) : AssetKeyCursorᵒᵈ :=
  OrderDual.toDual row.cursor

/-- The distinct matching assets, most-held first. -/
def matchingAssets : List AssetListKeyChRow :=
  distinct (·.asset.tuple) mostHeld (matching db params)

/-- The walk of the list returns every matching asset once, in order. -/
def ListComplete (codec : CursorCodec) (limit : ℕ) : Prop :=
  WalksThrough (listAssets db params codec limit) (·.row.id)
    ((matchingAssets db params).map (·.asset.id))

/-- What is stored twice is stored alike, and the surrogate ids tell the assets apart. -/
structure Database.Consistent : Prop where
  assets : Copies AssetsRow.tuple db.assets
  ids : Copies AssetsRow.id db.assets
  aggregates : Copies BalanceAggregatesRow.assetId db.balanceAggregates

end

variable {db : Database} {params : ResolvedListParams} {codec : CursorCodec} {limit : ℕ}

/-! ## The matching rows -/

theorem eq_of_mem_holderRanks (hdb : db.Consistent) {asset : AssetsRow} {rank other : Int32}
    (hrank : rank ∈ holderRanks db asset) (hother : other ∈ holderRanks db asset) :
    rank = other := by
  rw [holderRanks] at hrank hother
  split at hrank
  · rename_i hnone
    rw [if_pos hnone, List.mem_singleton] at hother
    rw [List.mem_singleton.mp hrank, hother]
  · rename_i hsome
    rw [if_neg hsome] at hother
    obtain ⟨a, ha, rfl⟩ := List.mem_map.mp hrank
    obtain ⟨b, hb, rfl⟩ := List.mem_map.mp hother
    obtain ⟨ha, hassetA⟩ := List.mem_filter.mp ha
    obtain ⟨hb, hassetB⟩ := List.mem_filter.mp hb
    rw [hdb.aggregates a ha b hb
      ((of_decide_eq_true hassetA).trans (of_decide_eq_true hassetB).symm)]

theorem of_mem_matching {row : AssetListKeyChRow} (h : row ∈ matching db params) :
    row.asset ∈ db.assets ∧ row.holderRank ∈ holderRanks db row.asset := by
  obtain ⟨asset, hasset, hrow⟩ := List.mem_flatMap.mp h
  obtain ⟨_, -, hrow⟩ := List.mem_flatMap.mp hrow
  obtain ⟨rank, hrank, rfl⟩ := List.mem_map.mp hrow
  exact ⟨List.mem_of_mem_filter hasset, hrank⟩

theorem eq_of_asset_eq (hdb : db.Consistent) {a b : AssetListKeyChRow}
    (ha : a ∈ matching db params) (hb : b ∈ matching db params) (h : a.asset = b.asset) :
    a = b := by
  have hranks := eq_of_mem_holderRanks hdb (of_mem_matching ha).2
    (h ▸ (of_mem_matching hb).2)
  cases a
  cases b
  simp_all

theorem eq_of_id_eq (hdb : db.Consistent) {a b : AssetListKeyChRow}
    (ha : a ∈ matching db params) (hb : b ∈ matching db params) (h : a.asset.id = b.asset.id) :
    a = b :=
  eq_of_asset_eq hdb ha hb (hdb.ids _ (of_mem_matching ha).1 _ (of_mem_matching hb).1 h)

theorem copied_matching (params : ResolvedListParams) (hdb : db.Consistent) :
    Copied (fun row : AssetListKeyChRow => row.asset.tuple) mostHeld (matching db params) where
  copy a ha b hb h :=
    eq_of_asset_eq hdb ha hb (hdb.assets _ (of_mem_matching ha).1 _ (of_mem_matching hb).1 h)
  ranked a ha b hb h := by
    have hcursor : a.cursor = b.cursor := OrderDual.toDual.injective h
    rw [eq_of_id_eq hdb ha hb (congrArg AssetKeyCursor.id hcursor)]

/-! ## The rows of a page -/

/-- Stored assets of different ids are hydrated one by one. -/
theorem hydrateAssets_eq (hdb : db.Consistent) {keys : List AssetsRow}
    (hkeys : ∀ key ∈ keys, key ∈ db.assets) (hnodup : (keys.map AssetsRow.id).Nodup) :
    hydrateAssets db keys = keys := by
  rw [hydrateAssets, firstBy_eq_self hnodup]
  refine (List.filterMap_congr (g := some) fun key hkey => ?_).trans List.filterMap_some
  have hrows : ∀ row, row ∈ firstBy AssetsRow.tuple
      (db.assets.filter fun row => row.tuple ∈ keys.map AssetsRow.tuple) ↔
      row ∈ db.assets ∧ row.tuple ∈ keys.map AssetsRow.tuple := by
    intro row
    rw [mem_firstBy_of_copies (hdb.assets.filter _), List.mem_filter, decide_eq_true_iff]
  apply lastOf_eq_of_mem
  · exact List.mem_map.mpr ⟨key, (hrows key).mpr ⟨hkeys key hkey, List.mem_map_of_mem hkey⟩, rfl⟩
  · intro other hother
    obtain ⟨row, hrow, heq⟩ := List.mem_map.mp hother
    obtain ⟨hid, rfl⟩ := Prod.mk.inj heq
    exact hdb.ids row ((hrows row).mp hrow).1 key (hkeys key hkey) hid

/-- The rows of a page are those its window collapses to. -/
theorem map_cursor_fetchList (hdb : db.Consistent) (cursor : Option AssetKeyCursor)
    (hlimit : 1 ≤ limit) :
    (fetchList db params limit cursor .next).map ListedAsset.cursor =
      ((collapse (fun row : AssetListKeyChRow => row.asset.tuple) mostHeld (limit * SEEK_OVERFETCH)
        ((matching db params).filter fun row => cursor.all fun cursor =>
          OrderDual.toDual cursor < mostHeld row)).take limit).map AssetListKeyChRow.cursor := by
  let raw := seek db params limit cursor .next
  have hraw : raw = (sortBy mostHeld ((matching db params).filter fun row =>
      cursor.all fun cursor => OrderDual.toDual cursor < mostHeld row)).take
        (limit * SEEK_OVERFETCH) := rfl
  have hmatching : ∀ row ∈ raw, row ∈ matching db params := by
    intro row hrow
    rw [hraw] at hrow
    exact List.mem_of_mem_filter (mem_sortBy.mp (List.mem_of_mem_take hrow))
  have hcopied := (copied_matching params hdb).of_mem hmatching
  let keys := (firstBy (fun row : AssetListKeyChRow => row.asset.tuple) raw).take limit
  -- the window is sorted, so its neighbours are its copies
  have hdedup : dedupConsecutive raw limit = keys :=
    dedupConsecutive_eq (hraw ▸ (pairwise_sortBy mostHeld _).sublist (List.take_sublist _ _))
      hcopied hlimit
  have hkeys : ∀ key ∈ keys, key ∈ raw := fun key hkey =>
    (firstBy_sublist _ raw).subset (List.mem_of_mem_take hkey)
  -- equal ids mean equal rows, and the keys are of distinct rows
  have hids : ((keys.map (·.asset)).map AssetsRow.id).Nodup := by
    have htuples : (keys.map fun row => row.asset.tuple).Nodup :=
      (nodup_map_firstBy _ raw).sublist ((List.take_sublist _ _).map _)
    rw [List.map_map]
    rw [List.Nodup, List.pairwise_map] at htuples ⊢
    refine List.Pairwise.imp_of_mem (fun {a b} ha hb hab heq => hab ?_) htuples
    rw [eq_of_id_eq hdb (hmatching a (hkeys a ha)) (hmatching b (hkeys b hb)) heq]
  have hstored : ∀ key ∈ keys.map (·.asset), key ∈ db.assets := by
    intro key hkey
    obtain ⟨row, hrow, rfl⟩ := List.mem_map.mp hkey
    exact (of_mem_matching (hmatching row (hkeys row hrow))).1
  calc (fetchList db params limit cursor .next).map ListedAsset.cursor
      = keys.map fun row => (⟨(lastOf row.asset.id
          (raw.map fun row => (row.asset.id, row.holderRank))).getD 0, row.asset.id⟩ :
            AssetKeyCursor) := by
        rw [fetchList]
        show ((hydrateAssets db ((dedupConsecutive raw limit).map (·.asset))).map _).map _ = _
        rw [hdedup, hydrateAssets_eq hdb hstored hids, List.map_map, List.map_map]
        rfl
    _ = keys.map AssetListKeyChRow.cursor := by
        apply List.map_congr_left
        intro row hrow
        -- every row of the window under this id is a copy of this one
        have hrank : lastOf row.asset.id (raw.map fun row => (row.asset.id, row.holderRank)) =
            some row.holderRank := by
          refine lastOf_eq_of_mem (List.mem_map.mpr ⟨row, hkeys row hrow, rfl⟩) ?_
          intro other hother
          obtain ⟨row', hrow', heq⟩ := List.mem_map.mp hother
          obtain ⟨hid, rfl⟩ := Prod.mk.inj heq
          rw [eq_of_id_eq hdb (hmatching row' hrow') (hmatching row (hkeys row hrow)) hid]
        rw [hrank]
        rfl

/-- A walk of the list is complete exactly if the copies of no page fill its window of
eight times a page and one row. -/
theorem complete_iff_room (hlimit : 1 ≤ limit) (hdb : db.Consistent)
    (hcodec : ∀ row ∈ matching db params, codec.ReadsBackPayload assetKeyFormat row.cursor) :
    ListComplete db params codec limit ↔
      Room (fun row : AssetListKeyChRow => row.asset.tuple) mostHeld
        ((limit + 1) * SEEK_OVERFETCH) limit (matching db params) := by
  refine walksThrough_pagedList_iff hlimit (copied_matching params hdb)
    (walks_pagedList hlimit (copied_matching params hdb) hcodec
      (fun row _ => assetKeyFormat_fromJson_toJson row.cursor) ?_ fun row _ => ?_)
    AssetKeyCursor.id
  · rw [map_cursor_fetchList hdb none (Nat.succ_pos limit)]
    simp only [Option.all_none, List.filter_true]
  · rw [map_cursor_fetchList hdb _ (Nat.succ_pos limit)]
    rfl

end SorobanExplorer.AssetList
