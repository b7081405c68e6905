import SorobanExplorer.Api.AssetList
import SorobanExplorer.Api.InvocationList
import SorobanExplorer.Api.KeysetWalk
import SorobanExplorer.Api.LedgerList

/-!
# The lists over unmerged tables

Each of the three lists cuts a window of stored rows and collapses the copies in it.  A
walk goes on only while the window shows one row more than a page, so it ends early where
the copies of a page fill the window: one row more than a page for the invocations,
three times that for the ledgers and eight times that for the assets.
-/

namespace SorobanExplorer

open Text Collapse

/-- What the walks of the three lists return, for any copies of the stored rows. -/
theorem unmergedLists_complete_iff {limit : ℕ} (hlimit : 1 ≤ limit) (codec : CursorCodec) :
    (∀ (db : InvocationList.Database) (contractSurrogateId : Int64),
      Copies InvocationList.ContractActivityRow.position
        (InvocationList.matching db contractSurrogateId) →
      (∀ row ∈ InvocationList.matching db contractSurrogateId,
        codec.ReadsBackPayload InvocationList.txListFormat row.position) →
      (InvocationList.ListComplete db contractSurrogateId codec limit ↔
        InvocationList.HasHeaders db contractSurrogateId ∧
          Room InvocationList.ContractActivityRow.position InvocationList.newest (limit + 1) limit
            (InvocationList.matching db contractSurrogateId))) ∧
    (∀ (db : LedgerList.Database) (dates : LedgerList.DateTimeText) (countsRead : Bool)
        (sort : SortOrder),
      Copies LedgerList.LedgersRow.sequence db.ledgers →
      (∀ row ∈ db.ledgers,
        codec.ReadsBackPayload (LedgerList.tsIdFormat dates) row.cursor ∧
          dates.fromText (dates.toText row.closedAt) = some row.closedAt) →
      (LedgerList.ListComplete db codec dates countsRead sort limit ↔
        Room LedgerList.LedgersRow.sequence (LedgerList.rank sort)
          ((limit + 1) * LedgerList.LEDGER_OVERFETCH) limit db.ledgers)) ∧
    (∀ (db : AssetList.Database) (params : AssetList.ResolvedListParams), db.Consistent →
      (∀ row ∈ AssetList.matching db params,
        codec.ReadsBackPayload AssetList.assetKeyFormat row.cursor) →
      (AssetList.ListComplete db params codec limit ↔
        Room (fun row : AssetList.AssetListKeyChRow => row.asset.tuple) AssetList.mostHeld
          ((limit + 1) * AssetList.SEEK_OVERFETCH) limit (AssetList.matching db params))) := by
  refine ⟨fun db contractSurrogateId hcopies hcodec => ?_,
    fun db dates countsRead sort hcopies hreads => ?_, fun db params hdb hcodec => ?_⟩
  · -- each list is settled by its own room condition
    exact InvocationList.complete_iff_headers_and_room hlimit hcopies hcodec
  · exact LedgerList.complete_iff_room hlimit hcopies (fun row hrow => (hreads row hrow).1)
      (fun row hrow => (hreads row hrow).2) countsRead sort
  · exact AssetList.complete_iff_room hlimit hdb hcodec

/-! ## Copies that fill a window -/

/-- The seconds these ledgers closed at. -/
def pinnedDates : LedgerList.DateTimeText where
  toText millis := if millis = 5000 then "1970-01-01T00:00:05Z" else "1970-01-01T00:00:06Z"
  fromText text :=
    if text = "1970-01-01T00:00:05Z" then some 5000
    else if text = "1970-01-01T00:00:06Z" then some 6000
    else none

/-- Both cursors of a payload with their text and base64. -/
def listedCursor {P : Type} (format : PayloadFormat P) (payload : P) (text base64Url : String) :
    List (Json × Bytes × String) :=
  [(Direction.next, "next", "uZXh0"), (.prev, "prev", "wcmV2")].map
    fun (direction, word, middle) =>
      (payloadEnvelope format payload direction,
        asBytes ("\x7b\"dir\":\"" ++ word ++ "\",\"p\":" ++ text ++ "\x7d"),
        "eyJkaXIiOiJ" ++ middle ++ "IiwicCI6" ++ base64Url)

/-- The cursors of some invocations, two ledgers and two assets. -/
def listedCursors : List (Json × Bytes × String) :=
  pinnedCursors ++
    listedCursor (LedgerList.tsIdFormat pinnedDates) ⟨5000, 5⟩
      "\x7b\"ts\":\"1970-01-01T00:00:05Z\",\"id\":5\x7d"
      "eyJ0cyI6IjE5NzAtMDEtMDFUMDA6MDA6MDVaIiwiaWQiOjV9fQ" ++
    listedCursor (LedgerList.tsIdFormat pinnedDates) ⟨6000, 6⟩
      "\x7b\"ts\":\"1970-01-01T00:00:06Z\",\"id\":6\x7d"
      "eyJ0cyI6IjE5NzAtMDEtMDFUMDA6MDA6MDZaIiwiaWQiOjZ9fQ" ++
    listedCursor AssetList.assetKeyFormat ⟨3, 7⟩ "\x7b\"holder_rank\":3,\"id\":7\x7d"
      "eyJob2xkZXJfcmFuayI6MywiaWQiOjd9fQ" ++
    listedCursor AssetList.assetKeyFormat ⟨2, 8⟩ "\x7b\"holder_rank\":2,\"id\":8\x7d"
      "eyJob2xkZXJfcmFuayI6MiwiaWQiOjh9fQ"

/-- The crates on these cursors. -/
def CursorCodec.listed : CursorCodec where
  toVec json := ((listedCursors.find? (·.1 = json)).map (·.2.1)).getD []
  fromSlice bytes := (listedCursors.find? (·.2.1 = bytes)).map (·.1)
  base64Encode bytes := ((listedCursors.find? (·.2.1 = bytes)).map (·.2.2)).getD ""
  base64Decode text := (listedCursors.find? (·.2.2 = text)).map (·.2.1)

/-- The invocation by the `order`-th transaction of ledger 5. -/
def invokedBy (order : Int16) : InvocationList.ContractActivityRow :=
  ⟨9, 5, order, some 1, none, 1⟩

/-- Invocations of a contract by two transactions, the newer stored `copies` times. -/
def invokedTwice (copies : ℕ) : InvocationList.Database where
  contractActivity := List.replicate copies (invokedBy 2) ++ [invokedBy 1]
  ledgers := [⟨5, 5000⟩]
  transactions := [⟨[2], 5, 2, 1, 100, none, true, 1, true⟩, ⟨[1], 5, 1, 1, 100, none, true, 1, true⟩]
  accounts := [⟨1, "GCALLER"⟩]
  sorobanContracts := [⟨9, "CPINNED"⟩]

theorem mem_invokedTwice {copies : ℕ} {row : InvocationList.ContractActivityRow}
    (h : row ∈ InvocationList.matching (invokedTwice copies) 9) :
    row = invokedBy 2 ∨ row = invokedBy 1 := by
  have hrow := List.mem_of_mem_filter h
  rw [invokedTwice, List.mem_append, List.mem_replicate, List.mem_singleton] at hrow
  exact hrow.imp_left And.right

theorem copies_invokedTwice (copies : ℕ) :
    Copies InvocationList.ContractActivityRow.position
      (InvocationList.matching (invokedTwice copies) 9) := by
  intro a ha b hb
  obtain rfl | rfl := mem_invokedTwice ha <;> obtain rfl | rfl := mem_invokedTwice hb <;> decide

theorem hasHeaders_invokedTwice (copies : ℕ) :
    InvocationList.HasHeaders (invokedTwice copies) 9 := by
  intro row hrow
  obtain rfl | rfl := mem_invokedTwice hrow
  · exact ⟨_, List.mem_cons_self, rfl, _, List.mem_cons_self, rfl⟩
  · exact ⟨_, List.mem_cons_of_mem _ List.mem_cons_self, rfl, _, List.mem_cons_self, rfl⟩

theorem readsBack_invokedTwice (copies : ℕ) :
    ∀ row ∈ InvocationList.matching (invokedTwice copies) 9,
      CursorCodec.listed.ReadsBackPayload InvocationList.txListFormat row.position := by
  intro row hrow direction
  obtain rfl | rfl := mem_invokedTwice hrow <;> cases direction <;> decide

/-- The ledger of a sequence, closed in the second of its number. -/
def ledgerRow (sequence : Int64) : LedgerList.LedgersRow :=
  ⟨sequence, [sequence.toInt.toNat.toUInt8], 1000 * sequence, 22, 0, 100⟩

/-- Two ledgers, the newer stored `copies` times. -/
def twoLedgers (copies : ℕ) : LedgerList.Database where
  ledgers := List.replicate copies (ledgerRow 6) ++ [ledgerRow 5]
  transactions := []

theorem mem_twoLedgers {copies : ℕ} {row : LedgerList.LedgersRow}
    (h : row ∈ (twoLedgers copies).ledgers) : row = ledgerRow 6 ∨ row = ledgerRow 5 := by
  rw [twoLedgers, List.mem_append, List.mem_replicate, List.mem_singleton] at h
  exact h.imp_left And.right

theorem copies_twoLedgers (copies : ℕ) :
    Copies LedgerList.LedgersRow.sequence (twoLedgers copies).ledgers := by
  intro a ha b hb
  obtain rfl | rfl := mem_twoLedgers ha <;> obtain rfl | rfl := mem_twoLedgers hb <;> decide

theorem readsBack_twoLedgers (copies : ℕ) :
    ∀ row ∈ (twoLedgers copies).ledgers,
      CursorCodec.listed.ReadsBackPayload (LedgerList.tsIdFormat pinnedDates) row.cursor ∧
        pinnedDates.fromText (pinnedDates.toText row.closedAt) = some row.closedAt := by
  intro row hrow
  refine ⟨fun direction => ?_, ?_⟩
  · obtain rfl | rfl := mem_twoLedgers hrow <;> cases direction <;> decide
  · obtain rfl | rfl := mem_twoLedgers hrow <;> decide

/-- Two assets, the more held one stored `copies` times. -/
def twoAssets (copies : ℕ) : AssetList.Database where
  assets := List.replicate copies ⟨1, "AAA", 1, 0, 7⟩ ++ [⟨1, "BBB", 1, 0, 8⟩]
  balanceAggregates := [⟨7, some 3⟩, ⟨8, some 2⟩]
  assetSac := []
  sorobanContracts := []
  sorobanContractMetadata := []

def everyAsset : AssetList.ResolvedListParams :=
  ⟨none, none, false⟩

theorem mem_twoAssets {copies : ℕ} {row : AssetList.AssetsRow}
    (h : row ∈ (twoAssets copies).assets) :
    row = ⟨1, "AAA", 1, 0, 7⟩ ∨ row = ⟨1, "BBB", 1, 0, 8⟩ := by
  rw [twoAssets, List.mem_append, List.mem_replicate, List.mem_singleton] at h
  exact h.imp_left And.right

theorem consistent_twoAssets (copies : ℕ) : (twoAssets copies).Consistent where
  assets a ha b hb := by
    obtain rfl | rfl := mem_twoAssets ha <;> obtain rfl | rfl := mem_twoAssets hb <;> decide
  ids a ha b hb := by
    obtain rfl | rfl := mem_twoAssets ha <;> obtain rfl | rfl := mem_twoAssets hb <;> decide
  aggregates := by
    show ∀ a ∈ ([⟨7, some 3⟩, ⟨8, some 2⟩] : List AssetList.BalanceAggregatesRow),
      ∀ b ∈ ([⟨7, some 3⟩, ⟨8, some 2⟩] : List AssetList.BalanceAggregatesRow), _
    decide

theorem readsBack_twoAssets (copies : ℕ) :
    ∀ row ∈ AssetList.matching (twoAssets copies) everyAsset,
      CursorCodec.listed.ReadsBackPayload AssetList.assetKeyFormat row.cursor := by
  intro row hrow direction
  obtain ⟨hasset, hrank⟩ := AssetList.of_mem_matching hrow
  obtain ⟨asset, rank⟩ := row
  obtain rfl | rfl := mem_twoAssets hasset
  · obtain rfl : rank = 3 := AssetList.eq_of_mem_holderRanks (consistent_twoAssets copies) hrank
      List.mem_cons_self
    cases direction <;> decide
  · obtain rfl : rank = 2 := AssetList.eq_of_mem_holderRanks (consistent_twoAssets copies) hrank
      List.mem_cons_self
    cases direction <;> decide

/-- Two copies of an invocation, six of a ledger or sixteen of an asset end a walk of pages
of one row. -/
theorem not_unmergedLists_complete :
    (¬ ∀ (db : InvocationList.Database) (contractSurrogateId : Int64) (codec : CursorCodec)
        (limit : ℕ), 1 ≤ limit →
      Copies InvocationList.ContractActivityRow.position
        (InvocationList.matching db contractSurrogateId) →
      InvocationList.HasHeaders db contractSurrogateId →
      (∀ row ∈ InvocationList.matching db contractSurrogateId,
        codec.ReadsBackPayload InvocationList.txListFormat row.position) →
      InvocationList.ListComplete db contractSurrogateId codec limit) ∧
    (¬ ∀ (db : LedgerList.Database) (codec : CursorCodec) (dates : LedgerList.DateTimeText)
        (countsRead : Bool) (sort : SortOrder) (limit : ℕ), 1 ≤ limit →
      Copies LedgerList.LedgersRow.sequence db.ledgers →
      (∀ row ∈ db.ledgers,
        codec.ReadsBackPayload (LedgerList.tsIdFormat dates) row.cursor ∧
          dates.fromText (dates.toText row.closedAt) = some row.closedAt) →
      LedgerList.ListComplete db codec dates countsRead sort limit) ∧
    (¬ ∀ (db : AssetList.Database) (params : AssetList.ResolvedListParams) (codec : CursorCodec)
        (limit : ℕ), 1 ≤ limit → db.Consistent →
      (∀ row ∈ AssetList.matching db params,
        codec.ReadsBackPayload AssetList.assetKeyFormat row.cursor) →
      AssetList.ListComplete db params codec limit) := by
  refine ⟨fun hclaim => ?_, fun hclaim => ?_, fun hclaim => ?_⟩
  · have hcomplete := hclaim (invokedTwice 2) 9 CursorCodec.listed 1 le_rfl
      (copies_invokedTwice 2) (hasHeaders_invokedTwice 2) (readsBack_invokedTwice 2)
    -- a page of one row has room for one copy more
    have hroom := ((InvocationList.complete_iff_headers_and_room le_rfl (copies_invokedTwice 2)
      (readsBack_invokedTwice 2)).mp hcomplete).2
    rw [room_iff_of_pairwise (by decide +kernel)] at hroom
    exact absurd (hroom 0 (by decide +kernel)) (by decide +kernel)
  · have hcomplete := hclaim (twoLedgers 6) CursorCodec.listed pinnedDates true .desc 1 le_rfl
      (copies_twoLedgers 6) (readsBack_twoLedgers 6)
    have hroom := (LedgerList.complete_iff_room le_rfl (copies_twoLedgers 6)
      (fun row hrow => (readsBack_twoLedgers 6 row hrow).1)
      (fun row hrow => (readsBack_twoLedgers 6 row hrow).2) true .desc).mp hcomplete
    rw [room_iff_of_pairwise (by decide)] at hroom
    exact absurd (hroom 0 (by decide)) (by decide)
  · have hcomplete := hclaim (twoAssets 16) everyAsset CursorCodec.listed 1 le_rfl
      (consistent_twoAssets 16) (readsBack_twoAssets 16)
    have hroom := (AssetList.complete_iff_room le_rfl (consistent_twoAssets 16)
      (readsBack_twoAssets 16)).mp hcomplete
    rw [room_iff_of_pairwise (by decide)] at hroom
    exact absurd (hroom 0 (by decide)) (by decide)

/-- One copy fewer each, and the walks are complete. -/
theorem unmergedLists_complete_room :
    InvocationList.ListComplete (invokedTwice 1) 9 CursorCodec.listed 1 ∧
      LedgerList.ListComplete (twoLedgers 5) CursorCodec.listed pinnedDates true .desc 1 ∧
      AssetList.ListComplete (twoAssets 15) everyAsset CursorCodec.listed 1 := by
  obtain ⟨hinvocations, hledgers, hassets⟩ :=
    unmergedLists_complete_iff le_rfl CursorCodec.listed
  refine ⟨?_, ?_, ?_⟩
  · refine (hinvocations (invokedTwice 1) 9 (copies_invokedTwice 1)
      (readsBack_invokedTwice 1)).mpr ⟨hasHeaders_invokedTwice 1, ?_⟩
    rw [room_iff_of_pairwise (by decide +kernel)]
    simp only [Nat.mul_one]
    decide +kernel
  · refine (hledgers (twoLedgers 5) pinnedDates true .desc (copies_twoLedgers 5)
      (readsBack_twoLedgers 5)).mpr ?_
    rw [room_iff_of_pairwise (by decide)]
    simp only [Nat.mul_one]
    decide
  · refine (hassets (twoAssets 15) everyAsset (consistent_twoAssets 15)
      (readsBack_twoAssets 15)).mpr ?_
    rw [room_iff_of_pairwise (by decide)]
    simp only [Nat.mul_one]
    decide

end SorobanExplorer
