import SorobanExplorer.Api.NftTransfers

/-!
# The owner before a change

`fetchTransfers_eq` reads a page in one list, newest first, for both directions.
What is fetched is a stretch of the token's history without gaps, so the window
gives every change but the oldest fetched the owner before it; the oldest gets none.
A forward page drops the oldest as its extra row, a backward page drops the newest.
-/

namespace SorobanExplorer.NftTransfers

open Ranked TransactionList

variable {db : Database} {contractId tokenId : String}

/-! ## The stretch that is fetched -/

/-- The changes past the cursor, newest first, cut to the page and its extra row. -/
def stretch (db : Database) (contractId tokenId : String) (cursor : Option NftTransferCursor)
    (limit : ℕ) (direction : Direction) : List NftOwnershipChangesRow :=
  let past := (newestFirst NftOwnershipChangesRow.position
    (changesOf db contractId tokenId)).filter fun change => cursor.all fun cursor =>
      match direction with
      | .next => change.position < cursor
      | .prev => cursor < change.position
  match direction with
  | .next => past.take (limit + 1)
  | .prev => past.drop (past.length - (limit + 1))

theorem fetchedChanges_eq (db : Database) (contractId tokenId : String)
    (cursor : Option NftTransferCursor) (limit : ℕ)
    (direction : Direction) :
    fetchedChanges db contractId tokenId cursor limit direction =
      (stretch db contractId tokenId cursor limit direction).filter fun change =>
        (closedAt db change.ledgerSequence).isSome := rfl

/-- The distinct changes of a token, newest first. -/
def history (db : Database) (contractId tokenId : String) : List NftOwnershipChangesRow :=
  newestFirst NftOwnershipChangesRow.position (changesOf db contractId tokenId)

/-- What is older than the cursor is the end of the history. -/
theorem older_suffix_history (db : Database) (contractId tokenId : String)
    (cursor : Option NftTransferCursor) :
    ((history db contractId tokenId).filter fun change =>
      cursor.all fun cursor => change.position < cursor) <:+ history db contractId tokenId := by
  refine (increasing_newestFirst _ _).filter_suffix fun a b hab ha => ?_
  cases cursor with
  | none => rfl
  | some cursor =>
      simp only [Option.all_some, decide_eq_true_eq] at ha ⊢
      exact (OrderDual.toDual_lt_toDual.mp hab).trans ha

theorem stretch_contiguous (db : Database) (contractId tokenId : String)
    (cursor : Option NftTransferCursor) (limit : ℕ) (direction : Direction) :
    stretch db contractId tokenId cursor limit direction <:+: history db contractId tokenId := by
  cases direction with
  | next => exact (List.take_prefix _ _).isInfix.trans (older_suffix_history db contractId tokenId cursor).isInfix
  | prev =>
      refine (List.drop_suffix _ _).isInfix.trans (List.IsPrefix.isInfix
        ((increasing_newestFirst _ _).filter_beginning fun a b hab hb => ?_))
      cases cursor with
      | none => rfl
      | some cursor =>
          simp only [Option.all_some, decide_eq_true_eq] at hb ⊢
          exact hb.trans (OrderDual.toDual_lt_toDual.mp hab)

section

variable (hcopies : Copies NftOwnershipChangesRow.position (changesOf db contractId tokenId))

include hcopies

theorem newestFirst_listedChanges :
    newestFirst NftOwnershipChangesRow.position (listedChanges db contractId tokenId) =
      (history db contractId tokenId).filter fun change =>
        (closedAt db change.ledgerSequence).isSome := by
  have hlisted : Copies NftOwnershipChangesRow.position (listedChanges db contractId tokenId) :=
    hcopies.filter _
  refine (increasing_newestFirst _ _).eq_of_mem_iff
    ((increasing_newestFirst _ _).sublist List.filter_sublist) ?_
  intro change
  rw [mem_newestFirst hlisted, listedChanges, history, List.mem_filter,
    List.mem_filter, mem_newestFirst hcopies]

/-- The page, in the order of the fetch. -/
theorem take_rowsPast (cursor : Option NftTransferCursor) (limit : ℕ) (direction : Direction) :
    (rowsPast NftOwnershipChangesRow.position .desc direction (changesOf db contractId tokenId)
        cursor).take (limit + 1) =
      match direction with
      | .next => stretch db contractId tokenId cursor limit .next
      | .prev => (stretch db contractId tokenId cursor limit .prev).reverse := by
  cases direction with
  | next => rw [rowsPast_next hcopies]; rfl
  | prev => rw [rowsPast_prev hcopies, List.take_reverse]; rfl

end

/-! ## The items of a page -/

/-- The rows of a page with their ledgers' times, newest first. -/
def listedRows (db : Database) (contractId tokenId : String) (cursor : Option NftTransferCursor)
    (limit : ℕ) (direction : Direction) : List (NftOwnershipChangesRow × Int64) :=
  (stretch db contractId tokenId cursor limit direction).filterMap (joinLedger db)

theorem map_fst_listedRows (db : Database) (contractId tokenId : String)
    (cursor : Option NftTransferCursor) (limit : ℕ)
    (direction : Direction) :
    (listedRows db contractId tokenId cursor limit direction).map Prod.fst =
      fetchedChanges db contractId tokenId cursor limit direction := by
  rw [listedRows, fetchedChanges_eq, List.map_filterMap, ← List.filterMap_eq_filter]
  apply List.filterMap_congr
  intro change _
  rw [joinLedger]
  cases hclosed : closedAt db change.ledgerSequence <;> simp [Option.guard, hclosed]

/-- The items of a page, newest first. -/
def newestItems (db : Database) (contractId tokenId : String) (cursor : Option NftTransferCursor)
    (limit : ℕ) (direction : Direction) : List NftTransferItem :=
  (withNext (listedRows db contractId tokenId cursor limit direction)).map
    fun (row, following) => mapTransferRow db row following

theorem increasing_listedRows (db : Database) (contractId tokenId : String)
    (cursor : Option NftTransferCursor) (limit : ℕ)
    (direction : Direction) :
    Increasing (fun row : NftOwnershipChangesRow × Int64 => OrderDual.toDual row.1.position)
      (listedRows db contractId tokenId cursor limit direction) := by
  have hstretch : Increasing (fun row : NftOwnershipChangesRow => OrderDual.toDual row.position)
      ((listedRows db contractId tokenId cursor limit direction).map Prod.fst) := by
    rw [map_fst_listedRows, fetchedChanges_eq]
    exact (increasing_newestFirst _ _).sublist
      (List.filter_sublist.trans (stretch_contiguous db contractId tokenId cursor limit direction).sublist)
  exact (increasing_map (f := Prod.fst)).mp hstretch

theorem increasing_newestItems (db : Database) (contractId tokenId : String)
    (cursor : Option NftTransferCursor) (limit : ℕ)
    (direction : Direction) :
    Increasing (fun item : NftTransferItem => OrderDual.toDual item.position)
      (newestItems db contractId tokenId cursor limit direction) := by
  have hrows := increasing_listedRows db contractId tokenId cursor limit direction
  rw [← map_fst_withNext (listedRows db contractId tokenId cursor limit direction)] at hrows
  rw [newestItems, increasing_map]
  exact (increasing_map (f := Prod.fst)).mp hrows

/-- The statement's rows, newest first or reversed. -/
theorem fetchTransfers_eq
    (hcopies : Copies NftOwnershipChangesRow.position (changesOf db contractId tokenId))
    (cursor : Option NftTransferCursor) (limit : ℕ) (direction : Direction) :
    fetchTransfers db contractId tokenId cursor (limit + 1) direction =
      match direction with
      | .next => newestItems db contractId tokenId cursor limit .next
      | .prev => (newestItems db contractId tokenId cursor limit .prev).reverse := by
  have hitems := increasing_newestItems db contractId tokenId cursor limit direction
  have hwindow : FetchOrder.desc.sorted (·.1.position)
      (((rowsPast NftOwnershipChangesRow.position .desc direction
        (changesOf db contractId tokenId) cursor).take (limit + 1)).filterMap (joinLedger db)) =
      listedRows db contractId tokenId cursor limit direction := by
    rw [take_rowsPast hcopies]
    apply (increasing_listedRows db contractId tokenId cursor limit direction).sortBy_eq
    cases direction with
    | next => exact .refl _
    | prev => rw [List.filterMap_reverse]; exact List.reverse_perm _
  rw [fetchTransfers, hwindow]
  cases direction with
  | next => exact hitems.sortBy_eq (.refl _)
  | prev =>
      have hreverse : Increasing NftTransferItem.position
          (newestItems db contractId tokenId cursor limit .prev).reverse := by
        rw [Increasing, List.pairwise_reverse]
        exact hitems.imp OrderDual.toDual_lt_toDual.mp
      exact hreverse.sortBy_eq (List.reverse_perm _).symm

/-! ## The window -/

section

variable (hcopies : Copies NftOwnershipChangesRow.position (changesOf db contractId tokenId))

include hcopies

/-- What follows a fetched change is the change before it. -/
theorem ownerAddress_following {cursor : Option NftTransferCursor} {limit : ℕ}
    {direction : Direction} {xs ys : List (NftOwnershipChangesRow × Int64)}
    {row following : NftOwnershipChangesRow × Int64}
    (hsplit : listedRows db contractId tokenId cursor limit direction =
      xs ++ row :: following :: ys) :
    ownerAddress db following.1.ownerId = previousOwner db contractId tokenId row.1.position := by
  have hlisted : Copies NftOwnershipChangesRow.position (listedChanges db contractId tokenId) :=
    hcopies.filter _
  have hfetched := map_fst_listedRows db contractId tokenId cursor limit direction
  rw [hsplit, List.map_append, List.map_cons, List.map_cons] at hfetched
  obtain ⟨pre, post, hinfix⟩ := (stretch_contiguous db contractId tokenId cursor limit direction).filter fun change =>
      (closedAt db change.ledgerSequence).isSome
  have hwhole : newestFirst NftOwnershipChangesRow.position
      (listedChanges db contractId tokenId) =
      (pre ++ xs.map Prod.fst) ++ row.1 :: (following.1 :: ys.map Prod.fst ++ post) := by
    rw [newestFirst_listedChanges hcopies, ← hinfix, ← fetchedChanges_eq, ← hfetched]
    simp
  rw [previousOwner, previousOf_eq_head? hlisted hwhole]
  rfl

/-- Every item but the oldest shows the owner before it, and the oldest shows none. -/
theorem newestItems_append_oldest {cursor : Option NftTransferCursor} {limit : ℕ}
    {direction : Direction} {rows : List (NftOwnershipChangesRow × Int64)}
    {oldest : NftOwnershipChangesRow × Int64}
    (hrows : listedRows db contractId tokenId cursor limit direction = rows ++ [oldest]) :
    ∃ earlier, newestItems db contractId tokenId cursor limit direction =
        earlier ++ [mapTransferRow db oldest none] ∧
      ∀ item ∈ earlier, item.fromAccount = previousOwner db contractId tokenId item.position := by
  obtain ⟨earlier, hwith, hearlier⟩ := withNext_append_singleton rows oldest
  refine ⟨earlier.map fun (row, following) => mapTransferRow db row following, ?_, ?_⟩
  · rw [newestItems, hrows, hwith, List.map_append]
    rfl
  · intro item hitem
    obtain ⟨⟨row, following⟩, hpair, rfl⟩ := List.mem_map.mp hitem
    obtain ⟨xs, next, ys, hsplit, rfl⟩ := hearlier _ hpair
    exact ownerAddress_following hcopies (hrows.trans hsplit)

/-- The items a page shows: the extra row is the oldest forward and the newest backward. -/
def shownItems (db : Database) (contractId tokenId : String) (cursor : Option NftTransferCursor)
    (limit : ℕ) (direction : Direction) : List NftTransferItem :=
  let items := newestItems db contractId tokenId cursor limit direction
  match direction with
  | .next => items.take limit
  | .prev => items.drop (items.length - limit)

theorem rows_listNftTransfers (cursor : Option NftTransferCursor) (limit : ℕ)
    (direction : Direction) (cursorOf : Direction → NftTransferItem → String) :
    (finalizePage (fetchTransfers db contractId tokenId cursor (limit + 1) direction) limit
      direction cursor.isSome cursorOf).rows =
      shownItems db contractId tokenId cursor limit direction := by
  rw [fetchTransfers_eq hcopies]
  cases direction with
  | next => rw [finalizePage_next]; rfl
  | prev => rw [finalizePage_prev, List.take_reverse, List.reverse_reverse]; rfl

theorem showsPreviousOwners_iff_shownItems (cursor : Option NftTransferCursor) (limit : ℕ)
    (direction : Direction) (cursorOf : Direction → NftTransferItem → String) :
    ShowsPreviousOwners db contractId tokenId cursor limit direction cursorOf ↔
      (nftExists db contractId tokenId = true →
        ∀ item ∈ shownItems db contractId tokenId cursor limit direction,
          item.fromAccount = previousOwner db contractId tokenId item.position) := by
  rw [ShowsPreviousOwners, listNftTransfers]
  by_cases hexists : nftExists db contractId tokenId = true
  · simp only [hexists, if_true, Option.mem_some_iff, forall_eq', forall_const,
      rows_listNftTransfers hcopies]
  · simp [hexists]

/-- The oldest item is shown unless it is the extra row of a forward page. -/
theorem forall_shownItems_iff {cursor : Option NftTransferCursor} {limit : ℕ}
    {direction : Direction} (hlimit : 1 ≤ limit) :
    (∀ item ∈ shownItems db contractId tokenId cursor limit direction,
      item.fromAccount = previousOwner db contractId tokenId item.position) ↔
      OldestSeen db contractId tokenId cursor limit direction := by
  have hfetched := map_fst_listedRows db contractId tokenId cursor limit direction
  rw [OldestSeen, ← hfetched, List.length_map, List.getLast?_map]
  rcases List.eq_nil_or_concat' (listedRows db contractId tokenId cursor limit direction) with
    hnil | ⟨rows, oldest, hrows⟩
  · have hnone : newestItems db contractId tokenId cursor limit direction = [] := by
      rw [newestItems, hnil]
      rfl
    have hshown : shownItems db contractId tokenId cursor limit direction = [] := by
      cases direction <;> simp [shownItems, hnone]
    simp [hshown, hnil]
  · obtain ⟨earlier, hitems, hearlier⟩ := newestItems_append_oldest hcopies hrows
    have hlength : (rows ++ [oldest]).length = (earlier ++ [mapTransferRow db oldest none]).length := by
      rw [← hitems, newestItems, List.length_map, ← hrows, length_withNext]
    have hlast : (mapTransferRow db oldest none).fromAccount =
        previousOwner db contractId tokenId (mapTransferRow db oldest none).position ↔
        previousOwner db contractId tokenId oldest.1.position = none := eq_comm
    rw [hrows, List.getLast?_append, hlength]
    simp only [List.getLast?_singleton, Option.some_or, Option.map_some, Option.mem_some_iff,
      forall_eq']
    cases direction with
    | next =>
        rw [shownItems, hitems]
        by_cases hlong : limit < (earlier ++ [mapTransferRow db oldest none]).length
        · -- the oldest is cut off
          have hcut : (earlier ++ [mapTransferRow db oldest none]).take limit = earlier.take limit :=
            List.take_append_of_le_length (by simp at hlong; omega)
          simp only [hcut, true_and, hlong, true_or, iff_true]
          exact fun item hitem => hearlier item (List.mem_of_mem_take hitem)
        · simp only [List.take_of_length_le (not_lt.mp hlong), hlong, and_false, false_or, ← hlast]
          constructor
          · exact fun h => h _ (by simp)
          · intro h item hitem
            rcases List.mem_append.mp hitem with hitem | hitem
            · exact hearlier item hitem
            · rw [List.mem_singleton.mp hitem]
              exact h
    | prev =>
        simp only [reduceCtorEq, false_and, false_or, ← hlast]
        rw [shownItems, hitems]
        have hkept : (earlier ++ [mapTransferRow db oldest none]).drop
            ((earlier ++ [mapTransferRow db oldest none]).length - limit) =
            earlier.drop ((earlier ++ [mapTransferRow db oldest none]).length - limit) ++
              [mapTransferRow db oldest none] :=
          List.drop_append_of_le_length (by simp; omega)
        rw [hkept]
        constructor
        · exact fun h => h _ (by simp)
        · intro h item hitem
          rcases List.mem_append.mp hitem with hitem | hitem
          · exact hearlier item (List.mem_of_mem_drop hitem)
          · rw [List.mem_singleton.mp hitem]
            exact h

end

/-- A page shows the owner before each of its changes exactly if the oldest change
fetched is an extra row or nobody was there before it. -/
theorem showsPreviousOwners_iff
    (hcopies : Copies NftOwnershipChangesRow.position (changesOf db contractId tokenId))
    (cursor : Option NftTransferCursor) {limit : ℕ} (hlimit : 1 ≤ limit) (direction : Direction)
    (cursorOf : Direction → NftTransferItem → String) :
    ShowsPreviousOwners db contractId tokenId cursor limit direction cursorOf ↔
      (nftExists db contractId tokenId = true →
        OldestSeen db contractId tokenId cursor limit direction) := by
  rw [showsPreviousOwners_iff_shownItems hcopies]
  exact imp_congr_right fun _ => forall_shownItems_iff hcopies hlimit

/-- Forward over written ledgers every page shows them. -/
theorem oldestSeen_next
    (hcopies : Copies NftOwnershipChangesRow.position (changesOf db contractId tokenId))
    (hwritten : ∀ change ∈ changesOf db contractId tokenId,
      (closedAt db change.ledgerSequence).isSome)
    (cursor : Option NftTransferCursor) (limit : ℕ) :
    OldestSeen db contractId tokenId cursor limit .next := by
  let past := (history db contractId tokenId).filter fun change =>
    cursor.all fun cursor => change.position < cursor
  have hpast : ∀ change ∈ past, change ∈ changesOf db contractId tokenId := fun change hchange =>
    (mem_newestFirst hcopies).mp (List.mem_of_mem_filter hchange)
  have hfetched : fetchedChanges db contractId tokenId cursor limit .next =
      past.take (limit + 1) :=
    List.filter_eq_self.mpr fun change hchange => hwritten change
      (hpast change (List.mem_of_mem_take hchange))
  rw [OldestSeen, hfetched, List.length_take]
  by_cases hlong : limit < past.length
  · exact .inl ⟨rfl, by omega⟩
  · -- everything before the cursor is fetched
    right
    rw [List.take_of_length_le (by omega)]
    intro oldest holdest
    obtain ⟨earlier, hsplit⟩ := List.getLast?_eq_some_iff.mp holdest
    have hlisted : Copies NftOwnershipChangesRow.position (listedChanges db contractId tokenId) :=
      hcopies.filter _
    obtain ⟨newer, hwhole⟩ := older_suffix_history db contractId tokenId cursor
    have hall : ((history db contractId tokenId).filter fun change =>
        (closedAt db change.ledgerSequence).isSome) = history db contractId tokenId :=
      List.filter_eq_self.mpr fun change hchange =>
        hwritten change ((mem_newestFirst hcopies).mp hchange)
    have hhistory : newestFirst NftOwnershipChangesRow.position
        (listedChanges db contractId tokenId) = (newer ++ earlier) ++ oldest :: [] := by
      calc newestFirst NftOwnershipChangesRow.position (listedChanges db contractId tokenId)
          = history db contractId tokenId := (newestFirst_listedChanges hcopies).trans hall
        _ = newer ++ past := hwhole.symm
        _ = (newer ++ earlier) ++ oldest :: [] := by rw [hsplit, List.append_assoc]
    rw [previousOwner, previousOf_eq_head? hlisted hhistory]
    rfl

/-! ## A token with three owners -/

/-- Minted in ledger 10, sent on in 11 and in 12. -/
def pinnedToken : Database where
  nfts := [⟨9, "7"⟩]
  nftOwnershipChanges :=
    [⟨9, "7", 12, 1, 0, 0, some 3, 1⟩, ⟨9, "7", 11, 1, 0, 0, some 2, 1⟩,
      ⟨9, "7", 10, 1, 0, 0, some 1, 0⟩]
  sorobanContracts := [⟨9, "CPINNED"⟩]
  accounts := [⟨1, "GFIRST"⟩, ⟨2, "GSECOND"⟩, ⟨3, "GTHIRD"⟩]
  transactions := []
  ledgers := [⟨10, 1700000000000⟩, ⟨11, 1700000006000⟩, ⟨12, 1700000012000⟩]

theorem copies_pinnedToken :
    Copies NftOwnershipChangesRow.position (changesOf pinnedToken "CPINNED" "7") := by
  unfold Copies
  decide

/-- The page before the mint, of one change: the sending to the second owner shows no
sender. -/
theorem not_showsPreviousOwners_backward :
    ¬ ∀ (db : Database) (contractId tokenId : String),
      Copies NftOwnershipChangesRow.position (changesOf db contractId tokenId) →
      ∀ (cursor : Option NftTransferCursor) (limit : ℕ), 1 ≤ limit →
      ∀ (direction : Direction) (cursorOf : Direction → NftTransferItem → String),
        ShowsPreviousOwners db contractId tokenId cursor limit direction cursorOf := by
  intro hclaim
  have hshows := hclaim pinnedToken "CPINNED" "7" copies_pinnedToken (some ⟨10, 1, 0, 0⟩) 1 le_rfl
    .prev fun _ _ => ""
  rw [showsPreviousOwners_iff_shownItems copies_pinnedToken,
    forall_shownItems_iff copies_pinnedToken le_rfl, OldestSeen, fetchedChanges] at hshows
  have hsorted : newestFirst NftOwnershipChangesRow.position
      (changesOf pinnedToken "CPINNED" "7") = pinnedToken.nftOwnershipChanges := by
    have hincreasing : Increasing (fun row : NftOwnershipChangesRow =>
        OrderDual.toDual row.position) (changesOf pinnedToken "CPINNED" "7") := by
      unfold Increasing
      decide
    rw [newestFirst, hincreasing.sortBy_eq (.refl _)]
    decide
  rw [hsorted] at hshows
  revert hshows
  decide

/-- The first page, of one change. -/
theorem showsPreviousOwners_forward :
    ShowsPreviousOwners pinnedToken "CPINNED" "7" none 1 .next fun _ _ => "" :=
  (showsPreviousOwners_iff copies_pinnedToken none le_rfl .next _).mpr fun _ =>
    oldestSeen_next copies_pinnedToken (by decide) none 1

end SorobanExplorer.NftTransfers
