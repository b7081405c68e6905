import SorobanExplorer.Snapshot.Balances

/-!
# What the seed writes to the balances

`holdingFor_load` reads the folded state key by key: a key holds what the first record
about it says.  `mem_corrections` then lists the rows the two passes write: the
corrections of our rows, each made from that reading, and a row for every live key
that none of our rows has.
-/

namespace SorobanExplorer

open KeyedFold

/-! ## The state of a key -/

theorem lookup_firstWins {κ α : Type} [DecidableEq κ] (table : Table κ α) (key : κ) (value : α)
    (superseded : ℕ) (k : κ) :
    (firstWins table key value superseded).1.lookup k =
      (table.lookup k).or (if key = k then some value else none) := by
  unfold firstWins
  by_cases hk : key = k
  · subst hk
    cases h : table.lookup key with
    | none => simp [AList.lookup_insert]
    | some old => simp [h]
  · rw [if_neg hk, Option.or_none]
    split
    · exact AList.lookup_insert_ne (Ne.symm hk)
    · rfl

/-- The balance a fact is about, under the key of our rows. -/
def NetFact.holding : NetFact → Option (HoldingKey × NetHolding)
  | .account holderId entry => some (⟨holderId, Ids.nativeAssetId⟩, entry)
  | .trustline key entry => some (key, entry)
  | _ => none

/-- The trustline of a fact is not keyed as the native asset. -/
def NetFact.CreditKeyed (fact : NetFact) : Prop :=
  ∀ key entry, fact = .trustline key entry → key.assetId ≠ Ids.nativeAssetId

/-- No trustline of a state is keyed as the native asset. -/
def NetworkState.CreditKeyed (state : NetworkState) : Prop :=
  ∀ key entry, state.trustlines.lookup key = some entry → key.assetId ≠ Ids.nativeAssetId

variable {state : NetworkState}

theorem holdingFor_absorb {fact : NetFact} (hcredit : fact.CreditKeyed) (key : HoldingKey) :
    holdingFor (state.absorb fact) key =
      (holdingFor state key).or (firstOf key fact.holding.toList) := by
  unfold holdingFor
  cases fact with
  | account holderId entry =>
      simp only [NetworkState.absorb, NetFact.holding, Option.toList_some, firstOf_cons, firstOf_nil]
      by_cases hnative : key.assetId = Ids.nativeAssetId
      · have hkey : (⟨holderId, Ids.nativeAssetId⟩ : HoldingKey) = key ↔ holderId = key.holderId := by
          obtain ⟨holder, asset⟩ := key
          simp_all
        simp only [if_pos hnative, lookup_firstWins, hkey]
      · have hkey : (⟨holderId, Ids.nativeAssetId⟩ : HoldingKey) ≠ key := fun h => hnative (h ▸ rfl)
        simp only [if_neg hnative, if_neg hkey, Option.or_none]
  | trustline own entry =>
      simp only [NetworkState.absorb, NetFact.holding, Option.toList_some, firstOf_cons, firstOf_nil]
      by_cases hnative : key.assetId = Ids.nativeAssetId
      · have hkey : own ≠ key := fun h => hcredit own entry rfl (h ▸ hnative)
        simp only [if_pos hnative, if_neg hkey, Option.or_none]
      · simp only [if_neg hnative, lookup_firstWins]
  | poolShare | claimableBalance | pool =>
      simp only [NetworkState.absorb, NetFact.holding, Option.toList_none, firstOf_nil,
        Option.or_none]

theorem creditKeyed_absorb {fact : NetFact} (hcredit : fact.CreditKeyed)
    (hstate : state.CreditKeyed) : (state.absorb fact).CreditKeyed := by
  cases fact with
  | trustline own entry =>
      intro key e hlookup
      have hlookup : (firstWins state.trustlines own entry state.superseded).1.lookup key = some e :=
        hlookup
      rw [lookup_firstWins, Option.or_eq_some_iff] at hlookup
      obtain hold | ⟨-, hnew⟩ := hlookup
      · exact hstate key e hold
      · obtain ⟨rfl, -⟩ := Option.ite_none_right_eq_some.mp hnew
        exact hcredit own entry rfl
  | account | poolShare | claimableBalance | pool => exact hstate

section

variable [Crates]

/-- The balance a record is about, under the key of our rows. -/
def SnapshotRecord.keyed (record : SnapshotRecord) : Option (HoldingKey × NetHolding) :=
  (classify record).bind NetFact.holding

/-- No trustline among the records is keyed as the native asset. -/
def CreditsKeyed (records : List SnapshotRecord) : Prop :=
  ∀ record ∈ records, ∀ fact, classify record = some fact → fact.CreditKeyed

theorem holdingFor_absorbRecord {record : SnapshotRecord}
    (hcredit : ∀ fact, classify record = some fact → fact.CreditKeyed) (key : HoldingKey) :
    holdingFor (state.absorbRecord record) key =
      (holdingFor state key).or (firstOf key record.keyed.toList) := by
  unfold NetworkState.absorbRecord SnapshotRecord.keyed
  cases hclass : classify record with
  | some fact => exact holdingFor_absorb (hcredit fact hclass) key
  | none =>
      simp only [Option.bind_none, Option.toList_none, firstOf_nil, Option.or_none]
      split <;> rfl

theorem creditKeyed_absorbRecord {record : SnapshotRecord}
    (hcredit : ∀ fact, classify record = some fact → fact.CreditKeyed)
    (hstate : state.CreditKeyed) : (state.absorbRecord record).CreditKeyed := by
  unfold NetworkState.absorbRecord
  cases hclass : classify record with
  | some fact => exact creditKeyed_absorb (hcredit fact hclass) hstate
  | none =>
      simp only
      split <;> exact hstate

variable {records : List SnapshotRecord}

theorem holdingFor_foldl (hcredit : CreditsKeyed records) (key : HoldingKey) :
    ∀ state : NetworkState, holdingFor (records.foldl NetworkState.absorbRecord state) key =
      (holdingFor state key).or (firstOf key (records.filterMap SnapshotRecord.keyed)) := by
  induction records with
  | nil => intro state; simp
  | cons record records ih =>
      intro state
      obtain ⟨hrecord, hrest⟩ := List.forall_mem_cons.mp hcredit
      have hstep : (firstOf key record.keyed.toList).or
          (firstOf key (records.filterMap SnapshotRecord.keyed)) =
          firstOf key ((record :: records).filterMap SnapshotRecord.keyed) := by
        rw [List.filterMap_cons]
        cases hkeyed : record.keyed with
        | none => rfl
        | some entry =>
            simp only [Option.toList_some, firstOf_cons, firstOf_nil]
            split <;> rfl
      calc holdingFor ((record :: records).foldl NetworkState.absorbRecord state) key
          = (holdingFor (state.absorbRecord record) key).or
              (firstOf key (records.filterMap SnapshotRecord.keyed)) := ih hrest _
        _ = (holdingFor state key).or
              (firstOf key ((record :: records).filterMap SnapshotRecord.keyed)) := by
            rw [holdingFor_absorbRecord hrecord, Option.or_assoc, hstep]

theorem holdingFor_load (hcredit : CreditsKeyed records) (key : HoldingKey) :
    holdingFor (loadNetworkState records) key =
      firstOf key (records.filterMap SnapshotRecord.keyed) := by
  have hempty : holdingFor .default key = none := by
    unfold holdingFor
    split <;> rfl
  rw [loadNetworkState, holdingFor_foldl hcredit, hempty, Option.none_or]

theorem creditKeyed_load (hcredit : CreditsKeyed records) :
    (loadNetworkState records).CreditKeyed := by
  have hrun : ∀ (records : List SnapshotRecord) (state : NetworkState), CreditsKeyed records →
      state.CreditKeyed → (records.foldl NetworkState.absorbRecord state).CreditKeyed := by
    intro records
    induction records with
    | nil => exact fun _ _ hstate => hstate
    | cons record records ih =>
        intro state hcredit hstate
        obtain ⟨hrecord, hrest⟩ := List.forall_mem_cons.mp hcredit
        exact ih _ hrest (creditKeyed_absorbRecord hrecord hstate)
  exact hrun records .default hcredit fun _ _ hlookup => by cases hlookup

/-- A record marks no entry as claimed. -/
theorem matched_keyed {record : SnapshotRecord} {entry : HoldingKey × NetHolding}
    (h : record.keyed = some entry) : entry.2.matched = false := by
  obtain ⟨fact, hclass, hfact⟩ := Option.bind_eq_some_iff.mp h
  have htrustline : ∀ accountId asset net, trustlineFact accountId asset net = some fact →
      entry.2 = net := by
    intro accountId asset net hline
    cases asset with
    | native => cases hline
    | creditAlphanum4 code issuer | creditAlphanum12 code issuer =>
        cases hline
        cases hfact
        rfl
    | poolShare pool =>
        cases hline
        cases hfact
  cases record with
  | live entry =>
      obtain ⟨ledger, data⟩ := entry
      cases data with
      | trustline trustline => exact congrArg NetHolding.matched (htrustline _ _ _ hclass)
      | _ => cases hclass <;> cases hfact <;> rfl
  | dead key =>
      cases key with
      | trustline accountId asset => exact congrArg NetHolding.matched (htrustline _ _ _ hclass)
      | _ => cases hclass <;> cases hfact <;> rfl

theorem matched_load (hcredit : CreditsKeyed records) {key : HoldingKey} {e : NetHolding}
    (h : holdingFor (loadNetworkState records) key = some e) : e.matched = false := by
  rw [holdingFor_load hcredit] at h
  obtain ⟨record, -, hkeyed⟩ := List.mem_filterMap.mp (mem_of_firstOf h)
  exact matched_keyed hkeyed

end

/-! ## Pass 1 -/

/-- The row that the comparison of one of our rows writes. -/
def correctedRow (state : NetworkState) (checkpoint : UInt32) (row : OurRow) : Option BalanceRow :=
  let net := holdingFor state row.holdingKey
  (correction (verdict row net checkpoint) net checkpoint).map (·.row row.holdingKey)

theorem holdingFor_claim (row : OurRow) (key : HoldingKey) :
    holdingFor (claim state row).1 key =
      if row.holdingKey = key then (holdingFor state key).map NetHolding.claimed
      else holdingFor state key := by
  have hkey : row.holdingKey = key ↔ row.holderId = key.holderId ∧ row.assetId = key.assetId := by
    obtain ⟨holder, asset⟩ := key
    simp [BalanceRow.holdingKey]
  unfold claim holdingFor
  by_cases hrow : row.assetId = Ids.nativeAssetId
  · by_cases hnative : key.assetId = Ids.nativeAssetId
    · have hkey : row.holdingKey = key ↔ key.holderId = row.holderId := by
        rw [hkey, hrow, hnative, eq_comm]
        simp
      simp only [if_pos hrow, if_pos hnative, lookup_modifyWhere, decide_eq_true_eq, hkey]
    · have hkey : row.holdingKey ≠ key := fun h => hnative ((hkey.mp h).2.symm.trans hrow)
      simp only [if_pos hrow, if_neg hnative, if_neg hkey]
  · by_cases hnative : key.assetId = Ids.nativeAssetId
    · have hkey : row.holdingKey ≠ key := fun h => hrow ((hkey.mp h).2.trans hnative)
      simp only [if_neg hrow, if_pos hnative, if_neg hkey]
    · have hsymm : key = row.holdingKey ↔ row.holdingKey = key := eq_comm
      simp only [if_neg hrow, if_neg hnative, lookup_modifyWhere, decide_eq_true_eq, hsymm]

theorem claim_snd (row : OurRow) :
    (claim state row).2 = (holdingFor state row.holdingKey).map NetHolding.claimed := by
  have hown := @holdingFor_claim state row row.holdingKey
  rwa [if_pos rfl] at hown

theorem creditKeyed_claim (row : OurRow) (hstate : state.CreditKeyed) :
    (claim state row).1.CreditKeyed := by
  intro key e hlookup
  unfold claim at hlookup
  split at hlookup
  · exact hstate key e hlookup
  · simp only [lookup_modifyWhere] at hlookup
    split at hlookup
    · obtain ⟨old, hold, -⟩ := Option.map_eq_some_iff.mp hlookup
      exact hstate key old hold
    · exact hstate key e hlookup

/-- The state after every row has claimed its entry. -/
def claimAll (state : NetworkState) (rows : List OurRow) : NetworkState :=
  rows.foldl (fun state row => (claim state row).1) state

theorem holdingFor_claimAll (rows : List OurRow) (key : HoldingKey) :
    ∀ state : NetworkState, holdingFor (claimAll state rows) key =
      if key ∈ rows.map BalanceRow.holdingKey then
        (holdingFor state key).map NetHolding.claimed
      else holdingFor state key := by
  induction rows with
  | nil => intro state; rfl
  | cons row rows ih =>
      intro state
      have htwice : ∀ net : Option NetHolding,
          (net.map NetHolding.claimed).map NetHolding.claimed = net.map NetHolding.claimed := by
        intro net
        cases net <;> rfl
      rw [claimAll, List.foldl_cons, ← claimAll, ih, holdingFor_claim]
      by_cases hrow : row.holdingKey = key
      · simp only [htwice, ite_self, List.map_cons, hrow, List.mem_cons, true_or, if_true]
      · simp only [if_neg hrow, List.map_cons, List.mem_cons, Ne.symm hrow, false_or]

theorem creditKeyed_claimAll (rows : List OurRow) :
    ∀ {state : NetworkState}, state.CreditKeyed → (claimAll state rows).CreditKeyed := by
  induction rows with
  | nil => exact fun hstate => hstate
  | cons row rows ih => exact fun hstate => ih (creditKeyed_claim row hstate)

theorem correctedRow_claim (row : OurRow) (checkpoint : UInt32) :
    correctedRow (claim state row).1 checkpoint = correctedRow state checkpoint := by
  funext other
  unfold correctedRow
  rw [holdingFor_claim]
  by_cases h : row.holdingKey = other.holdingKey
  · simp only [if_pos h, verdict_map_claimed, correction_map_claimed]
  · simp only [if_neg h]

/-- Pass 1 writes the corrections of our rows, each compared with the state it
started from. -/
theorem foldl_observeRow (checkpoint : UInt32) (rows : List OurRow) :
    ∀ (state : NetworkState) (out : BalanceCorrections),
      (rows.foldl (observeRow checkpoint) (state, out)).1 = claimAll state rows ∧
      (rows.foldl (observeRow checkpoint) (state, out)).2.rows =
        out.rows ++ rows.filterMap (correctedRow state checkpoint) := by
  induction rows with
  | nil => exact fun state out => ⟨rfl, (List.append_nil _).symm⟩
  | cons row rows ih =>
      intro state out
      have hstep : (observeRow checkpoint (state, out) row).2.rows =
          out.rows ++ (correctedRow state checkpoint row).toList := by
        show (foldOurRow row (verdict row (claim state row).2 checkpoint) (claim state row).2
          checkpoint out).rows = _
        rw [claim_snd, foldOurRow, verdict_map_claimed, correction_map_claimed, correctedRow]
        cases correction (verdict row (holdingFor state row.holdingKey) checkpoint)
          (holdingFor state row.holdingKey) checkpoint <;> simp only <;> split <;> simp
      rw [List.foldl_cons]
      obtain ⟨hstate, hrows⟩ := ih (claim state row).1 (observeRow checkpoint (state, out) row).2
      refine ⟨hstate, hrows.trans ?_⟩
      rw [hstep, correctedRow_claim, List.append_assoc, List.filterMap_cons]
      cases correctedRow state checkpoint row <;> rfl

theorem holdingKey_correctedRow {checkpoint : UInt32} {row : OurRow} {written : BalanceRow}
    (h : correctedRow state checkpoint row = some written) :
    written.holdingKey = row.holdingKey := by
  obtain ⟨c, -, rfl⟩ := Option.map_eq_some_iff.mp h
  rfl

theorem sublist_correctedRow (checkpoint : UInt32) (rows : List OurRow) :
    ((rows.filterMap (correctedRow state checkpoint)).map BalanceRow.holdingKey).Sublist
      (rows.map BalanceRow.holdingKey) := by
  induction rows with
  | nil => exact .slnil
  | cons row rows ih =>
      cases h : correctedRow state checkpoint row with
      | none =>
          rw [List.filterMap_cons_none h]
          exact ih.cons _
      | some written =>
          rw [List.filterMap_cons_some h, List.map_cons, List.map_cons, holdingKey_correctedRow h]
          exact ih.cons_cons _

/-! ## Pass 2 -/

/-- The entries of a table that are live and that nobody claimed, in a drain order. -/
def unclaimed {κ : Type} (order : DrainOrder (κ × NetHolding)) (table : Table κ NetHolding) :
    List (κ × NetHolding) :=
  (order.drain (pairs table)).filter fun (_, e) => e.live && !e.matched

section

variable {κ : Type} [DecidableEq κ] (order : DrainOrder (κ × NetHolding))
  (table : Table κ NetHolding)

theorem mem_unclaimed {key : κ} {e : NetHolding} :
    (key, e) ∈ unclaimed order table ↔ table.lookup key = some e ∧ e.live ∧ e.matched = false := by
  simp only [unclaimed, List.mem_filter, (order.perm _).mem_iff, mem_pairs, Bool.and_eq_true,
    Bool.not_eq_true']

omit [DecidableEq κ] in
theorem nodup_unclaimed : ((unclaimed order table).map Prod.fst).Nodup := by
  have hdrain : ((order.drain (pairs table)).map Prod.fst).Nodup :=
    ((order.perm (pairs table)).map Prod.fst).nodup_iff.mpr (nodup_map_fst_pairs table)
  exact hdrain.sublist (List.filter_sublist.map Prod.fst)

end

variable {trustlineOrder : DrainOrder (HoldingKey × NetHolding)}
  {accountOrder : DrainOrder (Int64 × NetHolding)} {checkpoint : UInt32} {rows : List OurRow}

/-- The rows the two passes write. -/
theorem rows_buildCorrections :
    (buildCorrections trustlineOrder accountOrder state checkpoint rows).1.rows =
      rows.filterMap (correctedRow state checkpoint) ++
        (unclaimed trustlineOrder (claimAll state rows).trustlines).map
          (fun entry => missingRow entry.1 entry.2) ++
        (unclaimed accountOrder (claimAll state rows).accounts).map
          fun entry => missingRow ⟨entry.1, Ids.nativeAssetId⟩ entry.2 := by
  obtain ⟨hstate, hrows⟩ := foldl_observeRow checkpoint rows state ⟨[], []⟩
  unfold buildCorrections
  simp only
  rw [hstate, hrows]
  rfl

/-- A live entry is inserted if none of our rows has its key. -/
theorem mem_inserted (hcredit : state.CreditKeyed)
    (hmatched : ∀ key e, holdingFor state key = some e → e.matched = false) {w : BalanceRow} :
    (w ∈ (unclaimed trustlineOrder (claimAll state rows).trustlines).map
        (fun entry => missingRow entry.1 entry.2) ∨
      w ∈ (unclaimed accountOrder (claimAll state rows).accounts).map
        fun entry => missingRow ⟨entry.1, Ids.nativeAssetId⟩ entry.2) ↔
      ∃ key e, holdingFor state key = some e ∧ e.live ∧ key ∉ rows.map BalanceRow.holdingKey ∧
        w = missingRow key e := by
  have hcredit := creditKeyed_claimAll rows hcredit
  -- of the marked state, an entry is unclaimed if no row has its key
  have hunclaimed : ∀ key e, holdingFor (claimAll state rows) key = some e ∧ e.live ∧
      e.matched = false ↔
      holdingFor state key = some e ∧ e.live ∧ key ∉ rows.map BalanceRow.holdingKey := by
    intro key e
    rw [holdingFor_claimAll]
    by_cases hkey : key ∈ rows.map BalanceRow.holdingKey
    · rw [if_pos hkey]
      constructor
      · rintro ⟨hclaimed, -, hfresh⟩
        obtain ⟨old, -, rfl⟩ := Option.map_eq_some_iff.mp hclaimed
        cases hfresh
      · exact fun h => absurd hkey h.2.2
    · rw [if_neg hkey]
      constructor
      · exact fun h => ⟨h.1, h.2.1, hkey⟩
      · exact fun h => ⟨h.1, h.2.1, hmatched key e h.1⟩
  constructor
  · rintro (hw | hw)
    · obtain ⟨⟨key, e⟩, hentry, rfl⟩ := List.mem_map.mp hw
      obtain ⟨hlookup, hlive⟩ := (mem_unclaimed _ _).mp hentry
      have hholding : holdingFor (claimAll state rows) key = some e := by
        rw [holdingFor, if_neg (hcredit key e hlookup), hlookup]
      obtain ⟨hnet, hlive, hkey⟩ := (hunclaimed key e).mp ⟨hholding, hlive⟩
      exact ⟨key, e, hnet, hlive, hkey, rfl⟩
    · obtain ⟨⟨holder, e⟩, hentry, rfl⟩ := List.mem_map.mp hw
      obtain ⟨hlookup, hlive⟩ := (mem_unclaimed _ _).mp hentry
      have hholding : holdingFor (claimAll state rows) ⟨holder, Ids.nativeAssetId⟩ = some e := by
        rw [holdingFor, if_pos rfl, hlookup]
      obtain ⟨hnet, hlive, hkey⟩ := (hunclaimed _ e).mp ⟨hholding, hlive⟩
      exact ⟨_, e, hnet, hlive, hkey, rfl⟩
  · rintro ⟨key, e, hnet, hlive, hkey, rfl⟩
    obtain ⟨hholding, hlive⟩ := (hunclaimed key e).mpr ⟨hnet, hlive, hkey⟩
    unfold holdingFor at hholding
    split at hholding
    · rename_i hnative
      refine .inr (List.mem_map.mpr ⟨(key.holderId, e), (mem_unclaimed _ _).mpr ⟨hholding, hlive⟩, ?_⟩)
      rw [← hnative]
    · exact .inl (List.mem_map.mpr ⟨(key, e), (mem_unclaimed _ _).mpr ⟨hholding, hlive⟩, rfl⟩)

/-- The rows the seed writes: the corrections of our rows, and a row for every live
entry that none of our rows has. -/
theorem mem_corrections (hcredit : state.CreditKeyed)
    (hmatched : ∀ key e, holdingFor state key = some e → e.matched = false) {w : BalanceRow} :
    w ∈ (buildCorrections trustlineOrder accountOrder state checkpoint rows).1.rows ↔
      (∃ row ∈ rows, correctedRow state checkpoint row = some w) ∨
        ∃ key e, holdingFor state key = some e ∧ e.live ∧ key ∉ rows.map BalanceRow.holdingKey ∧
          w = missingRow key e := by
  rw [rows_buildCorrections, List.mem_append, List.mem_append, or_assoc,
    mem_inserted hcredit hmatched, List.mem_filterMap]

/-- No key is written twice. -/
theorem nodup_corrections (hcredit : state.CreditKeyed)
    (hmatched : ∀ key e, holdingFor state key = some e → e.matched = false)
    (hrows : (rows.map BalanceRow.holdingKey).Nodup) :
    ((buildCorrections trustlineOrder accountOrder state checkpoint rows).1.rows.map
      BalanceRow.holdingKey).Nodup := by
  have hinserted := @mem_inserted state trustlineOrder accountOrder rows hcredit hmatched
  have hcredit := creditKeyed_claimAll rows hcredit
  rw [rows_buildCorrections, List.append_assoc, List.map_append, List.nodup_append', List.map_append,
    List.nodup_append']
  refine ⟨hrows.sublist (sublist_correctedRow checkpoint rows), ⟨?_, ?_, ?_⟩, ?_⟩
  · rw [List.map_map]
    exact nodup_unclaimed trustlineOrder (claimAll state rows).trustlines
  · have hnative : Function.Injective fun holder => (⟨holder, Ids.nativeAssetId⟩ : HoldingKey) :=
      fun holder holder' h => congrArg HoldingKey.holderId h
    have hmap := (nodup_unclaimed accountOrder (claimAll state rows).accounts).map hnative
    rw [List.map_map] at hmap ⊢
    exact hmap
  · -- a trustline is never keyed as the native asset
    intro key htrustline haccount
    rw [List.map_map] at htrustline haccount
    obtain ⟨⟨own, e⟩, hentry, rfl⟩ := List.mem_map.mp htrustline
    obtain ⟨entry, -, heq⟩ := List.mem_map.mp haccount
    exact hcredit own e ((mem_unclaimed _ _).mp hentry).1 (congrArg HoldingKey.assetId heq).symm
  · -- what is inserted has the key of no row of ours
    intro key hcorrected hmissing
    have hours := (sublist_correctedRow checkpoint rows).subset hcorrected
    rw [← List.map_append] at hmissing
    obtain ⟨w, hw, rfl⟩ := List.mem_map.mp hmissing
    obtain ⟨key, e, -, -, hkey, rfl⟩ := hinserted.mp (List.mem_append.mp hw)
    exact hkey hours

end SorobanExplorer
