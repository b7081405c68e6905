import SorobanExplorer.Lib.Versioned
import SorobanExplorer.Snapshot.BalancesSpec

/-!
# The seed converges

Our `balances` keep every version of a row and a read takes the newest.  The seed's
rows are written over them: `seed_converges` says that what is then read states the
network, up to the rows that are newer than the snapshot or kept on purpose, and that
a second run finds nothing to write.

The network speaks of holdings, our tables of surrogate keys.  `SurrogatesInjective`
is what the tables assume of the hash: no two holdings of the snapshot share a key.
-/

namespace SorobanExplorer

open KeyedFold Versioned

/-! ## The network's value -/

/-- What a record says of a holding. -/
def SnapshotRecord.closing : SnapshotRecord → Option (Holding AccountId × Closing)
  | .live entry => entry.data.holding.map fun (holding, balance) => (holding, .live balance)
  | .dead key => key.holding.map fun holding => (holding, .removed)

def Closing.held : Closing → Option Int64
  | .live balance => some balance
  | .removed => none

/-- The balance that the newest record of a holding states, if that one is live. -/
def networkValue (records : List SnapshotRecord) (holding : Holding AccountId) : Option Int64 :=
  (firstOf holding (records.filterMap SnapshotRecord.closing)).bind Closing.held

def Recorded (records : List SnapshotRecord) (holding : Holding AccountId) : Prop :=
  ∃ record ∈ records, ∃ said, record.closing = some (holding, said)

def NetHolding.closing (e : NetHolding) : Closing :=
  if e.live then .live e.balance else .removed

theorem held_closing (net : Option NetHolding) :
    (net.map NetHolding.closing).bind Closing.held = liveBalance net := by
  cases net with
  | none => rfl
  | some e =>
      obtain ⟨live, ledger, balance, matched⟩ := e
      cases live <;> rfl

variable [Crates]

def HeldAsset.surrogate : HeldAsset AccountId → Int64
  | .native => Ids.nativeAssetId
  | .credit code issuer => Ids.creditAssetId code (Crates.accountStrkey issuer)

/-- The key of a holding in our tables. -/
def Holding.key (holding : Holding AccountId) : HoldingKey :=
  ⟨Ids.addressId (Crates.accountStrkey holding.account), holding.asset.surrogate⟩

/-- The surrogates tell the holdings of a snapshot apart, and its credits from the
native asset. -/
structure SurrogatesInjective (records : List SnapshotRecord) : Prop where
  distinct : ∀ holding other, Recorded records holding → Recorded records other →
    holding.key = other.key → holding = other
  notNative : ∀ account code issuer, Recorded records ⟨account, .credit code issuer⟩ →
    (HeldAsset.credit code issuer).surrogate ≠ Ids.nativeAssetId

/-- The holdings of a snapshot, listed. -/
theorem surrogatesInjective_of_holdings {records : List SnapshotRecord}
    (hdistinct : ∀ holding ∈ (records.filterMap SnapshotRecord.closing).map Prod.fst,
      ∀ other ∈ (records.filterMap SnapshotRecord.closing).map Prod.fst,
        holding.key = other.key → holding = other)
    (hnative : ∀ holding ∈ (records.filterMap SnapshotRecord.closing).map Prod.fst,
      holding.asset = .native ∨ holding.asset.surrogate ≠ Ids.nativeAssetId) :
    SurrogatesInjective records := by
  have hmem : ∀ holding, Recorded records holding →
      holding ∈ (records.filterMap SnapshotRecord.closing).map Prod.fst := by
    rintro holding ⟨record, hrecord, said, hclosing⟩
    exact List.mem_map.mpr ⟨_, List.mem_filterMap.mpr ⟨record, hrecord, hclosing⟩, rfl⟩
  refine ⟨fun holding other h h' => hdistinct holding (hmem _ h) other (hmem _ h'), ?_⟩
  intro account code issuer h
  exact (hnative _ (hmem _ h)).resolve_left (nomatch ·)

/-- A record is folded under the key of its holding, with what it says. -/
theorem keyed_eq_closing (record : SnapshotRecord) :
    (record.keyed.map fun entry => (entry.1, entry.2.closing)) =
      record.closing.map fun said => (said.1.key, said.2) := by
  have htrustline : ∀ accountId asset net,
      (((trustlineFact accountId asset net).bind NetFact.holding).map fun entry =>
        (entry.1, entry.2.closing)) =
      asset.held.map fun asset => ((⟨accountId, asset⟩ : Holding AccountId).key, net.closing) := by
    intro accountId asset net
    cases asset <;> rfl
  cases record with
  | live entry =>
      obtain ⟨ledger, data⟩ := entry
      cases data with
      | trustline trustline =>
          rw [SnapshotRecord.closing, LedgerEntryData.holding, Option.map_map, Option.map_map]
          exact htrustline trustline.accountId trustline.asset (liveHolding ledger trustline.balance)
      | _ => rfl
  | dead key =>
      cases key with
      | trustline accountId asset =>
          rw [SnapshotRecord.closing, LedgerKey.holding, Option.map_map, Option.map_map]
          exact htrustline accountId asset deadHolding
      | _ => rfl

theorem filterMap_keyed (records : List SnapshotRecord) :
    ((records.filterMap SnapshotRecord.keyed).map fun entry => (entry.1, entry.2.closing)) =
      (records.filterMap SnapshotRecord.closing).map fun said => (said.1.key, said.2) := by
  rw [List.map_filterMap, List.map_filterMap]
  exact congrArg (List.filterMap · records) (funext keyed_eq_closing)

variable {records : List SnapshotRecord}

/-- Only a credit has a trustline fact. -/
theorem trustlineFact_eq_trustline {accountId : AccountId} {asset : TrustLineAsset}
    {net entry : NetHolding} {key : HoldingKey}
    (h : trustlineFact accountId asset net = some (.trustline key entry)) :
    ∃ code issuer, asset.held = some (.credit code issuer) ∧
      key.assetId = (HeldAsset.credit code issuer).surrogate := by
  cases asset with
  | native => cases h
  | poolShare pool => cases h
  | creditAlphanum4 code issuer =>
      cases h
      exact ⟨_, issuer, rfl, rfl⟩
  | creditAlphanum12 code issuer =>
      cases h
      exact ⟨_, issuer, rfl, rfl⟩

theorem creditsKeyed_of_injective (hids : SurrogatesInjective records) : CreditsKeyed records := by
  rintro record hrecord fact hclass key entry rfl
  cases record with
  | live live =>
      obtain ⟨ledger, data⟩ := live
      cases data with
      | trustline trustline =>
          obtain ⟨code, issuer, hheld, hkey⟩ := trustlineFact_eq_trustline hclass
          have hclosing : SnapshotRecord.closing (.live ⟨ledger, .trustline trustline⟩) =
              some (⟨trustline.accountId, .credit code issuer⟩, .live trustline.balance) := by
            simp only [SnapshotRecord.closing, LedgerEntryData.holding, hheld, Option.map_some]
          rw [hkey]
          exact hids.notNative _ code issuer ⟨_, hrecord, _, hclosing⟩
      | _ => cases hclass
  | dead dead =>
      cases dead with
      | trustline accountId asset =>
          obtain ⟨code, issuer, hheld, hkey⟩ := trustlineFact_eq_trustline hclass
          have hclosing : SnapshotRecord.closing (.dead (.trustline accountId asset)) =
              some (⟨accountId, .credit code issuer⟩, .removed) := by
            simp only [SnapshotRecord.closing, LedgerKey.holding, hheld, Option.map_some]
          rw [hkey]
          exact hids.notNative _ code issuer ⟨_, hrecord, _, hclosing⟩
      | _ => cases hclass

/-- The folded state holds the network's value under a holding's key. -/
theorem liveBalance_load (hids : SurrogatesInjective records) {holding : Holding AccountId}
    (hrecorded : Recorded records holding) :
    liveBalance (holdingFor (loadNetworkState records) holding.key) =
      networkValue records holding := by
  -- no other holding of the records is renamed to this one's key
  have hinjective : ∀ said ∈ records.filterMap SnapshotRecord.closing,
      said.1.key = holding.key → said.1 = holding := by
    intro said hsaid hkey
    obtain ⟨record, hrecord, hclosing⟩ := List.mem_filterMap.mp hsaid
    exact hids.distinct _ _ ⟨record, hrecord, said.2, hclosing⟩ hrecorded hkey
  have hread := firstOf_map Holding.key (id : Closing → Closing) hinjective
  have hfold : firstOf holding.key ((records.filterMap SnapshotRecord.keyed).map fun entry =>
      (entry.1, entry.2.closing)) = (firstOf holding.key (records.filterMap
        SnapshotRecord.keyed)).map NetHolding.closing :=
    firstOf_map id NetHolding.closing fun _ _ h => h
  rw [← held_closing, holdingFor_load (creditsKeyed_of_injective hids), networkValue]
  congr 1
  calc (firstOf holding.key (records.filterMap SnapshotRecord.keyed)).map NetHolding.closing
      = firstOf holding.key ((records.filterMap SnapshotRecord.keyed).map fun entry =>
          (entry.1, entry.2.closing)) := hfold.symm
    _ = firstOf holding.key ((records.filterMap SnapshotRecord.closing).map fun said =>
          (said.1.key, said.2)) := by rw [filterMap_keyed]
    _ = firstOf holding (records.filterMap SnapshotRecord.closing) := by
        rw [Option.map_id] at hread
        exact hread

/-- Under a key of no recorded holding the state holds nothing. -/
theorem holdingFor_load_eq_none (hids : SurrogatesInjective records) {key : HoldingKey}
    (h : ∀ holding, Recorded records holding → holding.key ≠ key) :
    holdingFor (loadNetworkState records) key = none := by
  rw [holdingFor_load (creditsKeyed_of_injective hids), firstOf_eq_none]
  intro entry hentry hkey
  obtain ⟨record, hrecord, hkeyed⟩ := List.mem_filterMap.mp hentry
  have hsaid := keyed_eq_closing record
  rw [hkeyed] at hsaid
  obtain ⟨⟨holding, said⟩, hclosing, heq⟩ := Option.map_eq_some_iff.mp hsaid.symm
  exact h holding ⟨record, hrecord, said, hclosing⟩ ((Prod.mk.inj heq).1.trans hkey)

/-! ## What the written rows do to a read -/

/-- A row states the network's value of its key: the one of the holding that has
the key, and closed if the snapshot has none. -/
structure StatesNetwork (records : List SnapshotRecord) (row : BalanceRow) : Prop where
  recorded : ∀ holding, Recorded records holding → holding.key = row.holdingKey →
    States (networkValue records holding) row.amount row.closedAtLedger
  unrecorded : (∀ holding, Recorded records holding → holding.key ≠ row.holdingKey) →
    row.closedAtLedger ≠ 0

theorem statesNetwork_of_states (hids : SurrogatesInjective records) {row : BalanceRow}
    (h : States (liveBalance (holdingFor (loadNetworkState records) row.holdingKey)) row.amount
      row.closedAtLedger) : StatesNetwork records row where
  recorded holding hrecorded hkey := by
    rwa [← liveBalance_load hids hrecorded, hkey]
  unrecorded hnone := by
    rw [holdingFor_load_eq_none hids hnone] at h
    exact h

/-- How a row of ours is classified. -/
def classifiedAs (records : List SnapshotRecord) (checkpoint : UInt32) (row : OurRow) : Verdict :=
  verdict row (holdingFor (loadNetworkState records) row.holdingKey) checkpoint

/-- Our rows and the rows written over them, as a read takes them. -/
abbrev Read : List BalanceRow → BalanceRow → Prop :=
  Survives BalanceRow.holdingKey BalanceRow.lastUpdatedLedger

structure Converged (records : List SnapshotRecord) (checkpoint : UInt32)
    (rows written : List BalanceRow) : Prop where
  /-- A written row is newer than the row it replaces. -/
  newer : ∀ w ∈ written, ∀ row ∈ rows, row.holdingKey = w.holdingKey →
    row.lastUpdatedLedger < w.lastUpdatedLedger
  /-- A row at or after the checkpoint is not touched. -/
  untouched : ∀ row ∈ rows, (checkpoint.toNat : ℤ) ≤ row.lastUpdatedLedger →
    ∀ w ∈ written, w.holdingKey ≠ row.holdingKey
  /-- The rows of the three kept verdicts are still read. -/
  kept : ∀ row ∈ rows, (classifiedAs records checkpoint row).keepsOurs →
    Read (rows ++ written) row
  /-- Every other key is read as the network's value. -/
  stated : ∀ row, Read (rows ++ written) row →
    (∀ own ∈ rows, own.holdingKey = row.holdingKey →
      own.lastUpdatedLedger < checkpoint.toNat ∧
        (classifiedAs records checkpoint own).keepsOurs = false) →
    StatesNetwork records row
  /-- Every live holding has a row. -/
  held : ∀ holding, (networkValue records holding).isSome →
    ∃ row, Read (rows ++ written) row ∧ row.holdingKey = holding.key
  /-- A read takes one row of a key. -/
  unique : ∀ row other, Read (rows ++ written) row → Read (rows ++ written) other →
    row.holdingKey = other.holdingKey → row = other

section

variable {trustlineOrder : DrainOrder (HoldingKey × NetHolding)}
  {accountOrder : DrainOrder (Int64 × NetHolding)} {checkpoint : UInt32} {rows : List OurRow}

/-- The rows a run of the seed writes. -/
def seedRows (trustlineOrder : DrainOrder (HoldingKey × NetHolding))
    (accountOrder : DrainOrder (Int64 × NetHolding)) (records : List SnapshotRecord)
    (checkpoint : UInt32) (rows : List OurRow) : List BalanceRow :=
  (buildCorrections trustlineOrder accountOrder (loadNetworkState records) checkpoint rows).1.rows

theorem mem_seedRows (hids : SurrogatesInjective records) {w : BalanceRow} :
    w ∈ seedRows trustlineOrder accountOrder records checkpoint rows ↔
      (∃ row ∈ rows, correctedRow (loadNetworkState records) checkpoint row = some w) ∨
        ∃ key e, holdingFor (loadNetworkState records) key = some e ∧ e.live ∧
          key ∉ rows.map BalanceRow.holdingKey ∧ w = missingRow key e :=
  mem_corrections (creditKeyed_load (creditsKeyed_of_injective hids))
    fun _ _ => matched_load (creditsKeyed_of_injective hids)

theorem nodup_seedRows (hids : SurrogatesInjective records)
    (hrows : (rows.map BalanceRow.holdingKey).Nodup) :
    ((seedRows trustlineOrder accountOrder records checkpoint rows).map
      BalanceRow.holdingKey).Nodup :=
  nodup_corrections (creditKeyed_load (creditsKeyed_of_injective hids))
    (fun _ _ => matched_load (creditsKeyed_of_injective hids)) hrows

omit [Crates] in
theorem pos_of_isCheckpoint (h : isCheckpoint checkpoint) : 0 < checkpoint := by
  have hmod : checkpoint % CHECKPOINT_FREQUENCY = CHECKPOINT_FREQUENCY - 1 := of_decide_eq_true h
  rw [UInt32.pos_iff_ne_zero]
  rintro rfl
  exact absurd hmod (by decide)

/-- A written row replaces an older one of ours, from before the checkpoint. -/
theorem replaced_of_mem (hcheckpoint : isCheckpoint checkpoint) (hids : SurrogatesInjective records)
    (hrows : (rows.map BalanceRow.holdingKey).Nodup) {w : BalanceRow}
    (hw : w ∈ seedRows trustlineOrder accountOrder records checkpoint rows) {row : OurRow}
    (hrow : row ∈ rows) (hkey : row.holdingKey = w.holdingKey) :
    row.lastUpdatedLedger < checkpoint.toNat ∧ row.lastUpdatedLedger < w.lastUpdatedLedger ∧
      correctedRow (loadNetworkState records) checkpoint row = some w := by
  obtain ⟨own, hown, hcorrected⟩ | ⟨key, e, -, -, hmissing, rfl⟩ := (mem_seedRows hids).mp hw
  · obtain rfl : row = own :=
      eq_of_key hrows hrow hown (hkey.trans (holdingKey_correctedRow hcorrected))
    obtain ⟨c, hc, rfl⟩ := Option.map_eq_some_iff.mp hcorrected
    obtain ⟨hbefore, hnewer, -⟩ := correction_spec (pos_of_isCheckpoint hcheckpoint) hc
    exact ⟨hbefore, hnewer, hcorrected⟩
  · exact absurd (List.mem_map.mpr ⟨row, hrow, hkey⟩) hmissing

theorem newer_of_mem (hcheckpoint : isCheckpoint checkpoint) (hids : SurrogatesInjective records)
    (hrows : (rows.map BalanceRow.holdingKey).Nodup) :
    ∀ w ∈ seedRows trustlineOrder accountOrder records checkpoint rows, ∀ row ∈ rows,
      row.holdingKey = w.holdingKey → row.lastUpdatedLedger < w.lastUpdatedLedger :=
  fun _ hw _ hrow hkey => (replaced_of_mem hcheckpoint hids hrows hw hrow hkey).2.1

/-- A written row states what the network holds. -/
theorem states_of_mem (hcheckpoint : isCheckpoint checkpoint) (hids : SurrogatesInjective records)
    {w : BalanceRow} (hw : w ∈ seedRows trustlineOrder accountOrder records checkpoint rows) :
    States (liveBalance (holdingFor (loadNetworkState records) w.holdingKey)) w.amount
      w.closedAtLedger := by
  obtain ⟨own, -, hcorrected⟩ | ⟨key, e, hnet, hlive, -, rfl⟩ := (mem_seedRows hids).mp hw
  · obtain ⟨c, hc, rfl⟩ := Option.map_eq_some_iff.mp hcorrected
    exact (correction_spec (pos_of_isCheckpoint hcheckpoint) hc).2.2
  · have hkey : (missingRow key e).holdingKey = key := rfl
    rw [hkey, hnet]
    exact states_adopted (Option.filter_eq_some_iff.mpr ⟨rfl, hlive⟩)

/-- What is read is a written row, or a row of ours that needed no correction. -/
theorem read_iff (hcheckpoint : isCheckpoint checkpoint) (hids : SurrogatesInjective records)
    (hrows : (rows.map BalanceRow.holdingKey).Nodup) {row : BalanceRow} :
    Read (rows ++ seedRows trustlineOrder accountOrder records checkpoint rows) row ↔
      row ∈ seedRows trustlineOrder accountOrder records checkpoint rows ∨
        row ∈ rows ∧ correctedRow (loadNetworkState records) checkpoint row = none := by
  have hnodup : ((seedRows trustlineOrder accountOrder records checkpoint rows).map
      BalanceRow.holdingKey).Nodup := nodup_seedRows hids hrows
  refine (survives_append_iff hrows hnodup (newer_of_mem hcheckpoint hids hrows)).trans
    (or_congr_right (and_congr_right fun hrow => ?_))
  constructor
  · intro hkept
    by_contra hcorrected
    obtain ⟨w, hw⟩ := Option.ne_none_iff_exists'.mp hcorrected
    exact hkept w ((mem_seedRows hids).mpr (.inl ⟨row, hrow, hw⟩)) (holdingKey_correctedRow hw)
  · intro hnone w hw hkey
    have hreplaced := (replaced_of_mem hcheckpoint hids hrows hw hrow hkey.symm).2.2
    rw [hnone] at hreplaced
    cases hreplaced

/-- What is read needs no correction. -/
theorem correctedRow_of_read (hcheckpoint : isCheckpoint checkpoint)
    (hids : SurrogatesInjective records) (hrows : (rows.map BalanceRow.holdingKey).Nodup)
    {row : BalanceRow}
    (h : Read (rows ++ seedRows trustlineOrder accountOrder records checkpoint rows) row) :
    correctedRow (loadNetworkState records) checkpoint row = none := by
  obtain hwritten | ⟨-, hnone⟩ := (read_iff hcheckpoint hids hrows).mp h
  · rw [correctedRow, correction_eq_none_of_states (states_of_mem hcheckpoint hids hwritten)]
    rfl
  · exact hnone

/-- A live key is one of ours or is written, so it is read. -/
theorem exists_read (hcheckpoint : isCheckpoint checkpoint) (hids : SurrogatesInjective records)
    (hrows : (rows.map BalanceRow.holdingKey).Nodup) {key : HoldingKey} {e : NetHolding}
    (hnet : holdingFor (loadNetworkState records) key = some e) (hlive : e.live) :
    ∃ row, Read (rows ++ seedRows trustlineOrder accountOrder records checkpoint rows) row ∧
      row.holdingKey = key := by
  have hpresent : ∃ row ∈ rows ++ seedRows trustlineOrder accountOrder records checkpoint rows,
      row.holdingKey = key := by
    by_cases hours : key ∈ rows.map BalanceRow.holdingKey
    · obtain ⟨row, hrow, hkey⟩ := List.mem_map.mp hours
      exact ⟨row, List.mem_append_left _ hrow, hkey⟩
    · have hwritten := (@mem_seedRows _ _ trustlineOrder accountOrder checkpoint _ hids _).mpr
        (.inr ⟨key, e, hnet, hlive, hours, rfl⟩)
      exact ⟨_, List.mem_append_right _ hwritten, rfl⟩
  obtain ⟨row, hrow, rfl⟩ := hpresent
  exact exists_survives hrows (nodup_seedRows hids hrows) (newer_of_mem hcheckpoint hids hrows) hrow

theorem converged (hcheckpoint : isCheckpoint checkpoint) (hids : SurrogatesInjective records)
    (hrows : (rows.map BalanceRow.holdingKey).Nodup) :
    Converged records checkpoint rows
      (seedRows trustlineOrder accountOrder records checkpoint rows) where
  newer := newer_of_mem hcheckpoint hids hrows
  untouched row hrow hafter w hw hkey := by
    have hbefore := (replaced_of_mem hcheckpoint hids hrows hw hrow hkey.symm).1
    exact absurd hbefore (not_lt.mpr hafter)
  kept row hrow hkeeps := by
    refine (read_iff hcheckpoint hids hrows).mpr (.inr ⟨hrow, ?_⟩)
    have hreported : correction (classifiedAs records checkpoint row)
        (holdingFor (loadNetworkState records) row.holdingKey) checkpoint = none := by
      cases hv : classifiedAs records checkpoint row <;> rw [hv] at hkeeps <;>
        first | rfl | cases hkeeps
    rw [correctedRow]
    exact congrArg (Option.map (Correction.row · row.holdingKey)) hreported
  stated row hread hothers := by
    apply statesNetwork_of_states hids
    obtain hwritten | ⟨hrow, hnone⟩ := (read_iff hcheckpoint hids hrows).mp hread
    · exact states_of_mem hcheckpoint hids hwritten
    · obtain ⟨hbefore, hoverruled⟩ := hothers row hrow rfl
      have hcorrection := Option.map_eq_none_iff.mp hnone
      obtain hafter | hkeeps | hstates := states_of_correction_eq_none hcorrection
      · exact absurd hbefore (not_lt.mpr hafter)
      · exact absurd hkeeps (by rw [classifiedAs] at hoverruled; simp [hoverruled])
      · exact hstates
  held holding hvalue := by
    -- the network's value comes from a record of the holding
    have hrecorded : Recorded records holding := by
      obtain ⟨balance, hvalue⟩ := Option.isSome_iff_exists.mp hvalue
      obtain ⟨said, hsaid, -⟩ := Option.bind_eq_some_iff.mp hvalue
      obtain ⟨record, hrecord, hclosing⟩ := List.mem_filterMap.mp (mem_of_firstOf hsaid)
      exact ⟨record, hrecord, said, hclosing⟩
    rw [← liveBalance_load hids hrecorded, liveBalance, Option.isSome_map] at hvalue
    obtain ⟨e, he⟩ := Option.isSome_iff_exists.mp hvalue
    obtain ⟨hnet, hlive⟩ := filter_live_eq_some he
    exact exists_read hcheckpoint hids hrows hnet hlive
  unique row other hrow hother hkey :=
    hrow.unique hrows (nodup_seedRows hids hrows) (newer_of_mem hcheckpoint hids hrows) hother hkey

/-- A run over what is read after the first one finds nothing to write. -/
theorem seedRows_of_isRead (hcheckpoint : isCheckpoint checkpoint)
    (hids : SurrogatesInjective records) (hrows : (rows.map BalanceRow.holdingKey).Nodup)
    {trustlineOrder' : DrainOrder (HoldingKey × NetHolding)}
    {accountOrder' : DrainOrder (Int64 × NetHolding)} {read : List OurRow}
    (hread : IsRead BalanceRow.holdingKey BalanceRow.lastUpdatedLedger
      (rows ++ seedRows trustlineOrder accountOrder records checkpoint rows) read) :
    seedRows trustlineOrder' accountOrder' records checkpoint read = [] := by
  rw [List.eq_nil_iff_forall_not_mem]
  intro w hw
  obtain ⟨row, hrow, hcorrected⟩ | ⟨key, e, hnet, hlive, hmissing, -⟩ := (mem_seedRows hids).mp hw
  · rw [correctedRow_of_read hcheckpoint hids hrows ((hread.mem_iff row).mp hrow)] at hcorrected
    cases hcorrected
  · obtain ⟨row, hrow, hkey⟩ := exists_read hcheckpoint hids hrows hnet hlive
    exact hmissing (List.mem_map.mpr ⟨row, (hread.mem_iff row).mpr hrow, hkey⟩)

end

/-- A run of the seed over any snapshot and any rows of ours, one for each holding:
what is read afterwards states the network, and a second run writes nothing. -/
theorem seed_converges (trustlineOrder trustlineOrder' : DrainOrder (HoldingKey × NetHolding))
    (accountOrder accountOrder' : DrainOrder (Int64 × NetHolding)) (records : List SnapshotRecord)
    (checkpoint : UInt32) (rows : List OurRow) (hcheckpoint : isCheckpoint checkpoint)
    (hids : SurrogatesInjective records) (hrows : (rows.map BalanceRow.holdingKey).Nodup) :
    Converged records checkpoint rows
        (seedRows trustlineOrder accountOrder records checkpoint rows) ∧
      ∀ read, IsRead BalanceRow.holdingKey BalanceRow.lastUpdatedLedger
          (rows ++ seedRows trustlineOrder accountOrder records checkpoint rows) read →
        seedRows trustlineOrder' accountOrder' records checkpoint read = [] :=
  ⟨converged hcheckpoint hids hrows, fun _ hread => seedRows_of_isRead hcheckpoint hids hrows hread⟩

omit [Crates] in
/-- A snapshot in which an account is live and its trustline gone; of our rows, one is
behind the account and one still holds the trustline. -/
theorem seed_converges_two_rows :
    let _ : Crates := Crates.pinned
    let usdc : TrustLineAsset := .creditAlphanum4 ⟨[0x55, 0x53, 0x44, 0x43], rfl⟩ Crates.pinnedAccount
    let records : List SnapshotRecord :=
      [.live ⟨50, .account ⟨Crates.pinnedAccount, 7, 0, 0, 0, [], [], [], none⟩⟩,
        .dead (.trustline Crates.pinnedAccount usdc),
        .live ⟨20, .trustline ⟨Crates.pinnedAccount, usdc, 5, 0, 0⟩⟩]
    let holder : Int64 := 4204727763610853148
    let rows : List OurRow :=
      [⟨holder, Ids.nativeAssetId, 3, 10, 0⟩, ⟨holder, -5142557507226545233, 5, 20, 0⟩]
    seedRows .stored .stored records 63 rows =
        [⟨holder, Ids.nativeAssetId, 7, 50, 0⟩, ⟨holder, -5142557507226545233, 0, 63, 63⟩] ∧
      Converged records 63 rows (seedRows .stored .stored records 63 rows) ∧
      ∃ read, IsRead BalanceRow.holdingKey BalanceRow.lastUpdatedLedger
          (rows ++ seedRows .stored .stored records 63 rows) read ∧
        seedRows .stored .stored records 63 read = [] := by
  intro _ usdc records holder rows
  have hcheckpoint : isCheckpoint 63 := by decide
  have hids : SurrogatesInjective records := by
    apply surrogatesInjective_of_holdings <;> decide
  have hrows : (rows.map BalanceRow.holdingKey).Nodup := by decide
  obtain ⟨hconverged, hagain⟩ := seed_converges .stored .stored .stored .stored records 63 rows
    hcheckpoint hids hrows
  obtain ⟨read, hread⟩ := exists_isRead hrows (nodup_seedRows hids hrows)
    (newer_of_mem hcheckpoint hids hrows)
  exact ⟨by decide, hconverged, read, hread, hagain read hread⟩

end SorobanExplorer
