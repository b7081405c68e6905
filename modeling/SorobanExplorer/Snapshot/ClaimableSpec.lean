import Mathlib.Data.Int.ConditionallyCompleteOrder
import SorobanExplorer.Lib.Timeline
import SorobanExplorer.Lib.Versioned
import SorobanExplorer.Persist.ClaimableBalancesSpec
import SorobanExplorer.Snapshot.Claimable
import SorobanExplorer.Snapshot.SeedConvergence

/-!
# What the seed does to the claimable balances

The writer records what each ledger from its first one on leaves of a balance, and the
snapshot names the balances that are live at the checkpoint.  A balance the writer has
recorded keeps its row (`correctionOf_eq_none`); one it has not was touched last before
the writer started, so the row inserted for it is still its last word.
-/

namespace SorobanExplorer.Claimable

open KeyedFold Replacing Timeline Versioned

/-! ## The state of a balance -/

section

variable (state : NetworkState)

def balanceFor (holderId : Int64) : Option (NetHolding × Option Int64) :=
  state.claimableBalances.lookup holderId

/-- What the network holds for a row of ours. -/
def netFor (row : OurRow) : Option NetHolding :=
  (balanceFor state row.holderId).bind fun (entry, networkAsset) =>
    if entry.live ∧ networkAsset ≠ some row.assetId then none else some entry

/-- What the comparison of a row writes. -/
def correctionOf (checkpoint : UInt32) (row : OurRow) : Option Correction :=
  correction (verdict row (netFor state row) checkpoint) (netFor state row) checkpoint

end

variable {state : NetworkState} {checkpoint : UInt32}

theorem claim_snd (row : OurRow) :
    (claim state row).2 = (netFor state row).map NetHolding.claimed := by
  unfold claim netFor balanceFor
  cases state.claimableBalances.lookup row.holderId with
  | none => rfl
  | some held =>
      obtain ⟨entry, networkAsset⟩ := held
      simp only [Option.bind_some]
      split <;> rfl

/-- A claim marks at most the balance of its row. -/
theorem balanceFor_claim (row : OurRow) (holderId : Int64) :
    balanceFor (claim state row).1 holderId =
      if row.holderId = holderId ∧ (netFor state row).isSome then
        (balanceFor state holderId).map markClaimed
      else balanceFor state holderId := by
  unfold claim netFor balanceFor
  cases hlookup : state.claimableBalances.lookup row.holderId with
  | none => simp
  | some held =>
      obtain ⟨entry, networkAsset⟩ := held
      by_cases hother : entry.live ∧ networkAsset ≠ some row.assetId
      · have hnone : ¬ (row.holderId = holderId ∧ (none : Option NetHolding).isSome) :=
          fun h => nomatch h.2
        simp only [Option.bind_some, if_pos hother]
        rw [if_neg hnone]
      · have hmark := lookup_modifyWhere (fun key => decide (key = row.holderId)) markClaimed
          state.claimableBalances holderId
        have hown : row.holderId = holderId ∧ (some entry).isSome ↔ holderId = row.holderId := by
          simp [eq_comm]
        simp only [Option.bind_some, if_neg hother]
        rw [hmark]
        simp only [hown, decide_eq_true_eq]

/-- A claim changes no later comparison. -/
theorem netFor_claim (row other : OurRow) :
    (netFor (claim state row).1 other).map NetHolding.claimed =
      (netFor state other).map NetHolding.claimed := by
  unfold netFor
  rw [balanceFor_claim]
  split
  · cases balanceFor state other.holderId with
    | none => rfl
    | some held =>
        obtain ⟨entry, networkAsset⟩ := held
        simp only [Option.map_some, markClaimed, NetHolding.claimed, Option.bind_some]
        split <;> rfl
  · rfl

theorem correctionOf_congr {state' : NetworkState} {row : OurRow}
    (h : (netFor state' row).map NetHolding.claimed = (netFor state row).map NetHolding.claimed) :
    correctionOf state' checkpoint row = correctionOf state checkpoint row := by
  unfold correctionOf
  rw [← verdict_map_claimed, ← correction_map_claimed, h, verdict_map_claimed,
    correction_map_claimed]

/-! ## The passes -/

/-- The state after every row has claimed its balance. -/
def claimAll (state : NetworkState) (rows : List OurRow) : NetworkState :=
  rows.foldl (fun state row => (claim state row).1) state

/-- A balance is marked by a row of its holder and, while it is live, of its asset. -/
theorem balanceFor_claimAll (rows : List OurRow) (holderId : Int64) :
    ∀ state : NetworkState, balanceFor (claimAll state rows) holderId =
      if ∃ row ∈ rows, row.holderId = holderId ∧ (netFor state row).isSome then
        (balanceFor state holderId).map markClaimed
      else balanceFor state holderId := by
  induction rows with
  | nil => intro state; simp [claimAll]
  | cons row rows ih =>
      intro state
      have hsome : ∀ other, (netFor (claim state row).1 other).isSome =
          (netFor state other).isSome := by
        intro other
        have h := congrArg Option.isSome (@netFor_claim state row other)
        rwa [Option.isSome_map, Option.isSome_map] at h
      have htwice : ∀ held : Option (NetHolding × Option Int64),
          (held.map markClaimed).map markClaimed = held.map markClaimed := by
        intro held
        cases held <;> rfl
      rw [claimAll, List.foldl_cons, ← claimAll, ih]
      simp only [hsome, balanceFor_claim, List.exists_mem_cons_iff]
      by_cases hrow : row.holderId = holderId ∧ (netFor state row).isSome
      · rw [if_pos hrow, htwice, ite_self, if_pos (.inl hrow)]
      · rw [if_neg hrow]
        simp only [hrow, false_or]

/-- If no row is corrected, the first pass only marks. -/
theorem foldl_observeRow (rows : List OurRow) :
    ∀ (state : NetworkState) (out : ClaimableCorrections),
      (∀ row ∈ rows, correctionOf state checkpoint row = none) →
      (rows.foldl (observeRow checkpoint) (state, out)).1 = claimAll state rows ∧
        (rows.foldl (observeRow checkpoint) (state, out)).2.rows = out.rows := by
  induction rows with
  | nil => exact fun state out _ => ⟨rfl, rfl⟩
  | cons row rows ih =>
      intro state out hnone
      obtain ⟨hrow, hrest⟩ := List.forall_mem_cons.mp hnone
      have hstep : (observeRow checkpoint (state, out) row).2.rows = out.rows := by
        show (foldOurRow row (verdict row (claim state row).2 checkpoint) (claim state row).2
          checkpoint out).rows = _
        have hcorrection : correction (verdict row (netFor state row) checkpoint)
            (netFor state row) checkpoint = none := hrow
        rw [claim_snd, foldOurRow, verdict_map_claimed, correction_map_claimed, hcorrection]
        show (if _ then _ else out).rows = out.rows
        split <;> rfl
      rw [List.foldl_cons]
      obtain ⟨hstate, hrows⟩ := ih (claim state row).1 (observeRow checkpoint (state, out) row).2
        fun other hother => (correctionOf_congr (netFor_claim row other)).trans (hrest other hother)
      exact ⟨hstate, hrows.trans hstep⟩

/-- If no row is corrected, what is written are the live balances without a row. -/
theorem mem_buildCorrections {order : DrainOrder (Int64 × NetHolding × Option Int64)}
    {rows : List OurRow} (hnone : ∀ row ∈ rows, correctionOf state checkpoint row = none)
    (hfresh : ∀ holderId held, balanceFor state holderId = some held → held.1.matched = false)
    {w : BalanceRow} :
    w ∈ (buildCorrections order state checkpoint rows).1.rows ↔
      ∃ holderId e assetId, balanceFor state holderId = some (e, some assetId) ∧ e.live ∧
        (∀ row ∈ rows, row.holderId = holderId → netFor state row = none) ∧
        w = missingRow ⟨holderId, assetId⟩ e := by
  obtain ⟨hstate, hrows⟩ := foldl_observeRow rows state ⟨[], []⟩ hnone
  -- no row is corrected, so only the drain of the state writes
  have hwritten : (buildCorrections order state checkpoint rows).1.rows =
      (order.drain (pairs (claimAll state rows).claimableBalances)).filterMap
        fun entry => missing entry.1 entry.2 := by
    rw [← hstate, ← List.nil_append (List.filterMap _ _)]
    exact congrArg (· ++ _) hrows
  -- what is still unclaimed when the rows are through
  have hentry : ∀ holderId held,
      (holderId, held) ∈ order.drain (pairs (claimAll state rows).claimableBalances) ↔
        balanceFor (claimAll state rows) holderId = some held := by
    intro holderId held
    rw [(order.perm _).mem_iff, mem_pairs]
    rfl
  rw [hwritten, List.mem_filterMap]
  constructor
  · rintro ⟨⟨holderId, held⟩, hmem, hmissing⟩
    rw [hentry, balanceFor_claimAll] at hmem
    have hmissing : missing holderId held = some w := hmissing
    unfold missing at hmissing
    split at hmissing
    · rename_i hlive
      obtain ⟨assetId, hasset, rfl⟩ := Option.map_eq_some_iff.mp hmissing
      split at hmem
      · obtain ⟨old, -, rfl⟩ := Option.map_eq_some_iff.mp hmem
        cases hlive.2
      · rename_i hunclaimed
        refine ⟨holderId, held.1, assetId, ?_, hlive.1, fun row hrow hholder => ?_, rfl⟩
        · rw [hmem, ← hasset]
        · rw [← Option.not_isSome_iff_eq_none]
          exact fun hsome => hunclaimed ⟨row, hrow, hholder, hsome⟩
    · cases hmissing
  · rintro ⟨holderId, e, assetId, hheld, hlive, hunclaimed, rfl⟩
    refine ⟨(holderId, e, some assetId), ?_, ?_⟩
    · rw [hentry, balanceFor_claimAll, if_neg, hheld]
      rintro ⟨row, hrow, hholder, hsome⟩
      rw [hunclaimed row hrow hholder] at hsome
      cases hsome
    · show missing holderId (e, some assetId) = _
      rw [missing, if_pos ⟨hlive, hfresh _ _ hheld⟩]
      rfl

/-! ## The snapshot -/

/-- What a record says of a claimable balance: its ledger, asset and amount while it is
live. -/
def said : SnapshotRecord → Option (Hash × Option (UInt32 × Asset × Int64))
  | .live ⟨ledger, .claimableBalance entry⟩ =>
      some (entry.balanceId, some (ledger, entry.asset, entry.amount))
  | .dead (.claimableBalance balance) => some (balance, none)
  | _ => none

section

variable [Crates]

/-- The id of a balance in our tables. -/
def holderIdOf (balance : Hash) : Int64 :=
  Ids.addressId (claimableHolder balance)

/-- What the state keeps of a record. -/
def heldAs : Option (UInt32 × Asset × Int64) → NetHolding × Option Int64
  | some (ledger, asset, amount) =>
      (liveHolding ledger amount, some (NetworkState.classicAsset asset))
  | none => (deadHolding, none)

/-- A record in our key space. -/
def saidOf (record : SnapshotRecord) : Option (Int64 × NetHolding × Option Int64) :=
  (said record).map fun (balance, left) => (holderIdOf balance, heldAs left)

/-- The claimable balance of a fact. -/
def factSaid : NetFact → Option (Int64 × NetHolding × Option Int64)
  | .claimableBalance holderId assetId entry => some (holderId, entry, assetId)
  | _ => none

omit [Crates] in
theorem balanceFor_absorb (fact : NetFact) (holderId : Int64) :
    balanceFor (state.absorb fact) holderId =
      (balanceFor state holderId).or (firstOf holderId (factSaid fact).toList) := by
  cases fact with
  | claimableBalance own assetId entry =>
      rw [factSaid, Option.toList_some, firstOf_cons, firstOf_nil]
      exact lookup_firstWins state.claimableBalances own (entry, assetId) state.superseded holderId
  | _ => simp [factSaid, balanceFor, NetworkState.absorb]

theorem classify_claimable (record : SnapshotRecord) :
    (classify record).bind factSaid = saidOf record := by
  have htrustline : ∀ accountId asset net, (trustlineFact accountId asset net).bind factSaid = none := by
    intro accountId asset net
    cases asset <;> rfl
  cases record with
  | live entry =>
      obtain ⟨ledger, data⟩ := entry
      cases data with
      | trustline trustline => exact htrustline _ _ _
      | _ => rfl
  | dead key =>
      cases key with
      | trustline accountId asset => exact htrustline _ _ _
      | _ => rfl

theorem balanceFor_absorbRecord (record : SnapshotRecord) (holderId : Int64) :
    balanceFor (state.absorbRecord record) holderId =
      (balanceFor state holderId).or (firstOf holderId (saidOf record).toList) := by
  rw [← classify_claimable, NetworkState.absorbRecord]
  cases classify record with
  | some fact => exact balanceFor_absorb fact holderId
  | none =>
      simp only [Option.bind_none, Option.toList_none, firstOf_nil, Option.or_none]
      split <;> rfl

theorem balanceFor_foldl (records : List SnapshotRecord) (holderId : Int64) :
    ∀ state : NetworkState, balanceFor (records.foldl NetworkState.absorbRecord state) holderId =
      (balanceFor state holderId).or (firstOf holderId (records.filterMap saidOf)) := by
  induction records with
  | nil => intro state; simp
  | cons record records ih =>
      intro state
      have hstep : (firstOf holderId (saidOf record).toList).or
          (firstOf holderId (records.filterMap saidOf)) =
          firstOf holderId ((record :: records).filterMap saidOf) := by
        rw [List.filterMap_cons]
        cases saidOf record with
        | none => rfl
        | some entry =>
            simp only [Option.toList_some, firstOf_cons, firstOf_nil]
            split <;> rfl
      calc balanceFor ((record :: records).foldl NetworkState.absorbRecord state) holderId
          = (balanceFor (state.absorbRecord record) holderId).or
              (firstOf holderId (records.filterMap saidOf)) := ih _
        _ = (balanceFor state holderId).or
              (firstOf holderId ((record :: records).filterMap saidOf)) := by
            rw [balanceFor_absorbRecord, Option.or_assoc, hstep]

theorem balanceFor_load (records : List SnapshotRecord) (holderId : Int64) :
    balanceFor (loadNetworkState records) holderId =
      firstOf holderId (records.filterMap saidOf) := by
  have hempty : balanceFor .default holderId = none := rfl
  rw [loadNetworkState, balanceFor_foldl, hempty, Option.none_or]

theorem matched_load {records : List SnapshotRecord} {holderId : Int64}
    {held : NetHolding × Option Int64}
    (h : balanceFor (loadNetworkState records) holderId = some held) : held.1.matched = false := by
  rw [balanceFor_load] at h
  obtain ⟨record, -, hsaid⟩ := List.mem_filterMap.mp (mem_of_firstOf h)
  obtain ⟨⟨balance, left⟩, -, heq⟩ := Option.map_eq_some_iff.mp hsaid
  obtain rfl : heldAs left = held := (Prod.mk.inj heq).2
  cases left <;> rfl

end

/-! ## The history -/

/-- What the ledgers leave of a balance, each with its sequence. -/
def touches (ledgers : List ClaimableLedger) (balance : Hash) : List (UInt32 × Closing) :=
  ledgers.filterMap fun ledger => (ledger.last balance).map (ledger.ledgerSequence, ·)

theorem mem_touches {ledgers : List ClaimableLedger} {balance : Hash} {e : UInt32 × Closing} :
    e ∈ touches ledgers balance ↔
      ∃ ledger ∈ ledgers, ledger.ledgerSequence = e.1 ∧ ledger.last balance = some e.2 := by
  obtain ⟨seq, left⟩ := e
  simp only [touches, List.mem_filterMap, Option.map_eq_some_iff, Prod.mk.injEq]
  constructor
  · rintro ⟨ledger, hledger, last, hlast, rfl, rfl⟩
    exact ⟨ledger, hledger, rfl, hlast⟩
  · rintro ⟨ledger, hledger, rfl, hlast⟩
    exact ⟨ledger, hledger, left, hlast, rfl, rfl⟩

/-- What the last touch of a balance up to a ledger left. -/
def leftBy (ledgers : List ClaimableLedger) (ledger : UInt32) (balance : Hash) :
    Option (UInt32 × Closing) :=
  asOf (fun e => e.1.toNat) (touches ledgers balance) ledger.toNat

/-- A balance as a ledger finds it: when it was last touched, its asset and amount;
nothing if it does not exist. -/
def liveAt (asset : Hash → Asset) (ledgers : List ClaimableLedger) (ledger : UInt32)
    (balance : Hash) : Option (UInt32 × Asset × Int64) :=
  (leftBy ledgers ledger balance).bind fun (seq, left) =>
    left.held.map fun amount => (seq, asset balance, amount)

variable [Crates]

/-- The rows of the ledgers from the writer's first one up to a ledger. -/
def writerRows (ledgers : List ClaimableLedger) (writer upto : UInt32) : List BalanceRow :=
  (ledgers.filter fun ledger =>
    writer ≤ ledger.ledgerSequence ∧ ledger.ledgerSequence ≤ upto).flatMap ClaimableLedger.rows

/-- A chain in which every balance keeps its asset and every removal the writer sees comes
after an image of its balance; among the known balances, which are all it touches, the
ids are injective. -/
structure ClaimableChain (asset : Hash → Asset) (known : Hash → Prop) (writer : UInt32)
    (ledgers : List ClaimableLedger) : Prop where
  ordered : ledgers.Pairwise fun a b => a.ledgerSequence < b.ledgerSequence
  positive : ∀ ledger ∈ ledgers, 0 < ledger.ledgerSequence
  imaged : ∀ ledger ∈ ledgers, writer ≤ ledger.ledgerSequence → ∀ tx ∈ ledger.txs,
    ClaimableImaged asset [] (ledgerChanges tx.2)
  touched : ∀ ledger ∈ ledgers, ∀ balance, (ledger.last balance).isSome → known balance
  ownId : ∀ balance balance', known balance → known balance' →
    holderIdOf balance = holderIdOf balance' → balance = balance'

/-- The records name the balances that are live at the checkpoint, as they are there. -/
structure IsSnapshot (asset : Hash → Asset) (known : Hash → Prop) (ledgers : List ClaimableLedger)
    (checkpoint : UInt32) (records : List SnapshotRecord) : Prop where
  named : ∀ entry ∈ records.filterMap said, known entry.1
  live : ∀ balance, known balance →
    (firstOf balance (records.filterMap said)).join = liveAt asset ledgers checkpoint balance

/-- A read takes exactly one live row of a balance that exists, of its asset and amount,
and none of any other. -/
def ReadsTruly (asset : Hash → Asset) (ledgers : List ClaimableLedger) (ledger : UInt32)
    (table : List BalanceRow) (balance : Hash) : Prop :=
  match liveAt asset ledgers ledger balance with
  | some (_, asset, amount) =>
      ∃ row : BalanceRow, row.assetId = NetworkState.classicAsset asset ∧
        row.amount = amount.toInt ∧ ∀ other,
          Read table other ∧ other.holderId = holderIdOf balance ∧ other.closedAtLedger = 0 ↔
            other = row
  | none => ∀ row, Read table row → row.holderId = holderIdOf balance → row.closedAtLedger ≠ 0

variable {asset : Hash → Asset} {known : Hash → Prop} {writer upto : UInt32}
  {ledgers : List ClaimableLedger} {records : List SnapshotRecord}

/-- The row of a touch. -/
def rowOf (asset : Hash → Asset) (balance : Hash) (e : UInt32 × Closing) : BalanceRow :=
  claimableClosingRow asset e.1 (balance, e.2)

theorem assetId_claimableAsset (asset : Asset) :
    (claimableAsset asset).assetId = NetworkState.classicAsset asset := by
  cases asset <;> rfl

theorem holdingKey_rowOf (balance : Hash) (e : UInt32 × Closing) :
    (rowOf asset balance e).holdingKey =
      ⟨holderIdOf balance, NetworkState.classicAsset (asset balance)⟩ := by
  rw [← assetId_claimableAsset]
  rfl

theorem missingRow_eq (balance : Hash) (seq : UInt32) (amount : Int64) :
    missingRow ⟨holderIdOf balance, NetworkState.classicAsset (asset balance)⟩
      (liveHolding seq amount) = rowOf asset balance (seq, .live amount) := by
  rw [← assetId_claimableAsset]
  rfl

namespace ClaimableChain

variable (h : ClaimableChain asset known writer ledgers)
include h

theorem increasing_touches (balance : Hash) :
    Ranked.Increasing (fun e => e.1.toNat) (touches ledgers balance) := by
  refine List.Pairwise.filterMap _ (fun a b hab e he e' he' => ?_) h.ordered
  obtain ⟨left, -, rfl⟩ := Option.map_eq_some_iff.mp he
  obtain ⟨left', -, rfl⟩ := Option.map_eq_some_iff.mp he'
  exact UInt32.lt_iff_toNat_lt.mp hab

theorem leftBy_eq_some_iff {balance : Hash} {e : UInt32 × Closing} :
    leftBy ledgers upto balance = some e ↔
      (e ∈ touches ledgers balance ∧ e.1.toNat ≤ upto.toNat) ∧
        ∀ other ∈ touches ledgers balance, other.1.toNat ≤ upto.toNat → other.1.toNat ≤ e.1.toNat :=
  asOf_eq_some_iff (h.increasing_touches balance)

theorem leftBy_eq_of_le {balance : Hash} {ledger : UInt32} {e : UInt32 × Closing}
    (he : leftBy ledgers upto balance = some e) (hle : ledger.toNat ≤ upto.toNat)
    (hbefore : e.1.toNat ≤ ledger.toNat) : leftBy ledgers ledger balance = some e := by
  have hnewest := (h.leftBy_eq_some_iff.mp he).2
  rw [← he]
  exact (asOf_eq_of_le (h.increasing_touches balance) hle fun other hother hupto =>
    (hnewest other hother hupto).trans hbefore).symm

theorem known_of_touch {balance : Hash} {e : UInt32 × Closing}
    (he : e ∈ touches ledgers balance) : known balance := by
  obtain ⟨ledger, hledger, -, hlast⟩ := mem_touches.mp he
  exact h.touched ledger hledger balance (by rw [hlast]; rfl)

theorem pos_of_touch {balance : Hash} {e : UInt32 × Closing} (he : e ∈ touches ledgers balance) :
    (e.1.toNat : ℤ) ≠ 0 := by
  obtain ⟨ledger, hledger, hseq, -⟩ := mem_touches.mp he
  have hpos := UInt32.lt_iff_toNat_lt.mp (h.positive ledger hledger)
  rw [hseq, UInt32.toNat_zero] at hpos
  omega

theorem eq_of_key {balance balance' : Hash} {e e' : UInt32 × Closing}
    (he : e ∈ touches ledgers balance) (he' : e' ∈ touches ledgers balance')
    (hkey : (rowOf asset balance e).holdingKey = (rowOf asset balance' e').holdingKey) :
    balance = balance' := by
  rw [holdingKey_rowOf, holdingKey_rowOf] at hkey
  exact h.ownId _ _ (h.known_of_touch he) (h.known_of_touch he') (congrArg HoldingKey.holderId hkey)

theorem rowOf_inj {balance balance' : Hash} {e e' : UInt32 × Closing}
    (he : e ∈ touches ledgers balance) (he' : e' ∈ touches ledgers balance')
    (hkey : (rowOf asset balance e).holdingKey = (rowOf asset balance' e').holdingKey)
    (hledger : (rowOf asset balance e).lastUpdatedLedger =
      (rowOf asset balance' e').lastUpdatedLedger) :
    rowOf asset balance e = rowOf asset balance' e' := by
  obtain rfl := h.eq_of_key he he' hkey
  rw [eq_of_time (h.increasing_touches balance) he he' (Int.ofNat_inj.mp hledger)]

/-! ## Our rows -/

/-- What the writer records, by the touches. -/
theorem mem_writerRows {row : BalanceRow} :
    row ∈ writerRows ledgers writer upto ↔
      ∃ balance, ∃ e ∈ touches ledgers balance, writer.toNat ≤ e.1.toNat ∧ e.1.toNat ≤ upto.toNat ∧
        row = rowOf asset balance e := by
  -- the writer saw the ledgers of its range
  have hhistory : ClaimableHistory asset (ledgers.filter fun ledger =>
      writer ≤ ledger.ledgerSequence ∧ ledger.ledgerSequence ≤ upto) := by
    constructor
    · intro ledger hledger
      obtain ⟨hledger, hrange⟩ := List.mem_filter.mp hledger
      exact h.imaged ledger hledger (of_decide_eq_true hrange).1
    · intro ledger hledger ledger' hledger' balance balance' htouched htouched'
      exact h.ownId _ _ (h.touched ledger (List.mem_of_mem_filter hledger) _ htouched)
        (h.touched ledger' (List.mem_of_mem_filter hledger') _ htouched')
  rw [writerRows, List.mem_flatMap]
  constructor
  · rintro ⟨ledger, hledger, hrow⟩
    obtain ⟨balance, closing, hlast, rfl⟩ := hhistory.exists_of_mem_rows hledger hrow
    obtain ⟨hledger, hrange⟩ := List.mem_filter.mp hledger
    obtain ⟨hwriter, hupto⟩ := of_decide_eq_true hrange
    exact ⟨balance, (ledger.ledgerSequence, closing), mem_touches.mpr ⟨ledger, hledger, rfl, hlast⟩,
      UInt32.le_iff_toNat_le.mp hwriter, UInt32.le_iff_toNat_le.mp hupto, rfl⟩
  · rintro ⟨balance, e, he, hwriter, hupto, rfl⟩
    obtain ⟨ledger, hledger, hseq, hlast⟩ := mem_touches.mp he
    have hmem : ledger ∈ ledgers.filter fun ledger =>
        writer ≤ ledger.ledgerSequence ∧ ledger.ledgerSequence ≤ upto := by
      rw [List.mem_filter, decide_eq_true_iff, hseq, UInt32.le_iff_toNat_le, UInt32.le_iff_toNat_le]
      exact ⟨hledger, hwriter, hupto⟩
    have hrows := hhistory.filter_rows hmem hlast
    refine ⟨ledger, hmem, List.mem_of_mem_filter (p := (·.holderId = holderIdOf balance)) ?_⟩
    rw [rowOf, ← hseq]
    exact hrows ▸ List.mem_cons_self

/-- A read of rows of touches takes the last one of each balance. -/
theorem read_iff (upto : UInt32) {table : List BalanceRow}
    (hrows : ∀ row ∈ table, ∃ balance, ∃ e ∈ touches ledgers balance,
      e.1.toNat ≤ upto.toNat ∧ row = rowOf asset balance e)
    (hlast : ∀ balance, ∀ e ∈ touches ledgers balance, rowOf asset balance e ∈ table →
      ∀ last, leftBy ledgers upto balance = some last → rowOf asset balance last ∈ table)
    {row : BalanceRow} :
    Read table row ↔ ∃ balance e, leftBy ledgers upto balance = some e ∧
      rowOf asset balance e ∈ table ∧ row = rowOf asset balance e := by
  constructor
  · rintro ⟨hmem, hnewest⟩
    obtain ⟨balance, e, he, hupto, rfl⟩ := hrows row hmem
    cases hleft : leftBy ledgers upto balance with
    | none =>
        have hafter := asOf_eq_none_iff.mp hleft e he
        exact absurd hupto (not_le.mpr hafter)
    | some last =>
        have hin := hlast balance e he hmem last hleft
        obtain ⟨⟨hlastMem, hlastUpto⟩, hdominates⟩ := h.leftBy_eq_some_iff.mp hleft
        have hle : ((last.1.toNat : ℕ) : ℤ) ≤ e.1.toNat := hnewest _ hin (by
          rw [holdingKey_rowOf, holdingKey_rowOf])
        have heq : last = e := eq_of_time (h.increasing_touches balance) hlastMem he
          (le_antisymm (Int.ofNat_le.mp hle) (hdominates e he hupto))
        exact ⟨balance, last, hleft, hin, by rw [heq]⟩
  · rintro ⟨balance, e, hleft, hin, rfl⟩
    obtain ⟨⟨he, -⟩, hdominates⟩ := h.leftBy_eq_some_iff.mp hleft
    refine ⟨hin, fun other hother hkey => ?_⟩
    obtain ⟨balance', e', he', hupto', rfl⟩ := hrows other hother
    obtain rfl := h.eq_of_key he' he hkey
    exact Int.ofNat_le.mpr (hdominates e' he' hupto')

/-! ## Against the snapshot -/

variable {checkpoint : UInt32}

/-- Under the id of a known balance the state holds what the snapshot says of it. -/
theorem balanceFor_eq (hsnapshot : IsSnapshot asset known ledgers checkpoint records)
    {balance : Hash} (hknown : known balance) :
    balanceFor (loadNetworkState records) (holderIdOf balance) =
      (firstOf balance (records.filterMap said)).map heldAs := by
  have hinjective : ∀ entry ∈ records.filterMap said,
      holderIdOf entry.1 = holderIdOf balance → entry.1 = balance := fun entry hentry hid =>
    h.ownId _ _ (hsnapshot.named entry hentry) hknown hid
  rw [balanceFor_load, ← firstOf_map holderIdOf heldAs hinjective, List.map_filterMap]
  rfl

/-- A live entry of the state is that of a balance that exists at the checkpoint. -/
theorem exists_of_balanceFor (hsnapshot : IsSnapshot asset known ledgers checkpoint records)
    {holderId assetId : Int64} {entry : NetHolding}
    (hheld : balanceFor (loadNetworkState records) holderId = some (entry, some assetId)) :
    ∃ balance seq amount, known balance ∧ holderId = holderIdOf balance ∧
      liveAt asset ledgers checkpoint balance = some (seq, asset balance, amount) ∧
      entry = liveHolding seq amount ∧ assetId = NetworkState.classicAsset (asset balance) := by
  have hfirst := hheld
  rw [balanceFor_load] at hfirst
  obtain ⟨record, hrecord, hsaidOf⟩ := List.mem_filterMap.mp (mem_of_firstOf hfirst)
  obtain ⟨⟨balance, left⟩, hsaid, heq⟩ := Option.map_eq_some_iff.mp hsaidOf
  obtain rfl : holderIdOf balance = holderId := (Prod.mk.inj heq).1
  have hknown : known balance :=
    hsnapshot.named _ (List.mem_filterMap.mpr ⟨record, hrecord, hsaid⟩)
  rw [h.balanceFor_eq hsnapshot hknown] at hheld
  obtain ⟨left, hleft, hheldAs⟩ := Option.map_eq_some_iff.mp hheld
  have hlive := hsnapshot.live balance hknown
  rw [hleft, Option.join_some] at hlive
  cases left with
  | none => cases hheldAs
  | some live =>
      obtain ⟨seq, own, amount⟩ := live
      obtain ⟨e, -, hmap⟩ := Option.bind_eq_some_iff.mp hlive.symm
      obtain ⟨amount', -, hsame⟩ := Option.map_eq_some_iff.mp hmap
      obtain rfl : asset balance = own := congrArg (·.2.1) hsame
      obtain ⟨rfl, hasset⟩ := Prod.mk.inj hheldAs
      exact ⟨balance, seq, amount, hknown, rfl, hlive.symm, rfl, (Option.some.inj hasset).symm⟩

/-- A balance that exists at the checkpoint is held live under its id. -/
theorem balanceFor_of_live (hsnapshot : IsSnapshot asset known ledgers checkpoint records)
    {balance : Hash} (hknown : known balance) {seq : UInt32} {amount : Int64}
    (hlive : liveAt asset ledgers checkpoint balance = some (seq, asset balance, amount)) :
    balanceFor (loadNetworkState records) (holderIdOf balance) =
      some (liveHolding seq amount, some (NetworkState.classicAsset (asset balance))) := by
  have hjoin := (hsnapshot.live balance hknown).trans hlive
  rw [h.balanceFor_eq hsnapshot hknown]
  cases hfirst : firstOf balance (records.filterMap said) with
  | none => rw [hfirst] at hjoin; cases hjoin
  | some left =>
      rw [hfirst, Option.join_some] at hjoin
      subst hjoin
      rfl

theorem netFor_of_live (hsnapshot : IsSnapshot asset known ledgers checkpoint records)
    {balance : Hash} (hknown : known balance) {seq : UInt32} {amount : Int64}
    (hlive : liveAt asset ledgers checkpoint balance = some (seq, asset balance, amount))
    (e : UInt32 × Closing) :
    netFor (loadNetworkState records) (rowOf asset balance e) = some (liveHolding seq amount) := by
  have hasset : (rowOf asset balance e).assetId = NetworkState.classicAsset (asset balance) :=
    congrArg HoldingKey.assetId (holdingKey_rowOf balance e)
  have hheld : balanceFor (loadNetworkState records) (rowOf asset balance e).holderId =
      some (liveHolding seq amount, some (NetworkState.classicAsset (asset balance))) :=
    h.balanceFor_of_live hsnapshot hknown hlive
  rw [netFor, hheld, Option.bind_some, hasset]
  exact if_neg fun hother => hother.2 rfl

/-- A balance that does not exist there is not held live. -/
theorem netFor_of_gone (hsnapshot : IsSnapshot asset known ledgers checkpoint records)
    {balance : Hash} (hknown : known balance)
    (hgone : liveAt asset ledgers checkpoint balance = none) (e : UInt32 × Closing) :
    liveBalance (netFor (loadNetworkState records) (rowOf asset balance e)) = none := by
  have hjoin := (hsnapshot.live balance hknown).trans hgone
  have hheld : balanceFor (loadNetworkState records) (rowOf asset balance e).holderId =
      (firstOf balance (records.filterMap said)).map heldAs := h.balanceFor_eq hsnapshot hknown
  rw [netFor, hheld]
  cases hfirst : firstOf balance (records.filterMap said) with
  | none => rfl
  | some left =>
      rw [hfirst, Option.join_some] at hjoin
      subst hjoin
      rfl

/-- The last word on a balance is not corrected: the snapshot says the same, or it is
older. -/
theorem correctionOf_eq_none (hsnapshot : IsSnapshot asset known ledgers checkpoint records)
    (hupto : checkpoint ≤ upto) {balance : Hash} {e : UInt32 × Closing}
    (hlast : leftBy ledgers upto balance = some e) :
    correctionOf (loadNetworkState records) checkpoint (rowOf asset balance e) = none := by
  have he := ((h.leftBy_eq_some_iff).mp hlast).1.1
  have hknown := h.known_of_touch he
  unfold correctionOf
  by_cases hafter : checkpoint.toNat ≤ e.1.toNat
  · have hnewer : (checkpoint.toNat : ℤ) ≤ (rowOf asset balance e).lastUpdatedLedger :=
      Int.ofNat_le.mpr hafter
    rw [verdict, if_pos hnewer]
    rfl
  · have hthen := h.leftBy_eq_of_le hlast (UInt32.le_iff_toNat_le.mp hupto)
      (not_le.mp hafter).le
    apply correction_eq_none_of_states
    obtain ⟨seq, left⟩ := e
    cases left with
    | live amount =>
        have hlive : liveAt asset ledgers checkpoint balance = some (seq, asset balance, amount) := by
          rw [liveAt, hthen]
          rfl
        rw [h.netFor_of_live hsnapshot hknown hlive]
        exact ⟨rfl, rfl⟩
    | removed =>
        have hgone : liveAt asset ledgers checkpoint balance = none := by
          rw [liveAt, hthen]
          rfl
        rw [h.netFor_of_gone hsnapshot hknown hgone]
        exact h.pos_of_touch he

/-- Over rows that are last words, the passes write a row for each balance that exists at
the checkpoint and has none. -/
theorem mem_written (hsnapshot : IsSnapshot asset known ledgers checkpoint records)
    (hupto : checkpoint ≤ upto) {order : DrainOrder (Int64 × NetHolding × Option Int64)}
    {rows : List OurRow}
    (hrows : ∀ row ∈ rows, ∃ balance e, leftBy ledgers upto balance = some e ∧
      row = rowOf asset balance e) {w : BalanceRow} :
    w ∈ (buildCorrections order (loadNetworkState records) checkpoint rows).1.rows ↔
      ∃ balance e, leftBy ledgers checkpoint balance = some e ∧ e.2.held.isSome ∧
        (∀ row ∈ rows, row.holderId ≠ holderIdOf balance) ∧ w = rowOf asset balance e := by
  have hnone : ∀ row ∈ rows, correctionOf (loadNetworkState records) checkpoint row = none := by
    intro row hrow
    obtain ⟨balance, e, hlast, rfl⟩ := hrows row hrow
    exact h.correctionOf_eq_none hsnapshot hupto hlast
  rw [mem_buildCorrections hnone fun _ _ => matched_load]
  constructor
  · rintro ⟨holderId, entry, assetId, hheld, -, hunclaimed, rfl⟩
    obtain ⟨balance, seq, amount, hknown, rfl, hlive, rfl, rfl⟩ := h.exists_of_balanceFor hsnapshot hheld
    obtain ⟨e, he, hmap⟩ := Option.bind_eq_some_iff.mp hlive
    obtain ⟨amount', hamount, heq⟩ := Option.map_eq_some_iff.mp hmap
    refine ⟨balance, e, he, by rw [hamount]; rfl, fun row hrow hholder => ?_, ?_⟩
    · -- a row of the balance claims its entry
      have hnet := hunclaimed row hrow hholder
      obtain ⟨balance', e', hlast, rfl⟩ := hrows row hrow
      obtain rfl := h.ownId _ _ (h.known_of_touch ((h.leftBy_eq_some_iff).mp hlast).1.1) hknown hholder
      rw [h.netFor_of_live hsnapshot hknown hlive] at hnet
      cases hnet
    · obtain ⟨seq', left⟩ := e
      cases left with
      | live own =>
          obtain rfl : own = amount' := Option.some.inj hamount
          obtain ⟨rfl, hrest⟩ := Prod.mk.inj heq
          obtain rfl : own = amount := (Prod.mk.inj hrest).2
          exact missingRow_eq balance seq' own
      | removed => cases hamount
  · rintro ⟨balance, e, he, hheld, hfree, rfl⟩
    obtain ⟨seq, left⟩ := e
    cases left with
    | live amount =>
        have hknown := h.known_of_touch ((h.leftBy_eq_some_iff).mp he).1.1
        have hlive : liveAt asset ledgers checkpoint balance = some (seq, asset balance, amount) := by
          rw [liveAt, he]
          rfl
        have hentry : balanceFor (loadNetworkState records) (holderIdOf balance) =
            some (liveHolding seq amount, some (NetworkState.classicAsset (asset balance))) :=
          h.balanceFor_of_live hsnapshot hknown hlive
        exact ⟨holderIdOf balance, liveHolding seq amount, _, hentry, rfl,
          fun row hrow hholder => absurd hholder (hfree row hrow),
          (missingRow_eq balance seq amount).symm⟩
    | removed => cases hheld

/-! ## The seed -/

/-- A covered checkpoint is not before the writer's first ledger. -/
theorem writer_le_of_covered {table : List BalanceRow}
    (htable : ∀ row ∈ table, row ∈ writerRows ledgers writer upto)
    (hcovered : writerCoverage (firstWriterTombstone table) checkpoint = .ok ()) :
    writer.toNat ≤ checkpoint.toNat := by
  cases hfirst : firstWriterTombstone table with
  | none => rw [hfirst] at hcovered; cases hcovered
  | some first =>
      have hle : first ≤ checkpoint.toNat := by
        rw [hfirst, writerCoverage] at hcovered
        split at hcovered
        · cases hcovered
        · rename_i hnot
          exact not_lt.mp hnot
      obtain ⟨row, hrow, rfl⟩ := List.mem_map.mp (List.min?_mem hfirst)
      obtain ⟨hrow, hclosed⟩ := List.mem_filter.mp hrow
      obtain ⟨balance, e, -, hwriter, -, rfl⟩ := h.mem_writerRows.mp (htable row hrow)
      have hclosed := of_decide_eq_true hclosed
      obtain ⟨seq, left⟩ := e
      cases left with
      | live amount => exact absurd hclosed (lt_irrefl 0)
      | removed => exact hwriter.trans (Int.ofNat_le.mp hle)

/-- A balance that exists at the checkpoint is recorded later or has kept its last word. -/
theorem exists_leftBy (hwriter : writer.toNat ≤ checkpoint.toNat) (hupto : checkpoint ≤ upto)
    {balance : Hash} {e : UInt32 × Closing} (he : leftBy ledgers checkpoint balance = some e) :
    ∃ last, leftBy ledgers upto balance = some last ∧
      (writer.toNat ≤ last.1.toNat ∨ last = e) := by
  have hle := UInt32.le_iff_toNat_le.mp hupto
  obtain ⟨⟨hmem, hbefore⟩, -⟩ := (h.leftBy_eq_some_iff).mp he
  cases hlast : leftBy ledgers upto balance with
  | none => exact absurd (hbefore.trans hle) (not_le.mpr (asOf_eq_none_iff.mp hlast e hmem))
  | some last =>
      refine ⟨last, rfl, ?_⟩
      by_cases hrecorded : writer.toNat ≤ last.1.toNat
      · exact .inl hrecorded
      · have hthen := h.leftBy_eq_of_le hlast hle ((not_le.mp hrecorded).le.trans hwriter)
        exact .inr (Option.some.inj (hthen.symm.trans he))

theorem rowOf_mem_writerRows {balance : Hash} {e : UInt32 × Closing}
    (he : e ∈ touches ledgers balance) :
    rowOf asset balance e ∈ writerRows ledgers writer upto ↔
      writer.toNat ≤ e.1.toNat ∧ e.1.toNat ≤ upto.toNat := by
  rw [h.mem_writerRows]
  constructor
  · rintro ⟨balance', e', he', hwriter, hupto, heq⟩
    have hseq : (e.1.toNat : ℤ) = e'.1.toNat := congrArg BalanceRow.lastUpdatedLedger heq
    rw [Int.ofNat_inj.mp hseq]
    exact ⟨hwriter, hupto⟩
  · exact fun hrange => ⟨balance, e, he, hrange.1, hrange.2, rfl⟩

section

variable (order : DrainOrder (Int64 × NetHolding × Option Int64)) {ours : List BalanceRow}
  (hsnapshot : IsSnapshot asset known ledgers checkpoint records) (hupto : checkpoint ≤ upto)
  (hwriter : writer.toNat ≤ checkpoint.toNat)
  (hours : IsRead BalanceRow.holdingKey BalanceRow.lastUpdatedLedger
    (writerRows ledgers writer upto) ours)
include hsnapshot hupto hwriter hours

omit hsnapshot hupto hwriter in
/-- Of our rows a read takes the last touch of each balance, if the writer recorded it. -/
theorem mem_ours (row : BalanceRow) :
    row ∈ ours ↔ ∃ balance e, leftBy ledgers upto balance = some e ∧
      writer.toNat ≤ e.1.toNat ∧ row = rowOf asset balance e := by
  have hread : Read (writerRows ledgers writer upto) row ↔
      ∃ balance e, leftBy ledgers upto balance = some e ∧
        rowOf asset balance e ∈ writerRows ledgers writer upto ∧ row = rowOf asset balance e := by
    refine h.read_iff upto (fun row hrow => ?_) fun balance e he hin last hlast => ?_
    · obtain ⟨balance, e, he, -, hupto, rfl⟩ := h.mem_writerRows.mp hrow
      exact ⟨balance, e, he, hupto, rfl⟩
    · obtain ⟨hrecorded, hbefore⟩ := (h.rowOf_mem_writerRows he).mp hin
      obtain ⟨⟨hmem, hle⟩, hdominates⟩ := (h.leftBy_eq_some_iff).mp hlast
      exact (h.rowOf_mem_writerRows hmem).mpr
        ⟨hrecorded.trans (hdominates e he hbefore), hle⟩
  have hrecords : ∀ {balance e}, leftBy ledgers upto balance = some e →
      (rowOf asset balance e ∈ writerRows ledgers writer upto ↔ writer.toNat ≤ e.1.toNat) := by
    intro balance e hlast
    obtain ⟨hmem, hle⟩ := ((h.leftBy_eq_some_iff).mp hlast).1
    rw [h.rowOf_mem_writerRows hmem, and_iff_left hle]
  calc row ∈ ours ↔ Read (writerRows ledgers writer upto) row := hours.mem_iff row
    _ ↔ ∃ balance e, leftBy ledgers upto balance = some e ∧
          rowOf asset balance e ∈ writerRows ledgers writer upto ∧ row = rowOf asset balance e :=
        hread
    _ ↔ ∃ balance e, leftBy ledgers upto balance = some e ∧
          writer.toNat ≤ e.1.toNat ∧ row = rowOf asset balance e :=
        exists_congr fun balance => exists_congr fun e => and_congr_right fun hlast =>
          and_congr_left fun _ => hrecords hlast

/-- What our table and the rows of a run hold: every touch the writer recorded, and the
last one of each balance it has not recorded and that exists. -/
theorem mem_seeded (row : BalanceRow) :
    row ∈ writerRows ledgers writer upto ++
        (buildCorrections order (loadNetworkState records) checkpoint ours).1.rows ↔
      ∃ balance, ∃ e ∈ touches ledgers balance, e.1.toNat ≤ upto.toNat ∧
        (writer.toNat ≤ e.1.toNat ∨ leftBy ledgers upto balance = some e ∧ e.2.held.isSome) ∧
        row = rowOf asset balance e := by
  have hours := h.mem_ours hours
  -- a row of ours is the last touch of its balance
  have hlastWords : ∀ row ∈ ours, ∃ balance e, leftBy ledgers upto balance = some e ∧
      row = rowOf asset balance e := by
    intro row hrow
    obtain ⟨balance, e, hlast, -, heq⟩ := (hours row).mp hrow
    exact ⟨balance, e, hlast, heq⟩
  rw [List.mem_append, h.mem_writerRows, h.mem_written hsnapshot hupto hlastWords]
  constructor
  · rintro (⟨balance, e, he, hrecorded, hbefore, rfl⟩ | ⟨balance, e, he, hheld, hfree, rfl⟩)
    · exact ⟨balance, e, he, hbefore, .inl hrecorded, rfl⟩
    · obtain ⟨last, hlast, hrecorded | rfl⟩ := h.exists_leftBy hwriter hupto he
      · exact absurd rfl (hfree _ ((hours _).mpr ⟨balance, last, hlast, hrecorded, rfl⟩))
      · obtain ⟨hmem, hle⟩ := ((h.leftBy_eq_some_iff).mp hlast).1
        exact ⟨balance, last, hmem, hle, .inr ⟨hlast, hheld⟩, rfl⟩
  · rintro ⟨balance, e, he, hle, hword, rfl⟩
    by_cases hrecorded : writer.toNat ≤ e.1.toNat
    · exact .inl ⟨balance, e, he, hrecorded, hle, rfl⟩
    · obtain ⟨hlast, hheld⟩ := hword.resolve_left hrecorded
      -- nothing touched it since, so the snapshot shows it as it is
      have hthen := h.leftBy_eq_of_le hlast (UInt32.le_iff_toNat_le.mp hupto)
        ((not_le.mp hrecorded).le.trans hwriter)
      refine .inr ⟨balance, e, hthen, hheld, fun row hrow hholder => ?_, rfl⟩
      obtain ⟨balance', e', hlast', hrecorded', rfl⟩ := (hours row).mp hrow
      obtain rfl := h.ownId _ _ (h.known_of_touch ((h.leftBy_eq_some_iff).mp hlast').1.1)
        (h.known_of_touch he) hholder
      obtain rfl := Option.some.inj (hlast'.symm.trans hlast)
      exact hrecorded hrecorded'

/-- What is read after a run: the last touch of each balance that exists or was recorded. -/
theorem read_seeded (row : BalanceRow) :
    Read (writerRows ledgers writer upto ++
        (buildCorrections order (loadNetworkState records) checkpoint ours).1.rows) row ↔
      ∃ balance e, leftBy ledgers upto balance = some e ∧
        (writer.toNat ≤ e.1.toNat ∨ e.2.held.isSome) ∧ row = rowOf asset balance e := by
  have hseeded := h.mem_seeded order hsnapshot hupto hwriter hours
  -- a touch has its own row, by its balance and its ledger
  have hown : ∀ balance, ∀ e ∈ touches ledgers balance, rowOf asset balance e ∈
      writerRows ledgers writer upto ++
      (buildCorrections order (loadNetworkState records) checkpoint ours).1.rows ↔
        e.1.toNat ≤ upto.toNat ∧
          (writer.toNat ≤ e.1.toNat ∨ leftBy ledgers upto balance = some e ∧ e.2.held.isSome) := by
    intro balance e he
    rw [hseeded]
    constructor
    · rintro ⟨balance', e', he', hle, hword, heq⟩
      obtain rfl := h.eq_of_key he he' (congrArg BalanceRow.holdingKey heq)
      have hseq : (e.1.toNat : ℤ) = e'.1.toNat := congrArg BalanceRow.lastUpdatedLedger heq
      obtain rfl := eq_of_time (h.increasing_touches balance) he he' (Int.ofNat_inj.mp hseq)
      exact ⟨hle, hword⟩
    · exact fun hword => ⟨balance, e, he, hword.1, hword.2, rfl⟩
  rw [h.read_iff upto (fun row hrow => ?_) fun balance e he hin last hlast => ?_]
  · refine exists_congr fun balance => exists_congr fun e => and_congr_right fun hlast =>
      and_congr_left fun _ => ?_
    obtain ⟨hmem, hle⟩ := ((h.leftBy_eq_some_iff).mp hlast).1
    rw [hown balance e hmem, and_iff_right hle, and_iff_right hlast]
  · obtain ⟨balance, e, he, hle, -, rfl⟩ := (hseeded row).mp hrow
    exact ⟨balance, e, he, hle, rfl⟩
  · obtain ⟨⟨hmem, hle⟩, hdominates⟩ := (h.leftBy_eq_some_iff).mp hlast
    obtain ⟨hbefore, hrecorded | ⟨hlast', hheld⟩⟩ := (hown balance e he).mp hin
    · exact (hown balance last hmem).mpr ⟨hle, .inl (hrecorded.trans (hdominates e he hbefore))⟩
    · obtain rfl := Option.some.inj (hlast'.symm.trans hlast)
      exact hin

/-- Every known balance is read as it is. -/
theorem readsTruly_seeded {balance : Hash} (hknown : known balance) :
    ReadsTruly asset ledgers upto (writerRows ledgers writer upto ++
      (buildCorrections order (loadNetworkState records) checkpoint ours).1.rows) balance := by
  have hread := h.read_seeded order hsnapshot hupto hwriter hours
  -- a row under the id of the balance is of its last touch
  have hown : ∀ row, Read (writerRows ledgers writer upto ++
      (buildCorrections order (loadNetworkState records) checkpoint ours).1.rows) row →
      row.holderId = holderIdOf balance →
      ∃ e, leftBy ledgers upto balance = some e ∧ row = rowOf asset balance e := by
    intro row hrow hholder
    obtain ⟨balance', e, hlast, -, rfl⟩ := (hread row).mp hrow
    obtain rfl := h.ownId _ _ (h.known_of_touch ((h.leftBy_eq_some_iff).mp hlast).1.1) hknown hholder
    exact ⟨e, hlast, rfl⟩
  unfold ReadsTruly liveAt
  cases hlast : leftBy ledgers upto balance with
  | none =>
      intro row hrow hholder
      obtain ⟨e, he, -⟩ := hown row hrow hholder
      rw [hlast] at he
      cases he
  | some e =>
      obtain ⟨seq, left⟩ := e
      cases left with
      | removed =>
          intro row hrow hholder
          obtain ⟨e, he, rfl⟩ := hown row hrow hholder
          obtain rfl := Option.some.inj (hlast.symm.trans he)
          exact h.pos_of_touch ((h.leftBy_eq_some_iff).mp hlast).1.1
      | live amount =>
          refine ⟨rowOf asset balance (seq, .live amount), ?_, rfl, fun other => ⟨?_, ?_⟩⟩
          · exact congrArg HoldingKey.assetId (holdingKey_rowOf balance _)
          · rintro ⟨hrow, hholder, -⟩
            obtain ⟨e, he, rfl⟩ := hown other hrow hholder
            rw [Option.some.inj (hlast.symm.trans he)]
          · rintro rfl
            exact ⟨(hread _).mpr ⟨balance, _, hlast, .inr rfl, rfl⟩, rfl, rfl⟩

omit hsnapshot hupto hwriter hours in
theorem read_merged {table : List BalanceRow}
    (htable : Merges BalanceRow.holdingKey BalanceRow.lastUpdatedLedger
      (writerRows ledgers writer upto) table) (row : BalanceRow) :
    Read table row ↔ Read (writerRows ledgers writer upto) row := by
  refine survives_merged_iff htable fun a ha b hb hkey hledger => ?_
  obtain ⟨balance, e, he, -, -, rfl⟩ := h.mem_writerRows.mp ha
  obtain ⟨balance', e', he', -, -, rfl⟩ := h.mem_writerRows.mp hb
  exact h.rowOf_inj he he' hkey hledger

/-- So is a merge of them and the rows of a run. -/
theorem read_seeded_merged {seeded : List BalanceRow}
    (hseeded : Merges BalanceRow.holdingKey BalanceRow.lastUpdatedLedger
      (writerRows ledgers writer upto ++
        (buildCorrections order (loadNetworkState records) checkpoint ours).1.rows) seeded)
    (row : BalanceRow) :
    Read seeded row ↔ Read (writerRows ledgers writer upto ++
      (buildCorrections order (loadNetworkState records) checkpoint ours).1.rows) row := by
  have hmem := h.mem_seeded order hsnapshot hupto hwriter hours
  refine survives_merged_iff hseeded fun a ha b hb hkey hledger => ?_
  obtain ⟨balance, e, he, -, -, rfl⟩ := (hmem a).mp ha
  obtain ⟨balance', e', he', -, -, rfl⟩ := (hmem b).mp hb
  exact h.rowOf_inj he he' hkey hledger

/-- A run over what is read after the first one finds nothing to write. -/
theorem buildCorrections_again {order' : DrainOrder (Int64 × NetHolding × Option Int64)}
    {again : List BalanceRow}
    (hagain : IsRead BalanceRow.holdingKey BalanceRow.lastUpdatedLedger
      (writerRows ledgers writer upto ++
        (buildCorrections order (loadNetworkState records) checkpoint ours).1.rows) again) :
    (buildCorrections order' (loadNetworkState records) checkpoint again).1.rows = [] := by
  have hread := h.read_seeded order hsnapshot hupto hwriter hours
  have hlastWords : ∀ row ∈ again, ∃ balance e, leftBy ledgers upto balance = some e ∧
      row = rowOf asset balance e := by
    intro row hrow
    obtain ⟨balance, e, hlast, -, heq⟩ := (hread row).mp ((hagain.mem_iff row).mp hrow)
    exact ⟨balance, e, hlast, heq⟩
  rw [List.eq_nil_iff_forall_not_mem]
  intro w hw
  obtain ⟨balance, e, he, hheld, hfree, -⟩ := (h.mem_written hsnapshot hupto hlastWords).mp hw
  obtain ⟨last, hlast, hword⟩ := h.exists_leftBy hwriter hupto he
  have hword : writer.toNat ≤ last.1.toNat ∨ last.2.held.isSome :=
    hword.imp_right fun heq => by rw [heq]; exact hheld
  exact hfree _ ((hagain.mem_iff _).mpr ((hread _).mpr ⟨balance, last, hlast, hword, rfl⟩)) rfl

end

end ClaimableChain

theorem readsTruly_congr {table table' : List BalanceRow} {ledger : UInt32}
    (h : ∀ row, Read table row ↔ Read table' row) (balance : Hash) :
    ReadsTruly asset ledgers ledger table balance ↔
      ReadsTruly asset ledgers ledger table' balance := by
  simp only [ReadsTruly, h]

/-- After a seed from a covered checkpoint every known balance is read as it is at our
ledger, and a second run writes nothing; the table may be merged before the seed and after
it. -/
theorem claimableSeed_truthful {checkpoint : UInt32} {table ours : List BalanceRow}
    (order order' : DrainOrder (Int64 × NetHolding × Option Int64))
    (hchain : ClaimableChain asset known writer ledgers)
    (hsnapshot : IsSnapshot asset known ledgers checkpoint records) (hupto : checkpoint ≤ upto)
    (hcovered : writerCoverage (firstWriterTombstone table) checkpoint = .ok ())
    (htable : Merges BalanceRow.holdingKey BalanceRow.lastUpdatedLedger
      (writerRows ledgers writer upto) table)
    (hours : IsRead BalanceRow.holdingKey BalanceRow.lastUpdatedLedger table ours) :
    ∀ seeded, Merges BalanceRow.holdingKey BalanceRow.lastUpdatedLedger (table ++
        (buildCorrections order (loadNetworkState records) checkpoint ours).1.rows) seeded →
      (∀ balance, known balance → ReadsTruly asset ledgers upto seeded balance) ∧
      ∀ again, IsRead BalanceRow.holdingKey BalanceRow.lastUpdatedLedger seeded again →
        (buildCorrections order' (loadNetworkState records) checkpoint again).1.rows = [] := by
  intro seeded hseeded
  have hwriter : writer.toNat ≤ checkpoint.toNat :=
    hchain.writer_le_of_covered htable.mem hcovered
  have hours : IsRead BalanceRow.holdingKey BalanceRow.lastUpdatedLedger
      (writerRows ledgers writer upto) ours :=
    ⟨hours.nodup, fun row => (hours.mem_iff row).trans (hchain.read_merged htable row)⟩
  have hread := hchain.read_seeded_merged order hsnapshot hupto hwriter hours
    ((htable.append _).trans hseeded)
  refine ⟨fun balance hknown => ?_, fun again hagain => ?_⟩
  · exact (readsTruly_congr hread balance).mpr
      (hchain.readsTruly_seeded order hsnapshot hupto hwriter hours hknown)
  · exact hchain.buildCorrections_again order hsnapshot hupto hwriter hours
      ⟨hagain.nodup, fun row => (hagain.mem_iff row).trans (hread row)⟩

/-! ## Two balances -/

/-- Another balance whose id the repository's tests pin. -/
def keptBalance : Hash :=
  0x6e18eca78c9ac43059e5c5d8f9789c14f8f8152c1ae5b0fcde85be461f870acc

/-- The third-party functions on this one as well. -/
@[reducible] def Crates.pinnedClaimables : Crates :=
  { Crates.pinnedClaimable with
    scAddressStrkey := fun address =>
      if address = .claimableBalance keptBalance then
        "BAAG4GHMU6GJVRBQLHS4LWHZPCOBJ6HYCUWBVZNQ7TPILPSGD6DQVTCBEM"
      else Crates.pinnedClaimable.scAddressStrkey address
    cityhash128 := fun text =>
      if text = "BAAG4GHMU6GJVRBQLHS4LWHZPCOBJ6HYCUWBVZNQ7TPILPSGD6DQVTCBEM" then
        (1280410223283636341 : Int64).toBitVec.setWidth 128
      else Crates.pinnedClaimable.cityhash128 text }

def keptClaimable : ClaimableBalanceEntry :=
  { balanceId := keptBalance, claimants := [Crates.pinnedAccount], asset := .native
    amount := 700 }

/-- One balance is created before the writer runs and stays; the other comes and goes while it
runs. -/
def keptAndClaimed : List ClaimableLedger :=
  [⟨64400000, 0, [("aa", .v4 [] [{
      changes := [.created ⟨64400000, .claimableBalance keptClaimable⟩], events := [] }] [] none
      [] [])]⟩,
    ⟨64400001, 0, [("bb", .v4 [] [{ changes := [.created pinnedClaimable], events := [] }] [] none
      [] [])]⟩,
    ⟨64400002, 0, [("cc", .v4 [] [{
      changes := [.state pinnedClaimable, .removed (.claimableBalance pinnedBalance)]
      events := [] }] [] none [] [])]⟩]

omit [Crates] in
theorem known_of_last {ledger : ClaimableLedger} (hledger : ledger ∈ keptAndClaimed)
    {balance : Hash} (htouched : (ledger.last balance).isSome) :
    balance = keptBalance ∨ balance = pinnedBalance := by
  obtain ⟨closing, hclosing⟩ := Option.isSome_iff_exists.mp htouched
  have hmem : (balance, closing) ∈ ledger.changes.filterMap LedgerEntryChange.claimableLeft :=
    mem_of_lastOf hclosing
  simp only [keptAndClaimed, List.mem_cons, List.not_mem_nil, or_false] at hledger
  rcases hledger with rfl | rfl | rfl
  · exact .inl (congrArg Prod.fst (List.mem_singleton.mp hmem))
  · exact .inr (congrArg Prod.fst (List.mem_singleton.mp hmem))
  · exact .inr (congrArg Prod.fst (List.mem_singleton.mp hmem))

omit [Crates] in
theorem claimableChain_keptAndClaimed :
    @ClaimableChain Crates.pinnedClaimables (fun _ => .native)
      (fun balance => balance = keptBalance ∨ balance = pinnedBalance) 64400001
      keptAndClaimed := by
  let _ : Crates := Crates.pinnedClaimables
  refine ⟨by decide, by decide, fun ledger hledger _ tx htx => ?_,
    fun ledger hledger balance => known_of_last hledger, ?_⟩
  · simp only [keptAndClaimed, List.mem_cons, List.not_mem_nil, or_false] at hledger
    rcases hledger with rfl | rfl | rfl <;>
    · obtain rfl := List.mem_singleton.mp htx
      simp [ClaimableImaged, ledgerChanges, LedgerEntryChange.claimableImage, pinnedClaimable,
        keptClaimable, LedgerEntryChange.claimableRemoved]
  · rintro balance balance' (rfl | rfl) (rfl | rfl) hid
    · rfl
    · exact absurd hid (by decide)
    · exact absurd hid (by decide)
    · rfl

omit [Crates] in
/-- The table is merged down to the tombstone of the claimed balance; the seed inserts the
other one, and a second run nothing. -/
theorem claimableSeed_truthful_keptAndClaimed :
    let _ : Crates := Crates.pinnedClaimables
    let records : List SnapshotRecord :=
      [.live ⟨64400000, .claimableBalance keptClaimable⟩, .dead (.claimableBalance pinnedBalance)]
    let tombstone : BalanceRow :=
      ⟨-2589523374225099532, Ids.nativeAssetId, 0, 64400002, 64400002⟩
    let inserted : BalanceRow := ⟨1280410223283636341, Ids.nativeAssetId, 700, 64400000, 0⟩
    (writerRows keptAndClaimed 64400001 64400100).length = 2 ∧
      (buildCorrections .stored (loadNetworkState records) 64400063 [tombstone]).1.rows =
        [inserted] ∧
      ReadsTruly (fun _ => .native) keptAndClaimed 64400100 [tombstone, inserted] keptBalance ∧
      ReadsTruly (fun _ => .native) keptAndClaimed 64400100 [tombstone, inserted] pinnedBalance ∧
      (buildCorrections .stored (loadNetworkState records) 64400063
        [tombstone, inserted]).1.rows = [] := by
  intro _ records tombstone inserted
  have hsnapshot : IsSnapshot (fun _ => .native)
      (fun balance => balance = keptBalance ∨ balance = pinnedBalance) keptAndClaimed 64400063
      records := by
    constructor
    · decide
    · rintro balance (rfl | rfl) <;> decide
  have hrows : writerRows keptAndClaimed 64400001 64400100 =
      [⟨-2589523374225099532, Ids.nativeAssetId, 500, 64400001, 0⟩, tombstone] := by decide
  -- the merge keeps the newest row of the holding
  have hmerged : Merges BalanceRow.holdingKey BalanceRow.lastUpdatedLedger
      (writerRows keptAndClaimed 64400001 64400100) [tombstone] := by
    rw [hrows]
    constructor
    · exact fun row hrow => List.mem_cons_of_mem _ hrow
    · intro row hrow
      refine ⟨tombstone, List.mem_cons_self, ?_⟩
      rcases List.mem_pair.mp hrow with rfl | rfl
      · exact ⟨rfl, by decide⟩
      · exact ⟨rfl, le_rfl⟩
  have hread : ∀ table : List BalanceRow, (table.map BalanceRow.holdingKey).Nodup →
      IsRead BalanceRow.holdingKey BalanceRow.lastUpdatedLedger table table := by
    intro table hnodup
    refine ⟨hnodup, fun row => ⟨fun hrow => ⟨hrow, fun other hother hkey => ?_⟩, fun h => h.1⟩⟩
    rw [Versioned.eq_of_key hnodup hother hrow hkey]
  have hfirst : firstWriterTombstone [tombstone] = some 64400002 := by decide
  have hcovered : writerCoverage (firstWriterTombstone [tombstone]) 64400063 = .ok () := by
    have hbefore : ¬ ((64400063 : UInt32).toNat : ℤ) < 64400002 := by decide
    rw [hfirst, writerCoverage, if_neg hbefore]
  -- no row of ours is of the other balance
  have hinserted : (buildCorrections .stored (loadNetworkState records) 64400063
      [tombstone]).1.rows = [inserted] := by
    decide
  obtain ⟨htrue, hagain⟩ := claimableSeed_truthful .stored .stored claimableChain_keptAndClaimed
    hsnapshot (by decide) hcovered hmerged (hread _ (List.nodup_singleton _)) _ (merges_refl _)
  rw [hinserted] at htrue hagain
  exact ⟨by rw [hrows]; rfl, hinserted, htrue _ (.inl rfl), htrue _ (.inr rfl),
    hagain _ (hread _ (by decide))⟩

end SorobanExplorer.Claimable
