import SorobanExplorer.Persist.Balances
import SorobanExplorer.Snapshot.NetworkState

/-!
# Our row against the network's

One rule compares a row of ours with what the snapshot holds under its key, and one
says which row the comparison writes.  `correction_spec` says what the two do
together: a correction is newer than the row and states what the network holds; and
where there is none, the row does so already, is as new as the snapshot, or is kept
on purpose.
-/

namespace SorobanExplorer

open KeyedFold

/-- One of our deduplicated `balances` rows. -/
abbrev OurRow := BalanceRow

def BalanceRow.holdingKey (row : BalanceRow) : HoldingKey :=
  ⟨row.holderId, row.assetId⟩

inductive Verdict
  | alreadyClosed
  | closedButLive
  | closedButLiveConflict
  | agree
  | healFromSnapshot
  | divergentOursNewer
  | divergentSameLedger
  | stale
  | closure
  | ghost
  | newerThanCheckpoint
  deriving DecidableEq

/-- A row, what the network holds for its key, and the checkpoint. -/
def verdict (row : OurRow) (snap : Option NetHolding) (checkpoint : UInt32) : Verdict :=
  -- the snapshot cannot know of a row touched at or after it
  if (checkpoint.toNat : ℤ) ≤ row.lastUpdatedLedger then .newerThanCheckpoint
  else if row.closedAtLedger ≠ 0 then
    match snap.filter (·.live) with
    | some e =>
        if row.lastUpdatedLedger < e.ledger.toNat then .closedButLive else .closedButLiveConflict
    | none => .alreadyClosed
  else
    match snap.filter (·.live) with
    | some e =>
        if e.balance.toInt ≠ row.amount then
          if row.lastUpdatedLedger < e.ledger.toNat then .healFromSnapshot
          else if e.ledger.toNat < row.lastUpdatedLedger then .divergentOursNewer
          else .divergentSameLedger
        else if row.lastUpdatedLedger < e.ledger.toNat then .stale
        else .agree
    | none => if row.amount = 0 then .closure else .ghost

structure Correction where
  amount : ℤ
  lastUpdatedLedger : ℤ
  closedAtLedger : ℤ

/-- What a verdict writes; nothing for one that is only reported. -/
def correction (v : Verdict) (net : Option NetHolding) (checkpoint : UInt32) : Option Correction :=
  match v with
  | .alreadyClosed | .agree | .divergentOursNewer | .stale | .divergentSameLedger
  | .closedButLiveConflict | .newerThanCheckpoint => none
  | .closedButLive | .healFromSnapshot =>
      net.map fun e => ⟨e.balance.toInt, e.ledger.toNat, 0⟩
  | .closure | .ghost => some ⟨0, checkpoint.toNat, checkpoint.toNat⟩

/-- Native lives on the account, everything else is a trustline. -/
def holdingFor (state : NetworkState) (key : HoldingKey) : Option NetHolding :=
  if key.assetId = Ids.nativeAssetId then state.accounts.lookup key.holderId
  else state.trustlines.lookup key

def NetHolding.claimed (e : NetHolding) : NetHolding :=
  { e with matched := true }

/-- Claims the network's holding for a row, and hands back a copy. -/
def claim (state : NetworkState) (row : OurRow) : NetworkState × Option NetHolding :=
  let state :=
    if row.assetId = Ids.nativeAssetId then
      { state with
        accounts := modifyWhere (· = row.holderId) NetHolding.claimed state.accounts }
    else
      { state with
        trustlines := modifyWhere (· = row.holdingKey) NetHolding.claimed state.trustlines }
  (state, holdingFor state row.holdingKey)

/-! ## What the rule does -/

/-- The verdicts that keep a row although the network says otherwise. -/
def Verdict.keepsOurs : Verdict → Bool
  | .divergentOursNewer | .divergentSameLedger | .closedButLiveConflict => true
  | _ => false

/-- What the network holds: a balance, or nothing. -/
def liveBalance (net : Option NetHolding) : Option Int64 :=
  (net.filter (·.live)).map (·.balance)

/-- An amount and a closing ledger that state a holding: live with its balance, or
closed. -/
def States (value : Option Int64) (amount closedAtLedger : ℤ) : Prop :=
  match value with
  | some balance => amount = balance.toInt ∧ closedAtLedger = 0
  | none => closedAtLedger ≠ 0

variable {row : OurRow} {net : Option NetHolding} {checkpoint : UInt32}

theorem verdict_map_claimed :
    verdict row (net.map NetHolding.claimed) checkpoint = verdict row net checkpoint := by
  cases net with
  | none => rfl
  | some e =>
      obtain ⟨live, ledger, balance, matched⟩ := e
      cases live <;> rfl

theorem correction_map_claimed (v : Verdict) :
    correction v (net.map NetHolding.claimed) checkpoint = correction v net checkpoint := by
  cases v <;> cases net <;> rfl

theorem filter_live_eq_some {e : NetHolding} (h : net.filter (·.live) = some e) :
    net = some e ∧ e.live := by
  rw [Option.filter_eq_some_iff] at h
  exact h

theorem states_adopted {e : NetHolding} (h : net.filter (·.live) = some e) :
    States (liveBalance net) e.balance.toInt 0 := by
  rw [liveBalance, h]
  exact ⟨rfl, rfl⟩

theorem states_closed (h : net.filter (·.live) = none) {ledger : ℤ} (hledger : ledger ≠ 0) :
    States (liveBalance net) 0 ledger := by
  rw [liveBalance, h]
  exact hledger

/-- A correction is newer than the row, which is older than the checkpoint, and
states what the network holds. -/
theorem correction_spec (hcheckpoint : 0 < checkpoint) {c : Correction}
    (h : correction (verdict row net checkpoint) net checkpoint = some c) :
    row.lastUpdatedLedger < checkpoint.toNat ∧ row.lastUpdatedLedger < c.lastUpdatedLedger ∧
      States (liveBalance net) c.amount c.closedAtLedger := by
  have hpos : (checkpoint.toNat : ℤ) ≠ 0 := by
    have hlt := UInt32.lt_iff_toNat_lt.mp hcheckpoint
    rw [UInt32.toNat_zero] at hlt
    omega
  unfold verdict at h
  split at h
  · cases h
  · rename_i hbefore
    have hbefore : row.lastUpdatedLedger < checkpoint.toNat := not_le.mp hbefore
    refine ⟨hbefore, ?_⟩
    split at h
    · -- closed by us: an entry live at a newer ledger re-opens the row at that ledger
      split at h
      · rename_i e hlive
        obtain ⟨hnet, -⟩ := filter_live_eq_some hlive
        split at h
        · rename_i hnewer
          rw [correction, hnet, Option.map_some, Option.some.injEq] at h
          subst h
          exact ⟨hnewer, states_adopted hlive⟩
        · cases h
      · cases h
    · split at h
      · rename_i e hlive
        obtain ⟨hnet, -⟩ := filter_live_eq_some hlive
        split at h
        · split at h
          · rename_i hnewer
            rw [correction, hnet, Option.map_some, Option.some.injEq] at h
            subst h
            exact ⟨hnewer, states_adopted hlive⟩
          · split at h <;> cases h
        · split at h <;> cases h
      · -- gone from the network: closed at the checkpoint
        rename_i hgone
        split at h <;>
        · rw [correction, Option.some.injEq] at h
          subst h
          exact ⟨hbefore, states_closed hgone hpos⟩

/-- Without a correction the row is as new as the snapshot, is kept on purpose, or
states what the network holds. -/
theorem states_of_correction_eq_none
    (h : correction (verdict row net checkpoint) net checkpoint = none) :
    (checkpoint.toNat : ℤ) ≤ row.lastUpdatedLedger ∨ (verdict row net checkpoint).keepsOurs ∨
      States (liveBalance net) row.amount row.closedAtLedger := by
  unfold verdict at h ⊢
  split at h
  · exact .inl ‹_›
  · rename_i hbefore
    right
    rw [if_neg hbefore]
    split at h
    · rename_i hclosed
      rw [if_pos hclosed]
      split at h
      · rename_i e hlive
        -- the network has the holding and we call it closed: that is corrected
        obtain ⟨hnet, -⟩ := filter_live_eq_some hlive
        split at h
        · rw [correction, hnet] at h
          cases h
        · rename_i holder
          left
          rw [if_neg holder]
          rfl
      · rename_i hgone
        right
        rw [liveBalance, hgone]
        exact hclosed
    · rename_i hopen
      rw [if_neg hopen]
      split at h
      · rename_i e hlive
        obtain ⟨hnet, -⟩ := filter_live_eq_some hlive
        split at h
        · rename_i hdiffers
          split at h
          · rw [correction, hnet] at h
            cases h
          · rename_i holder
            left
            rw [if_pos hdiffers, if_neg holder]
            split <;> rfl
        · rename_i hsame
          right
          rw [liveBalance, hlive]
          exact ⟨(not_not.mp hsame).symm, not_not.mp hopen⟩
      · split at h <;> cases h

/-- A row that states what the network holds is not corrected. -/
theorem correction_eq_none_of_states (h : States (liveBalance net) row.amount row.closedAtLedger) :
    correction (verdict row net checkpoint) net checkpoint = none := by
  unfold verdict
  split
  · rfl
  · rw [liveBalance] at h
    cases hlive : net.filter (·.live) with
    | some e =>
        rw [hlive] at h
        have hstates : row.amount = e.balance.toInt ∧ row.closedAtLedger = 0 := h
        rw [if_neg (not_not.mpr hstates.2)]
        simp only [hstates.1, ne_eq, not_true_eq_false, if_false]
        split <;> rfl
    | none =>
        rw [hlive] at h
        have hclosed : row.closedAtLedger ≠ 0 := h
        rw [if_pos hclosed]
        rfl

end SorobanExplorer
