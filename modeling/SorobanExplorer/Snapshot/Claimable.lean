import SorobanExplorer.Snapshot.Balances

/-!
# The checkpoint seed's claimable balances

The comparison is that of the balances, keyed by the balance alone: a dead record has
no asset.  A seed may write only once the writer of the table is known to have run
since before the checkpoint.
-/

namespace SorobanExplorer.Claimable

open KeyedFold

def TABLE : String := "claimable_balance_holdings"

abbrev ClaimableCorrections := BalanceCorrections

/-- The ledger of the first closed row. -/
def firstWriterTombstone (table : List BalanceRow) : Option ℤ :=
  ((table.filter fun row => 0 < row.closedAtLedger).map (·.closedAtLedger)).min?

/-- Whether a seed from a checkpoint can trust our table. -/
def writerCoverage (firstTombstone : Option ℤ) (checkpoint : UInt32) : Except String Unit :=
  match firstTombstone with
  | none =>
      .error (TABLE ++ " holds no closed balance — the claimable balance writer has not run, " ++
        "so a claim after checkpoint " ++ toString checkpoint ++ " would be seeded as live for good")
  | some first =>
      if (checkpoint.toNat : ℤ) < first then
        .error ("checkpoint " ++ toString checkpoint ++
          " predates the writer's first recorded claim at ledger " ++ toString first ++
          " — balances claimed in between would be seeded as live for good; " ++
          "wait for a later checkpoint")
      else .ok ()

def markClaimed (held : NetHolding × Option Int64) : NetHolding × Option Int64 :=
  (held.1.claimed, held.2)

/-- Claims the network's balance for a row of ours; a live one of another asset stays
unmatched. -/
def claim (state : NetworkState) (row : OurRow) : NetworkState × Option NetHolding :=
  match state.claimableBalances.lookup row.holderId with
  | none => (state, none)
  | some (entry, networkAsset) =>
      if entry.live ∧ networkAsset ≠ some row.assetId then (state, none)
      else
        ({ state with claimableBalances :=
            modifyWhere (· = row.holderId) markClaimed state.claimableBalances },
          some entry.claimed)

/-- One row of the first pass. -/
def observeRow (checkpoint : UInt32) (pass : NetworkState × ClaimableCorrections) (row : OurRow) :
    NetworkState × ClaimableCorrections :=
  let (state, net) := claim pass.1 row
  (state, foldOurRow row (verdict row net checkpoint) net checkpoint pass.2)

/-- The row of a live balance that none of ours has claimed. -/
def missing (holderId : Int64) (held : NetHolding × Option Int64) : Option BalanceRow :=
  if held.1.live ∧ held.1.matched = false then
    held.2.map fun assetId => missingRow ⟨holderId, assetId⟩ held.1
  else none

/-- The corrections, and the assets that the inserted rows point at. -/
def buildCorrections (order : DrainOrder (Int64 × NetHolding × Option Int64)) (state : NetworkState)
    (checkpoint : UInt32) (rows : List OurRow) : ClaimableCorrections × List Int64 :=
  let (state, out) := rows.foldl (observeRow checkpoint) (state, ⟨[], []⟩)
  let inserted := (order.drain (pairs state.claimableBalances)).filterMap fun (holderId, held) =>
    missing holderId held
  ({ out with rows := out.rows ++ inserted }, inserted.map (·.assetId))

end SorobanExplorer.Claimable
