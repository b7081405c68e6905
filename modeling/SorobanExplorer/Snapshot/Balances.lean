import SorobanExplorer.Snapshot.Verdict

/-!
# The checkpoint seed's balance rows

Pass 1 compares each row of ours with the snapshot and writes the correction its
verdict implies; pass 2 inserts the live entries that no row of ours has claimed.
-/

namespace SorobanExplorer

open KeyedFold

structure BalanceCorrections where
  rows : List BalanceRow
  /-- One line for each row that is zeroed while it held an amount. -/
  ghosts : List String

def ghostLine (row : OurRow) : String :=
  toString row.holderId.toInt ++ "\t" ++ toString row.assetId.toInt ++ "\t" ++
    toString row.amount ++ "\t" ++ toString row.lastUpdatedLedger

/-- The row of a correction. -/
def Correction.row (c : Correction) (key : HoldingKey) : BalanceRow where
  holderId := key.holderId
  assetId := key.assetId
  amount := c.amount
  lastUpdatedLedger := c.lastUpdatedLedger
  closedAtLedger := c.closedAtLedger

/-- Emits the correction a verdict implies. -/
def foldOurRow (row : OurRow) (v : Verdict) (net : Option NetHolding) (checkpoint : UInt32)
    (out : BalanceCorrections) : BalanceCorrections :=
  let out := if v = .ghost then { out with ghosts := out.ghosts ++ [ghostLine row] } else out
  match correction v net checkpoint with
  | none => out
  | some c => { out with rows := out.rows ++ [c.row row.holdingKey] }

/-- One row of pass 1: the verdict the report counts is the one that is acted on. -/
def observeRow (checkpoint : UInt32) (pass : NetworkState × BalanceCorrections) (row : OurRow) :
    NetworkState × BalanceCorrections :=
  let (state, net) := claim pass.1 row
  (state, foldOurRow row (verdict row net checkpoint) net checkpoint pass.2)

/-- The row of an entry that we do not hold. -/
def missingRow (key : HoldingKey) (e : NetHolding) : BalanceRow where
  holderId := key.holderId
  assetId := key.assetId
  amount := e.balance.toInt
  lastUpdatedLedger := e.ledger.toNat
  closedAtLedger := 0

/-- The corrections, and the assets and the holders that the inserted rows point at. -/
def buildCorrections (trustlineOrder : DrainOrder (HoldingKey × NetHolding))
    (accountOrder : DrainOrder (Int64 × NetHolding)) (state : NetworkState) (checkpoint : UInt32)
    (rows : List OurRow) : BalanceCorrections × List Int64 × List Int64 :=
  let (state, out) := rows.foldl (observeRow checkpoint) (state, ⟨[], []⟩)
  let trustlines := (trustlineOrder.drain (pairs state.trustlines)).filter fun (_, e) =>
    e.live && !e.matched
  let accounts := (accountOrder.drain (pairs state.accounts)).filter fun (_, e) =>
    e.live && !e.matched
  ({ out with rows := out.rows ++ trustlines.map (fun (key, e) => missingRow key e) ++
      accounts.map fun (id, e) => missingRow ⟨id, Ids.nativeAssetId⟩ e },
    trustlines.map (·.1.assetId), trustlines.map (·.1.holderId) ++ accounts.map (·.1))

end SorobanExplorer
