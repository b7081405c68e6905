import SorobanExplorer.Parser.ClaimableBalances
import SorobanExplorer.Persist.Balances

/-!
# Rows of claimable balances

One row per holder, asset and ledger, in the shape of the `balances` rows; of the
holdings of a ledger the last one stays.
-/

namespace SorobanExplorer

open KeepLast

variable [Crates]

def ClaimableBalanceAsset.assetId : ClaimableBalanceAsset → Int64
  | .native => Ids.nativeAssetId
  | .credit code issuer => Ids.creditAssetId code issuer

def claimableBalanceRow (balance : ExtractedClaimableBalance) : BalanceRow where
  holderId := Ids.addressId balance.balanceId
  assetId := balance.asset.assetId
  amount := balance.amount
  lastUpdatedLedger := balance.ledgerSequence.toNat
  closedAtLedger := if balance.closed then balance.ledgerSequence.toNat else 0

def buildClaimableBalanceRows (balances : List ExtractedClaimableBalance) : List BalanceRow :=
  keepLastByKey (fun row => (row.holderId, row.assetId, row.lastUpdatedLedger))
    (balances.map claimableBalanceRow)

end SorobanExplorer
