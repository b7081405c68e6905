import SorobanExplorer.Lib.KeepLast
import SorobanExplorer.Lib.KeyedFold
import SorobanExplorer.Parser.LedgerEntryChanges

/-!
# Claimable balances

The holdings a transaction's claimable balance changes leave.  A removal carries
the key only, so its asset is the one last seen for the balance in the same
transaction; a removal of a balance not seen before it is dropped.
-/

namespace SorobanExplorer

open KeepLast KeyedFold Text

inductive ClaimableBalanceAsset
  | native
  | credit (code issuer : String)
  deriving DecidableEq

structure ExtractedClaimableBalance where
  balanceId : String
  asset : ClaimableBalanceAsset
  amount : ℤ
  ledgerSequence : UInt32
  closed : Bool
  deriving DecidableEq

def assetOf (data : Json) : Option ClaimableBalanceAsset := do
  let asset ← data.get? "asset"
  if asset.asStr = some "native" then some .native
  else
    let code ← (asset.get? "code").bind Json.asStr
    let issuer ← (asset.get? "issuer").bind Json.asStr
    some (.credit code issuer)

variable [Crates]

/-- The `B…` address of a balance id in hex. -/
def balanceStrkey (hexId : String) : Option String :=
  match hexDecode hexId with
  | some bytes =>
      if bytes.length = 32 then
        some (Crates.scAddressStrkey (.claimableBalance (Hash.ofBytes bytes)))
      else none
  | none => none

/-- What is read so far: the asset each balance was last seen with, and the
holdings. -/
structure ClaimableExtraction where
  assetById : Table String ClaimableBalanceAsset
  out : List ExtractedClaimableBalance

/-- Push a holding, unless the id is no balance id. -/
def ClaimableExtraction.push (read : ClaimableExtraction) (id : String)
    (asset : ClaimableBalanceAsset) (amount : ℤ) (change : ExtractedLedgerEntryChange)
    (closed : Bool) : ClaimableExtraction :=
  match balanceStrkey id with
  | none => read
  | some balanceId => { read with out := read.out ++
      [{ balanceId, asset, amount, ledgerSequence := change.ledgerSequence, closed }] }

def extractClaimableChange (read : ClaimableExtraction) (change : ExtractedLedgerEntryChange) :
    ClaimableExtraction :=
  if change.entryType ≠ "claimable_balance" then read
  else
    match (change.key.get? "balance_id").bind Json.asStr with
    | none => read
    | some id =>
        if change.changeType = "state" then
          -- the image only names the asset; its amount is from before the change
          match change.data.bind assetOf with
          | none => read
          | some asset => { read with assetById := read.assetById.insert id asset }
        else if change.changeType ∈ ["created", "updated", "restored"] then
          match change.data.bind assetOf,
              (change.data.bind (·.get? "amount")).bind Json.asI64 with
          | some asset, some amount =>
              { read with assetById := read.assetById.insert id asset }.push id asset amount
                change false
          | _, _ => read
        else if change.changeType = "removed" then
          match read.assetById.lookup id with
          | none => read
          | some asset => read.push id asset 0 change true
        else read

/-- The holdings of one transaction, the last one of each balance. -/
def extractClaimableBalances (changes : List ExtractedLedgerEntryChange) :
    List ExtractedClaimableBalance :=
  keepLastByKey (fun balance => (balance.balanceId, balance.ledgerSequence))
    (changes.foldl extractClaimableChange ⟨∅, []⟩).out

/-- The holdings of a ledger's transactions. -/
def ledgerClaimableBalances (changes : List (List ExtractedLedgerEntryChange)) :
    List ExtractedClaimableBalance :=
  changes.flatMap extractClaimableBalances

end SorobanExplorer
