import SorobanExplorer.Crates
import Mathlib.Data.Int.Notation

/-!
# Surrogate ids

Ids are the low half of a 128-bit hash of the natural key, read as a signed
integer.
-/

namespace SorobanExplorer

variable [Crates]

namespace Ids

def hash64 (text : String) : Int64 :=
  .ofBitVec ((Crates.cityhash128 text).truncate 64)

/-- `accounts.id` of an address. -/
def accountId (strkey : String) : Int64 := hash64 strkey

/-- `soroban_contracts.id` of an address. -/
def contractId (strkey : String) : Int64 := hash64 strkey

/-- The payload of a `C…` address, if the text is one. -/
def contractPayload (strkey : String) : Option Hash :=
  match Crates.strkeyFromString strkey with
  | some (.contract id) => some id
  | _ => none

/-- `balances.holder_id` of any address. -/
def addressId (strkey : String) : Int64 := hash64 strkey

def nativeAssetId : Int64 := -6959166271784855184

/-- The asset surrogate by asset type: 0 is native, 1 classic credit, and any
other type is keyed by its contract. -/
def assetId (assetType : Int16) (assetCode : String) (issuerId contractId : Int64) : Int64 :=
  if assetType = 0 then hash64 "native"
  else if assetType = 1 then hash64 (assetCode ++ ":" ++ toString issuerId.toInt)
  else contractId

def creditAssetId (assetCode issuer : String) : Int64 :=
  assetId 1 assetCode (accountId issuer) 0

/-- The asset of a pool leg by the XDR type of its asset: 0 is native, and every
other type classic credit. -/
def poolLegAssetId (assetType : Int16) (assetCode : String) (issuerId : Int64) : Int64 :=
  if assetType = 0 then nativeAssetId else assetId 1 assetCode issuerId 0

end Ids

/-- At most 56 bytes from a `G` on. -/
def isStrkeyAccount (strkey : String) : Bool :=
  (Text.asBytes strkey).length ≤ 56 ∧ strkey.toList.head? = some 'G'

end SorobanExplorer
