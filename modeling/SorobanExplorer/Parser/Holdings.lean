import SorobanExplorer.Lib.KeyedFold
import SorobanExplorer.Parser.LedgerEntryChanges

/-!
# Holdings

What a list of ledger entry changes says of the native and credit balances in
it, whatever the indexer makes of them.  A holding is an account and an asset;
every change that carries or removes its entry closes it at a balance or as
removed, and the last such change is the state the list leaves.
-/

namespace SorobanExplorer

open KeyedFold

/-- The native asset, or a credit asset by the text of its code and its issuer. -/
inductive HeldAsset (ι : Type)
  | native
  | credit (code : String) (issuer : ι)
  deriving DecidableEq

structure Holding (ι : Type) where
  account : ι
  asset : HeldAsset ι
  deriving DecidableEq

/-- What a change leaves of a holding. -/
inductive Closing
  | live (balance : Int64)
  | removed
  deriving DecidableEq

def Closing.balance : Closing → ℤ
  | .live balance => balance.toInt
  | .removed => 0

/-- The ledger that closed a holding; 0 while it is live. -/
def Closing.closedAt (ledgerSequence : UInt32) : Closing → ℤ
  | .live _ => 0
  | .removed => ledgerSequence.toNat

variable {ι κ : Type}

def HeldAsset.map (f : ι → κ) : HeldAsset ι → HeldAsset κ
  | .native => .native
  | .credit code issuer => .credit code (f issuer)

def Holding.map (f : ι → κ) (holding : Holding ι) : Holding κ :=
  ⟨f holding.account, holding.asset.map f⟩

/-- The asset a trustline holds, unless it is a share of a pool. -/
def TrustLineAsset.held : TrustLineAsset → Option (HeldAsset AccountId)
  | .native | .poolShare _ => none
  | .creditAlphanum4 code issuer => some (.credit (assetCodeStr code.bytes) issuer)
  | .creditAlphanum12 code issuer => some (.credit (assetCodeStr code.bytes) issuer)

def LedgerEntryData.holding : LedgerEntryData → Option (Holding AccountId × Int64)
  | .account entry => some (⟨entry.accountId, .native⟩, entry.balance)
  | .trustline entry => entry.asset.held.map fun asset => (⟨entry.accountId, asset⟩, entry.balance)
  | _ => none

def LedgerKey.holding : LedgerKey → Option (Holding AccountId)
  | .account accountId => some ⟨accountId, .native⟩
  | .trustline accountId asset => asset.held.map fun asset => ⟨accountId, asset⟩
  | _ => none

/-- The holding a change is about and what it leaves of it.  A `state` is the
image before a change and leaves nothing. -/
def LedgerEntryChange.closing : LedgerEntryChange → Option (Holding AccountId × Closing)
  | .created entry | .updated entry | .restored entry =>
      entry.data.holding.map fun (holding, balance) => (holding, .live balance)
  | .removed key => key.holding.map fun holding => (holding, .removed)
  | .state _ => none

/-- Everything the changes leave, in order. -/
def closings (changes : List LedgerEntryChange) : List (Holding AccountId × Closing) :=
  changes.filterMap LedgerEntryChange.closing

/-- What the changes leave of a holding; nothing if none is about it. -/
def lastClosing (holding : Holding AccountId) (changes : List LedgerEntryChange) :
    Option Closing :=
  lastOf holding (closings changes)

end SorobanExplorer
