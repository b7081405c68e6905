import Mathlib.Algebra.Group.Int.Defs
import Mathlib.Data.List.Sort
import Mathlib.Data.Prod.Lex
import Mathlib.Data.String.Basic
import SorobanExplorer.Lib.KeyedFold
import SorobanExplorer.Parser.LedgerEntryChanges

/-!
# Value moved in the ledger

The signed balance deltas of one transaction, read from its ledger entry
changes: what a (holder, asset) pair has after the changes less what it had
before them.  A pool and a claimable balance hold their own assets, under their
own addresses.
-/

namespace SorobanExplorer

open KeyedFold Text

/-- The asset of a ledger balance. -/
inductive LedgerAsset
  | native
  | credit (code issuer : String)
  /-- A classic asset held through its asset contract, by that contract. -/
  | sacWrapped (contract : String)
  /-- A token that is its own contract. -/
  | bespoke (contract : String)
  deriving DecidableEq

/-- What `Ord` compares: the variant, then its fields. -/
def LedgerAsset.rank : LedgerAsset → ℕ ×ₗ String ×ₗ String
  | .native => toLex (0, toLex ("", ""))
  | .credit code issuer => toLex (1, toLex (code, issuer))
  | .sacWrapped contract => toLex (2, toLex (contract, ""))
  | .bespoke contract => toLex (3, toLex (contract, ""))

/-- The key a balance is accumulated under. -/
structure BalanceKey where
  account : String
  asset : LedgerAsset
  deriving DecidableEq

def BalanceKey.rank (key : BalanceKey) : String ×ₗ ℕ ×ₗ String ×ₗ String :=
  toLex (key.account, key.asset.rank)

structure LedgerDelta where
  account : String
  asset : LedgerAsset
  delta : ℤ
  deriving DecidableEq

/-- Running balance of one key: the first one seen and the last. -/
structure BalanceSpan where
  initial : Option ℤ
  last : ℤ
  deriving DecidableEq

section

variable [Crates]

/-! ## What an entry holds -/

def classicAsset : Asset → LedgerAsset
  | .native => .native
  | .creditAlphanum4 code issuer =>
      .credit (assetCodeStr code.bytes) (Crates.accountStrkey issuer)
  | .creditAlphanum12 code issuer =>
      .credit (assetCodeStr code.bytes) (Crates.accountStrkey issuer)

/-- The asset of a trustline, unless it is a share of a pool. -/
def trustlineEventAsset : TrustLineAsset → Option LedgerAsset
  | .native => some .native
  | .creditAlphanum4 code issuer =>
      some (.credit (assetCodeStr code.bytes) (Crates.accountStrkey issuer))
  | .creditAlphanum12 code issuer =>
      some (.credit (assetCodeStr code.bytes) (Crates.accountStrkey issuer))
  | .poolShare _ => none

/-- The holder in a key `[Balance, holder]`. -/
def balanceKeyHolder : ScVal → Option String
  | .vec (some [.symbol tag, .address holder]) =>
      if tag = asBytes "Balance" then some (Crates.scAddressStrkey holder) else none
  | _ => none

/-- The first integer under `amount` in a map. -/
def sacBalanceStructAmount : ScVal → Option ℤ
  | .map (some entries) => entries.findSome? fun
      | (.symbol key, .i128 hi lo) =>
          if key = asBytes "amount" then some (i128OfParts hi lo) else none
      | _ => none
  | _ => none

def contractDataBalance (entry : ContractDataEntry) : Option (BalanceKey × ℤ) :=
  match balanceKeyHolder entry.key with
  | none => none
  | some holder =>
      let contract := Crates.scAddressStrkey entry.contract
      match sacBalanceStructAmount entry.val, entry.val with
      | some amount, _ => some (⟨holder, .sacWrapped contract⟩, amount)
      | none, .i128 hi lo => some (⟨holder, .bespoke contract⟩, i128OfParts hi lo)
      | none, _ => none

/-- Every holder, asset and balance an entry carries; a pool carries two. -/
def entryBalances : LedgerEntryData → List (BalanceKey × ℤ)
  | .account entry => [(⟨Crates.accountStrkey entry.accountId, .native⟩, entry.balance.toInt)]
  | .trustline entry => ((trustlineEventAsset entry.asset).map fun asset =>
      (BalanceKey.mk (Crates.accountStrkey entry.accountId) asset, entry.balance.toInt)).toList
  | .contractData entry => (contractDataBalance entry).toList
  | .liquidityPool entry =>
      let holder := Crates.scAddressStrkey (.liquidityPool entry.liquidityPoolId)
      [(⟨holder, classicAsset entry.assetA⟩, entry.reserveA.toInt),
        (⟨holder, classicAsset entry.assetB⟩, entry.reserveB.toInt)]
  | .claimableBalance entry =>
      [(⟨Crates.scAddressStrkey (.claimableBalance entry.balanceId), classicAsset entry.asset⟩,
        entry.amount.toInt)]
  | .offer _ | .data _ | .contractCode _ | .configSetting _ | .ttl _ _ => []

/-- The key whose balance ends with a removed account or trustline. -/
def removedBalanceKey : LedgerKey → Option BalanceKey
  | .account accountId => some ⟨Crates.accountStrkey accountId, .native⟩
  | .trustline accountId asset =>
      (trustlineEventAsset asset).map fun asset => ⟨Crates.accountStrkey accountId, asset⟩
  | _ => none

/-- The holder all of whose balances end with a removed pool or claimable balance. -/
def removedHolder : LedgerKey → Option String
  | .liquidityPool pool => some (Crates.scAddressStrkey (.liquidityPool pool))
  | .claimableBalance balance => some (Crates.scAddressStrkey (.claimableBalance balance))
  | _ => none

end

/-! ## Accumulation -/

/-- The entry under a key, or a fresh one. -/
def BalanceSpan.orFresh (held : Option BalanceSpan) : BalanceSpan :=
  held.getD ⟨none, 0⟩

/-- A balance read from an entry.  The first one of a key is also its initial
one, unless the entry was created with it. -/
def BalanceSpan.see (created : Bool) (balance : ℤ) (held : Option BalanceSpan) : BalanceSpan where
  initial := (orFresh held).initial.or (some (if created then 0 else balance))
  last := balance

def BalanceSpan.drop (span : BalanceSpan) : BalanceSpan :=
  { span with last := 0 }

def recordOne (created : Bool) (balance : BalanceKey × ℤ) : Update BalanceKey BalanceSpan :=
  ⟨balance.1, BalanceSpan.see created balance.2⟩

/-- `checked_sub` on `i128`. -/
def checkedSubI128 (x y : ℤ) : Option ℤ :=
  if -2 ^ 127 ≤ x - y ∧ x - y < 2 ^ 127 then some (x - y) else none

/-- The delta of a key; none if it is zero or overflows. -/
def BalanceSpan.delta (key : BalanceKey) (span : BalanceSpan) : Option LedgerDelta :=
  match checkedSubI128 span.last (span.initial.getD 0) with
  | none => none
  | some delta => if delta ≠ 0 then some ⟨key.account, key.asset, delta⟩ else none

/-- The entries of the accumulator in the order of their keys. -/
def orderedSpans (spans : Table BalanceKey BalanceSpan) : List (Sigma fun _ : BalanceKey => BalanceSpan) :=
  spans.entries.insertionSort fun x y => x.1.rank ≤ y.1.rank

variable [Crates]

def recordEntry (created : Bool) (spans : Table BalanceKey BalanceSpan) (entry : LedgerEntry) :
    Table BalanceKey BalanceSpan :=
  runAll ((entryBalances entry.data).map (recordOne created)) spans

def recordRemoved (spans : Table BalanceKey BalanceSpan) (key : LedgerKey) :
    Table BalanceKey BalanceSpan :=
  match removedHolder key with
  | some holder => modifyWhere (fun balance => balance.account = holder) BalanceSpan.drop spans
  | none =>
      match removedBalanceKey key with
      | none => spans
      | some balance => Update.run spans ⟨balance, fun held => (BalanceSpan.orFresh held).drop⟩

/-- One change.  A `state` or `restored` entry is an image from before a change. -/
def recordChange (spans : Table BalanceKey BalanceSpan) : LedgerEntryChange →
    Table BalanceKey BalanceSpan
  | .state entry | .restored entry => recordEntry false spans entry
  | .created entry => recordEntry true spans entry
  | .updated entry => recordEntry false spans entry
  | .removed key => recordRemoved spans key

def balanceDeltasOver (changes : List LedgerEntryChange) : List LedgerDelta :=
  (orderedSpans (changes.foldl recordChange ∅)).filterMap fun entry => entry.2.delta entry.1

/-- The deltas of a whole transaction. -/
def ledgerBalanceDeltas (txMeta : TransactionMeta) : List LedgerDelta :=
  balanceDeltasOver (ledgerChanges txMeta)

end SorobanExplorer
