import SorobanExplorer.Api.BalanceChanges
import Mathlib.Algebra.BigOperators.Ring.Finset
import Std.Data.String.ToInt

/-!
# Balance changes are exact, names are not

Stored movements may have copies; each counts once.  Per asset the fungible entry of a
transaction is the exact net, and the pieces of a collection add up (`Accurate`).  A piece
is named on an entry when as many pieces came to its new owner as the account moved there,
from whomever they came: when the account moved one piece there twice, a piece of another
account can make up the count.  `CountsTell` is exactly when this does not happen.

The proof goes through the statements in their order: the copies of a movement are one
edge (`edges_eq`), a group is netted (`deltaRow_fungible`, `deltaRow_pieces`), and the
entries of a transaction come from its groups.
-/

namespace SorobanExplorer

open Ranked KeyedFold GroupBy
open NftTransfers (NftOwnershipChangesRow)

namespace BalanceChanges

/-! ## What the tables say -/

/-- The movements, each once. -/
def movements (db : Database) : Finset AssetTransferRow := db.assetTransfers.toFinset

section

variable (db : Database) (accountId : Int64) (tx : TxKey) (assetId : Int64)

/-- The exact amount an account received of an asset in a transaction. -/
def received : ℤ :=
  ∑ row ∈ movements db with row.tx = tx ∧ row.assetId = assetId ∧ row.recipientId = some accountId,
    row.amount.getD 0

def sent : ℤ :=
  ∑ row ∈ movements db with row.tx = tx ∧ row.assetId = assetId ∧ row.senderId = some accountId,
    row.amount.getD 0

/-- The pieces an account received of a collection. -/
def piecesReceived : Finset AssetTransferRow :=
  {row ∈ movements db | row.tx = tx ∧ row.assetId = assetId ∧ row.amount = none ∧
    row.recipientId = some accountId}

def piecesSent : Finset AssetTransferRow :=
  {row ∈ movements db | row.tx = tx ∧ row.assetId = assetId ∧ row.amount = none ∧
    row.senderId = some accountId}

/-- The account's movements of a collection to a new owner. -/
def movedTo (owner : Option Int64) : Finset AssetTransferRow :=
  {row ∈ piecesSent db accountId tx assetId | row.recipientId = owner}

/-- The pieces of a collection that came to a new owner, from whomever. -/
def arrived (owner : Option Int64) : Finset String :=
  ((db.nftOwnershipChanges.filter fun change => pieceKey change = ⟨assetId, tx, owner⟩).map
    (·.tokenId)).toFinset

end

/-- An ownership change is of a movement: at its location, to the same owner. -/
def Records (row : AssetTransferRow) (change : NftOwnershipChangesRow) : Prop :=
  row.amount = none ∧ row.assetId = change.contractId ∧ row.tx = changeTx change ∧
    row.opIndex.toInt = change.operationIndex.toNat ∧
    row.eventPosInOp.toInt = change.eventIndex.toNat ∧ row.recipientId = change.ownerId

instance (row : AssetTransferRow) (change : NftOwnershipChangesRow) :
    Decidable (Records row change) := by
  unfold Records
  infer_instance

/-- A piece moved in a transaction, in a movement with a property. -/
def Moved (db : Database) (tx : TxKey) (assetId : Int64) (token : String)
    (property : AssetTransferRow → Prop) : Prop :=
  ∃ change ∈ db.nftOwnershipChanges, change.contractId = assetId ∧ changeTx change = tx ∧
    change.tokenId = token ∧ ∃ row ∈ db.assetTransfers, Records row change ∧ property row

/-- The tables as they are written: rows with one location are copies of each other,
ownership changes are of movements, and the account's amounts fit their type. -/
structure Readable (db : Database) (accountId : Int64) (keys : List TxKey) : Prop where
  copies : ∀ row ∈ db.assetTransfers, ∀ other ∈ db.assetTransfers,
    row.edgePosition = other.edgePosition → row = other
  recorded : ∀ change ∈ db.nftOwnershipChanges, ∃ row ∈ db.assetTransfers, Records row change
  fits : ∀ tx ∈ keys, ∀ assetId,
    -2 ^ 127 ≤ received db accountId tx assetId - sent db accountId tx assetId ∧
      received db accountId tx assetId - sent db accountId tx assetId < 2 ^ 127

/-! ## What is read -/

/-- The entries of a transaction, each with its asset. -/
def entriesOf (db : Database) (accountId : Int64) (keys : List TxKey) (tx : TxKey) :
    List (Int64 × BalanceChange) :=
  let rows := balanceChangeDeltas accountId db keys
  let identities := resolveAssetIdentities db (rows.map (·.assetId))
  let pieces := resolveMovedPieces db (nftLookups rows)
  (rows.filter (·.tx = tx)).flatMap fun row =>
    (rowChanges identities pieces row).map (row.assetId, ·)

/-- **What the page promises.** -/
structure Accurate (db : Database) (accountId : Int64) (keys : List TxKey) : Prop where
  fungible : ∀ tx ∈ keys, ∀ assetId,
    ((entriesOf db accountId keys tx).filter
      fun e => e.1 = assetId ∧ e.2.amount.isSome).map (·.2.amount) =
        if received db accountId tx assetId = sent db accountId tx assetId then []
        else [some (toString (received db accountId tx assetId - sent db accountId tx assetId))]
  separate : ∀ tx ∈ keys, ∀ e ∈ entriesOf db accountId keys tx,
    (e.2.amount.isSome ∧ e.2.nftDelta = 0 ∧ e.2.tokenId = none) ∨
      (e.2.amount = none ∧ e.2.nftDelta ≠ 0)
  counted : ∀ tx ∈ keys, ∀ assetId,
    (((entriesOf db accountId keys tx).filter (·.1 = assetId)).map (·.2.nftDelta)).sum =
      (piecesReceived db accountId tx assetId).card - (piecesSent db accountId tx assetId).card
  named : ∀ tx ∈ keys, ∀ e ∈ entriesOf db accountId keys tx, ∀ token ∈ e.2.tokenId,
    (0 < e.2.nftDelta → Moved db tx e.1 token (·.recipientId = some accountId)) ∧
    (e.2.nftDelta < 0 → Moved db tx e.1 token (·.senderId = some accountId))

/-- Where another owner got as many pieces as the account moved to that owner, the account
sent every one of them. -/
def CountsTell (db : Database) (accountId : Int64) (keys : List TxKey) : Prop :=
  ∀ tx ∈ keys, ∀ assetId owner, owner ≠ some accountId →
    (arrived db tx assetId owner).card = (movedTo db accountId tx assetId owner).card →
      ∀ token ∈ arrived db tx assetId owner, Moved db tx assetId token (·.senderId = some accountId)

/-! ## One edge for the copies of a movement -/

variable {db : Database} {accountId : Int64} {keys : List TxKey}

/-- The movements that are read, each once. -/
def distinct (accountId : Int64) (db : Database) (keys : List TxKey) : List AssetTransferRow :=
  firstBy AssetTransferRow.edgePosition (readTransfers accountId db keys)

/-- The edge of one movement. -/
def edgeOf (accountId : Int64) (row : AssetTransferRow) : EdgeRow :=
  ⟨row.edgePosition, row.amount.isNone, newOwner row, signedAmount accountId row,
    signedPieces accountId row⟩

theorem anyOf_copies {α β : Type} {copies : List α} {a : α} (ha : a ∈ copies)
    (hsame : ∀ b ∈ copies, b = a) (value : α → Option β) : anyOf copies value = value a := by
  cases copies with
  | nil => cases ha
  | cons b rest =>
      obtain rfl := hsame b List.mem_cons_self
      rw [anyOf, List.findSome?_cons]
      cases hvalue : value b with
      | some v => rfl
      | none =>
          rw [List.findSome?_eq_none_iff]
          intro c hc
          rw [hsame c (List.mem_cons_of_mem _ hc), hvalue]

/-- A movement that is read: of a transaction of the page, from or to the account. -/
theorem mem_readTransfers {row : AssetTransferRow} :
    row ∈ readTransfers accountId db keys ↔ row ∈ db.assetTransfers ∧ row.tx ∈ keys ∧
      (row.senderId = some accountId ∨ row.recipientId = some accountId) := by
  simp only [readTransfers, List.mem_filter, decide_eq_true_eq]
  constructor
  · rintro ⟨hrow, hkey, -, htouch⟩
    exact ⟨hrow, hkey, htouch⟩
  · rintro ⟨hrow, hkey, htouch⟩
    exact ⟨hrow, hkey, List.mem_map.mpr ⟨row.tx, hkey, rfl⟩, htouch⟩

section

variable (hread : Readable db accountId keys)

include hread

theorem edges_eq : edges accountId db keys = (distinct accountId db keys).map (edgeOf accountId) := by
  rw [edges, groupBy_eq, List.map_map, distinct]
  apply List.map_congr_left
  intro row hrow
  have hrow := (firstBy_sublist _ _).subset hrow
  have hmem : row ∈ (readTransfers accountId db keys).filter
      (AssetTransferRow.edgePosition · = row.edgePosition) :=
    List.mem_filter.mpr ⟨hrow, by simp⟩
  have hsame : ∀ other ∈ (readTransfers accountId db keys).filter
      (AssetTransferRow.edgePosition · = row.edgePosition), other = row := by
    intro other hother
    obtain ⟨hother, hposition⟩ := List.mem_filter.mp hother
    exact hread.copies other (mem_readTransfers.mp hother).1 row (mem_readTransfers.mp hrow).1
      (of_decide_eq_true hposition)
  simp only [Function.comp_apply, edgeRow, edgeOf, anyOf_copies hmem hsame, Option.getD_some]

theorem mem_distinct {row : AssetTransferRow} :
    row ∈ distinct accountId db keys ↔ row ∈ db.assetTransfers ∧ row.tx ∈ keys ∧
      (row.senderId = some accountId ∨ row.recipientId = some accountId) := by
  rw [distinct, mem_firstBy_of_copies, mem_readTransfers]
  exact fun row hrow other hother => hread.copies row (mem_readTransfers.mp hrow).1 other
    (mem_readTransfers.mp hother).1

omit hread in
theorem nodup_distinct : (distinct accountId db keys).Nodup :=
  (nodup_map_firstBy AssetTransferRow.edgePosition _).of_map

/-- A sum over the edges is one over the movements, where what is summed is 0 without the
account. -/
theorem sum_distinct {tx : TxKey} (htx : tx ∈ keys) (p : AssetTransferRow → Prop) [DecidablePred p]
    (f : AssetTransferRow → ℤ)
    (hf : ∀ row, row.senderId ≠ some accountId → row.recipientId ≠ some accountId → f row = 0) :
    (((distinct accountId db keys).filter fun row => row.tx = tx ∧ p row).map f).sum =
      ∑ row ∈ movements db with row.tx = tx ∧ p row, f row := by
  rw [← List.sum_toFinset _ (nodup_distinct.filter _)]
  apply Finset.sum_subset
  · intro row hrow
    obtain ⟨hrow, hp⟩ := List.mem_filter.mp (List.mem_toFinset.mp hrow)
    exact Finset.mem_filter.mpr
      ⟨List.mem_toFinset.mpr ((mem_distinct hread).mp hrow).1, of_decide_eq_true hp⟩
  · intro row hrow hout
    obtain ⟨hrow, htxp⟩ := Finset.mem_filter.mp hrow
    by_contra hne
    have htouch : row.senderId = some accountId ∨ row.recipientId = some accountId := by
      by_contra hnone
      obtain ⟨hsender, hrecipient⟩ := not_or.mp hnone
      exact hne (hf row hsender hrecipient)
    refine hout (List.mem_toFinset.mpr (List.mem_filter.mpr ⟨?_, decide_eq_true htxp⟩))
    exact (mem_distinct hread).mpr ⟨List.mem_toFinset.mp hrow, htxp.1 ▸ htx, htouch⟩

end

/-! ## Netting a group -/

/-- What a movement is netted with. -/
def keyOf (row : AssetTransferRow) : DeltaKey :=
  ⟨row.tx, row.assetId, row.amount.isNone, newOwner row⟩

/-- The amount of a movement, as the account sees it. -/
def signedValue (accountId : Int64) (row : AssetTransferRow) : ℤ :=
  (if row.recipientId = some accountId then row.amount.getD 0 else 0) -
    (if row.senderId = some accountId then row.amount.getD 0 else 0)

theorem keyOf_eq_fungible {row : AssetTransferRow} {tx : TxKey} {assetId : Int64} :
    keyOf row = ⟨tx, assetId, false, none⟩ ↔
      row.tx = tx ∧ row.assetId = assetId ∧ row.amount.isSome := by
  cases hamount : row.amount <;> simp [keyOf, newOwner, hamount]

theorem keyOf_eq_pieces {row : AssetTransferRow} {tx : TxKey} {assetId : Int64}
    {owner : Option Int64} :
    keyOf row = ⟨tx, assetId, true, owner⟩ ↔
      row.tx = tx ∧ row.assetId = assetId ∧ row.amount = none ∧ row.recipientId = owner := by
  cases hamount : row.amount <;> simp [keyOf, newOwner, hamount]

theorem wrapI128_eq_self {n : ℤ} (hlow : -2 ^ 127 ≤ n) (hhigh : n < 2 ^ 127) : wrapI128 n = n :=
  Int.bmod_eq_of_le (by norm_num; omega) (by norm_num; omega)

/-- Wrapping the summands does not change a wrapped sum. -/
theorem wrapI128_sum {α : Type} (l : List α) (f : α → ℤ) :
    wrapI128 (l.map fun a => wrapI128 (f a)).sum = wrapI128 (l.map f).sum := by
  induction l with
  | nil => rfl
  | cons a l ih =>
      rw [List.map_cons, List.map_cons, List.sum_cons, List.sum_cons]
      calc wrapI128 (wrapI128 (f a) + (l.map fun a => wrapI128 (f a)).sum)
          = wrapI128 (f a + wrapI128 (l.map fun a => wrapI128 (f a)).sum) := by
            simp [wrapI128]
        _ = wrapI128 (f a + wrapI128 (l.map f).sum) := by rw [ih]
        _ = wrapI128 (f a + (l.map f).sum) := by simp [wrapI128]

theorem signedAmount_of_isSome {row : AssetTransferRow} (h : row.amount.isSome) :
    signedAmount accountId row = some (wrapI128 (signedValue accountId row)) := by
  obtain ⟨n, hn⟩ := Option.isSome_iff_exists.mp h
  unfold signedAmount signedValue
  split_ifs <;> simp [hn]

theorem signedAmount_of_none {row : AssetTransferRow} (h : row.amount = none)
    (htouch : row.senderId = some accountId ∨ row.recipientId = some accountId) :
    signedAmount accountId row = none := by
  unfold signedAmount
  rcases htouch with hsender | hrecipient
  · split_ifs <;> simp [h]
  · simp [h, hrecipient]

/-- The exact net of an account, movement by movement. -/
theorem sum_signedValue (db : Database) (accountId : Int64) (tx : TxKey) (assetId : Int64) :
    ∑ row ∈ movements db with row.tx = tx ∧ (row.assetId = assetId ∧ row.amount.isSome),
      signedValue accountId row = received db accountId tx assetId - sent db accountId tx assetId := by
  simp only [received, sent, Finset.sum_filter]
  rw [← Finset.sum_sub_distrib]
  apply Finset.sum_congr rfl
  intro row _
  by_cases htx : row.tx = tx <;> by_cases hasset : row.assetId = assetId <;>
    cases hamount : row.amount <;> simp [signedValue, htx, hasset, hamount]

/-- The members of a group, movement by movement. -/
def group (accountId : Int64) (db : Database) (keys : List TxKey) (key : DeltaKey) :
    List AssetTransferRow :=
  (distinct accountId db keys).filter (keyOf · = key)

section

variable (hread : Readable db accountId keys)

include hread

theorem members_eq (key : DeltaKey) :
    (edges accountId db keys).filter (·.deltaKey = key) =
      (group accountId db keys key).map (edgeOf accountId) := by
  rw [edges_eq hread, List.filter_map]
  rfl

/-- A key has edges if and only if it has movements. -/
theorem exists_edge {key : DeltaKey} :
    (∃ edge ∈ edges accountId db keys, edge.deltaKey = key) ↔ group accountId db keys key ≠ [] := by
  have hmembers := members_eq hread key
  constructor
  · rintro ⟨edge, hedge, hkey⟩ hnil
    have hin : edge ∈ (edges accountId db keys).filter (·.deltaKey = key) :=
      List.mem_filter.mpr ⟨hedge, by simpa using hkey⟩
    rw [hmembers, hnil] at hin
    cases hin
  · intro hne
    obtain ⟨row, rest, hcons⟩ := List.exists_cons_of_ne_nil hne
    have hin : edgeOf accountId row ∈ (edges accountId db keys).filter (·.deltaKey = key) := by
      rw [hmembers, hcons]
      exact List.mem_cons_self
    obtain ⟨hedge, hkey⟩ := List.mem_filter.mp hin
    exact ⟨_, hedge, of_decide_eq_true hkey⟩

theorem mem_groups {key : DeltaKey} {members : List EdgeRow} :
    (key, members) ∈ groupBy EdgeRow.deltaKey (edges accountId db keys) ↔
      group accountId db keys key ≠ [] ∧
        members = (group accountId db keys key).map (edgeOf accountId) := by
  rw [mem_groupBy, exists_edge hread, members_eq hread]

/-- The exact amount of an asset's fungible group. -/
theorem deltaRow_fungible {tx : TxKey} (htx : tx ∈ keys) {assetId : Int64}
    (hne : group accountId db keys ⟨tx, assetId, false, none⟩ ≠ []) :
    deltaRow (⟨tx, assetId, false, none⟩,
      (group accountId db keys ⟨tx, assetId, false, none⟩).map (edgeOf accountId)) =
      ⟨tx, assetId, some (toString (received db accountId tx assetId - sent db accountId tx assetId)),
        0, none⟩ := by
  set rows := group accountId db keys ⟨tx, assetId, false, none⟩ with hrows
  have hfungible : ∀ row ∈ rows, row.amount.isSome := fun row hrow =>
    (keyOf_eq_fungible.mp (of_decide_eq_true (List.mem_filter.mp hrow).2)).2.2
  have hsigned : (rows.map (edgeOf accountId)).map (·.signed) =
      rows.map fun row => some (wrapI128 (signedValue accountId row)) := by
    rw [List.map_map]
    exact List.map_congr_left fun row hrow => signedAmount_of_isSome (hfungible row hrow)
  have hknown : ((rows.map (edgeOf accountId)).map (·.signed)).filterMap id =
      rows.map fun row => wrapI128 (signedValue accountId row) := by
    rw [hsigned, List.filterMap_map, ← List.filterMap_eq_map]
    rfl
  -- rows that do not touch the account add nothing
  have hnet : (rows.map (signedValue accountId)).sum =
      received db accountId tx assetId - sent db accountId tx assetId := by
    have hfilter : rows = (distinct accountId db keys).filter fun row =>
        row.tx = tx ∧ (row.assetId = assetId ∧ row.amount.isSome) := by
      rw [hrows, group]
      simp only [keyOf_eq_fungible]
    rw [hfilter, sum_distinct hread htx _ _ fun row hsender hrecipient => by
      rw [signedValue, if_neg hsender, if_neg hrecipient, sub_zero], sum_signedValue]
  -- the sum wraps once, and what it stands for fits
  have hsum : sumNullable ((rows.map (edgeOf accountId)).map (·.signed)) =
      some (received db accountId tx assetId - sent db accountId tx assetId) := by
    obtain ⟨row, rest, hcons⟩ := List.exists_cons_of_ne_nil hne
    have hfits := hread.fits tx htx assetId
    have hwrapped := wrapI128_sum rows (signedValue accountId)
    rw [hnet, wrapI128_eq_self hfits.1 hfits.2] at hwrapped
    unfold sumNullable
    rw [hknown, hcons] at *
    exact congrArg some hwrapped
  have hnft : ((rows.map (edgeOf accountId)).map (·.nft)).sum = 0 := by
    apply List.sum_eq_zero
    intro n hn
    simp only [List.mem_map, exists_exists_and_eq_and] at hn
    obtain ⟨row, hrow, rfl⟩ := hn
    have hsome := hfungible row hrow
    simp [edgeOf, signedPieces, Option.isNone_iff_eq_none, Option.isSome_iff_ne_none.mp hsome]
  simp only [deltaRow, hsum, hnft, Option.map_some]

theorem mem_group_pieces {row : AssetTransferRow} {tx : TxKey} {assetId : Int64}
    {owner : Option Int64} :
    row ∈ group accountId db keys ⟨tx, assetId, true, owner⟩ ↔
      (row ∈ db.assetTransfers ∧ row.tx ∈ keys ∧
        (row.senderId = some accountId ∨ row.recipientId = some accountId)) ∧
      row.tx = tx ∧ row.assetId = assetId ∧ row.amount = none ∧ row.recipientId = owner := by
  rw [group, List.mem_filter, mem_distinct hread, decide_eq_true_eq, keyOf_eq_pieces]

theorem delta_pieces {tx : TxKey} {assetId : Int64} {owner : Option Int64} :
    (deltaRow (⟨tx, assetId, true, owner⟩,
      (group accountId db keys ⟨tx, assetId, true, owner⟩).map (edgeOf accountId))).delta = none := by
  have hknown : (((group accountId db keys ⟨tx, assetId, true, owner⟩).map
      (edgeOf accountId)).map (·.signed)).filterMap id = [] := by
    rw [List.map_map, List.filterMap_map, List.filterMap_eq_nil_iff]
    intro row hrow
    obtain ⟨⟨-, -, htouch⟩, -, -, hnone, -⟩ := (mem_group_pieces hread).mp hrow
    exact signedAmount_of_none hnone htouch
  simp only [deltaRow, sumNullable, hknown, Option.map_none]

/-- The account's pieces that went to another owner, as a count below 0. -/
theorem nftDelta_sent {tx : TxKey} (htx : tx ∈ keys) {assetId : Int64} {owner : Option Int64}
    (howner : owner ≠ some accountId) :
    (deltaRow (⟨tx, assetId, true, owner⟩,
      (group accountId db keys ⟨tx, assetId, true, owner⟩).map (edgeOf accountId))).nftDelta =
      -(movedTo db accountId tx assetId owner).card := by
  set rows := group accountId db keys ⟨tx, assetId, true, owner⟩ with hrows
  have hsender : ∀ row ∈ rows, row.senderId = some accountId := by
    intro row hrow
    obtain ⟨⟨-, -, htouch⟩, -, -, -, hrecipient⟩ := (mem_group_pieces hread).mp hrow
    exact htouch.resolve_right fun heq => howner (hrecipient ▸ heq)
  -- the group is made of the pieces the account sent to the owner
  have hset : rows.toFinset = movedTo db accountId tx assetId owner := by
    ext row
    simp only [List.mem_toFinset, movedTo, piecesSent, movements, Finset.mem_filter]
    constructor
    · intro hrow
      obtain ⟨⟨hmem, -, -⟩, hfields⟩ := (mem_group_pieces hread).mp hrow
      exact ⟨⟨hmem, hfields.1, hfields.2.1, hfields.2.2.1, hsender row hrow⟩, hfields.2.2.2⟩
    · rintro ⟨⟨hmem, rfl, hasset, hnone, hfrom⟩, hrecipient⟩
      exact (mem_group_pieces hread).mpr ⟨⟨hmem, htx, .inl hfrom⟩, rfl, hasset, hnone, hrecipient⟩
  have hones : (rows.map (edgeOf accountId)).map (·.nft) = rows.map fun _ => (-1 : ℤ) := by
    rw [List.map_map]
    apply List.map_congr_left
    intro row hrow
    obtain ⟨-, -, -, hnone, hrecipient⟩ := (mem_group_pieces hread).mp hrow
    simp [edgeOf, signedPieces, hnone, hrecipient, howner, hsender row hrow]
  have hcard : (movedTo db accountId tx assetId owner).card = rows.length := by
    rw [← hset]
    exact List.toFinset_card_of_nodup (nodup_distinct.filter _)
  change ((rows.map (edgeOf accountId)).map (·.nft)).sum = _
  rw [hones, hcard]
  simp

/-- What comes to the account counts from 0 up. -/
theorem nftDelta_received {tx : TxKey} {assetId : Int64} :
    0 ≤ (deltaRow (⟨tx, assetId, true, some accountId⟩,
      (group accountId db keys ⟨tx, assetId, true, some accountId⟩).map
        (edgeOf accountId))).nftDelta := by
  change 0 ≤ (((group accountId db keys ⟨tx, assetId, true, some accountId⟩).map
    (edgeOf accountId)).map (·.nft)).sum
  apply List.sum_nonneg
  intro n hn
  simp only [List.mem_map, exists_exists_and_eq_and] at hn
  obtain ⟨row, hrow, rfl⟩ := hn
  obtain ⟨-, -, -, hnone, hrecipient⟩ := (mem_group_pieces hread).mp hrow
  simp only [edgeOf, signedPieces, hnone, hrecipient]
  simp only [Option.isNone_none, if_true]
  split_ifs <;> omega

/-! ## The rows of the statement -/

/-- A row of the statement is that of a group of movements. -/
theorem mem_balanceChangeDeltas {row : DeltaChRow} :
    row ∈ balanceChangeDeltas accountId db keys ↔ ∃ key, group accountId db keys key ≠ [] ∧
      row = deltaRow (key, (group accountId db keys key).map (edgeOf accountId)) ∧ row.changed := by
  simp only [balanceChangeDeltas, List.mem_map, mem_sortBy, List.mem_filter, Prod.exists,
    mem_groups hread]
  constructor
  · rintro ⟨key, members, ⟨⟨hne, rfl⟩, hchanged⟩, rfl⟩
    exact ⟨key, hne, rfl, hchanged⟩
  · rintro ⟨key, hne, rfl, hchanged⟩
    exact ⟨_, _, ⟨⟨hne, rfl⟩, hchanged⟩, rfl⟩

end

/-- A group is of an asset's amounts, or of the pieces that went to one owner. -/
theorem key_cases {key : DeltaKey} (hne : group accountId db keys key ≠ []) :
    key = ⟨key.tx, key.assetId, false, none⟩ ∨ key = ⟨key.tx, key.assetId, true, key.nftOwner⟩ := by
  obtain ⟨row, rest, hcons⟩ := List.exists_cons_of_ne_nil hne
  have hrow : row ∈ group accountId db keys key := by
    rw [hcons]
    exact List.mem_cons_self
  have hkey : keyOf row = key := of_decide_eq_true (List.mem_filter.mp hrow).2
  subst hkey
  cases hamount : row.amount with
  | some n => exact .inl (by simp [keyOf, newOwner, hamount])
  | none => exact .inr (by simp [keyOf, hamount])

theorem tx_mem_of_group (hread : Readable db accountId keys) {key : DeltaKey}
    (hne : group accountId db keys key ≠ []) : key.tx ∈ keys := by
  obtain ⟨row, rest, hcons⟩ := List.exists_cons_of_ne_nil hne
  have hrow : row ∈ group accountId db keys key := by
    rw [hcons]
    exact List.mem_cons_self
  obtain ⟨hrow, hkey⟩ := List.mem_filter.mp hrow
  have hkey : keyOf row = key := of_decide_eq_true hkey
  exact hkey ▸ ((mem_distinct hread).mp hrow).2.1

/-- A row with an amount has no pieces. -/
theorem nftDelta_of_delta (hread : Readable db accountId keys) {row : DeltaChRow}
    (hrow : row ∈ balanceChangeDeltas accountId db keys) (hdelta : row.delta.isSome) :
    row.nftDelta = 0 := by
  obtain ⟨key, hne, rfl, -⟩ := (mem_balanceChangeDeltas hread).mp hrow
  have htx := tx_mem_of_group hread hne
  rcases key_cases hne with hkey | hkey
  · rw [hkey] at hne ⊢
    rw [deltaRow_fungible hread htx hne]
  · rw [hkey, delta_pieces hread] at hdelta
    cases hdelta

/-! ## The entries of a row -/

section

variable (identities : Table Int64 ResolvedAsset) (pieces : Table PieceKey (List String))

@[simp] theorem entry_amount (identity : Option ResolvedAsset) (row : DeltaChRow)
    (amount : Option String) (nftDelta : ℤ) (tokenId : Option String) :
    (entry identity row amount nftDelta tokenId).amount = amount := by
  unfold entry
  split <;> rfl

@[simp] theorem entry_nftDelta (identity : Option ResolvedAsset) (row : DeltaChRow)
    (amount : Option String) (nftDelta : ℤ) (tokenId : Option String) :
    (entry identity row amount nftDelta tokenId).nftDelta = nftDelta := by
  unfold entry
  split <;> rfl

@[simp] theorem entry_tokenId (identity : Option ResolvedAsset) (row : DeltaChRow)
    (amount : Option String) (nftDelta : ℤ) (tokenId : Option String) :
    (entry identity row amount nftDelta tokenId).tokenId = tokenId := by
  unfold entry
  split <;> rfl

/-- Pieces are named if there are as many of them as movements. -/
theorem length_piecesHere {row : DeltaChRow} (hne : piecesHere pieces row ≠ []) :
    row.nftDelta ≠ 0 ∧ (piecesHere pieces row).length = row.nftDelta.natAbs ∧
      pieces.lookup ⟨row.assetId, row.tx, row.nftOwner⟩ = some (piecesHere pieces row) := by
  unfold piecesHere at hne ⊢
  split_ifs at hne ⊢ with hzero
  · cases hlookup : pieces.lookup ⟨row.assetId, row.tx, row.nftOwner⟩ with
    | none => simp [hlookup] at hne
    | some tokens =>
        by_cases hlength : tokens.length = row.nftDelta.natAbs
        · simp [Option.filter, hlength, hzero]
        · simp [hlookup, Option.filter, hlength] at hne
  · exact absurd rfl hne

theorem mem_rowChanges {row : DeltaChRow} {e : BalanceChange} :
    e ∈ rowChanges identities pieces row ↔
      (piecesHere pieces row = [] ∧
        e = entry (identities.lookup row.assetId) row row.delta row.nftDelta none) ∨
      ∃ token ∈ piecesHere pieces row,
        e = entry (identities.lookup row.assetId) row none row.nftDelta.sign (some token) := by
  unfold rowChanges
  cases hpieces : piecesHere pieces row with
  | nil => simp
  | cons token tokens => simp [eq_comm]

/-- Naming the pieces of a row does not change its count. -/
theorem sum_rowChanges (row : DeltaChRow) :
    ((rowChanges identities pieces row).map (·.nftDelta)).sum = row.nftDelta := by
  unfold rowChanges
  cases hpieces : piecesHere pieces row with
  | nil => simp
  | cons token tokens =>
      have hlength := (length_piecesHere pieces (hpieces ▸ List.cons_ne_nil _ _)).2.1
      have hconst : ((token :: tokens).map fun token =>
          entry (identities.lookup row.assetId) row none row.nftDelta.sign (some token)).map
            (·.nftDelta) = (token :: tokens).map fun _ => row.nftDelta.sign := by
        rw [List.map_map]
        exact List.map_congr_left fun token _ => entry_nftDelta _ _ _ _ _
      rw [hpieces] at hlength
      change (((token :: tokens).map _).map _).sum = _
      rw [hconst, List.map_const', List.sum_replicate, hlength, nsmul_eq_mul, mul_comm]
      exact Int.sign_mul_natAbs _

/-- The amount of a row is on its one entry. -/
theorem amounts_rowChanges {row : DeltaChRow} (h : row.delta.isSome → row.nftDelta = 0) :
    ((rowChanges identities pieces row).filter (·.amount.isSome)).map (·.amount) =
      if row.delta.isSome then [row.delta] else [] := by
  cases hpieces : piecesHere pieces row with
  | nil =>
      have hone : rowChanges identities pieces row =
          [entry (identities.lookup row.assetId) row row.delta row.nftDelta none] := by
        simp [rowChanges, hpieces]
      rw [hone]
      cases hdelta : row.delta <;> simp
  | cons token tokens =>
      have hne := (length_piecesHere pieces (hpieces ▸ List.cons_ne_nil token tokens)).1
      rw [if_neg fun hdelta => hne (h hdelta)]
      have hnone : (rowChanges identities pieces row).filter (·.amount.isSome) = [] := by
        rw [List.filter_eq_nil_iff]
        intro e he
        rcases (mem_rowChanges identities pieces).mp he with ⟨hnil, -⟩ | ⟨_, -, rfl⟩
        · rw [hpieces] at hnil
          cases hnil
        · simp
      rw [hnone, List.map_nil]

end

/-! ## The entries of a transaction -/

theorem mem_entriesOf {tx : TxKey} {e : Int64 × BalanceChange} :
    e ∈ entriesOf db accountId keys tx ↔ ∃ row ∈ balanceChangeDeltas accountId db keys,
      row.tx = tx ∧ e.1 = row.assetId ∧
        e.2 ∈ rowChanges
          (resolveAssetIdentities db ((balanceChangeDeltas accountId db keys).map (·.assetId)))
          (resolveMovedPieces db (nftLookups (balanceChangeDeltas accountId db keys))) row := by
  simp only [entriesOf, List.mem_flatMap, List.mem_filter, decide_eq_true_eq, List.mem_map]
  constructor
  · rintro ⟨row, ⟨hrow, htx⟩, change, hchange, rfl⟩
    exact ⟨row, hrow, htx, rfl, hchange⟩
  · rintro ⟨row, hrow, htx, hasset, hchange⟩
    exact ⟨row, ⟨hrow, htx⟩, e.2, hchange, Prod.ext hasset.symm rfl⟩

theorem lookup_fetchBalanceChanges (db : Database) (accountId : Int64) (keys : List TxKey)
    (tx : TxKey) :
    ((fetchBalanceChanges db accountId keys).lookup tx).getD [] =
      (entriesOf db accountId keys tx).map Prod.snd := by
  rw [fetchBalanceChanges, lookup_runAll, AList.lookup_empty, getD_history_extend, entriesOf,
    List.map_flatMap]
  simp [Function.comp_def]

section

variable (hread : Readable db accountId keys)

include hread

/-- The amounts of an asset's entries are those of its rows. -/
theorem amounts_entriesOf (tx : TxKey) (assetId : Int64) :
    ((entriesOf db accountId keys tx).filter
      fun e => e.1 = assetId ∧ e.2.amount.isSome).map (·.2.amount) =
    ((balanceChangeDeltas accountId db keys).filter
      fun row => row.tx = tx ∧ row.assetId = assetId ∧ row.delta.isSome).map (·.delta) := by
  have hzero : ∀ row ∈ balanceChangeDeltas accountId db keys, row.delta.isSome → row.nftDelta = 0 :=
    fun row hrow => nftDelta_of_delta hread hrow
  rw [entriesOf]
  generalize resolveAssetIdentities db _ = identities
  generalize resolveMovedPieces db _ = pieces
  generalize balanceChangeDeltas accountId db keys = rows at hzero
  -- rows of other transactions and assets are filtered out on both sides
  induction rows with
  | nil => rfl
  | cons row rows ih =>
      have ih := ih fun other hother => hzero other (List.mem_cons_of_mem _ hother)
      have hamounts := amounts_rowChanges identities pieces (hzero row List.mem_cons_self)
      by_cases htx : row.tx = tx
      · rw [List.filter_cons_of_pos (by simpa using htx), List.flatMap_cons, List.filter_append,
          List.map_append, ih, List.filter_map, List.map_map]
        by_cases hasset : row.assetId = assetId
        · have hkept : (rowChanges identities pieces row).filter
              ((fun e : Int64 × BalanceChange => decide (e.1 = assetId ∧ e.2.amount.isSome)) ∘
                (row.assetId, ·)) = (rowChanges identities pieces row).filter (·.amount.isSome) := by
            apply List.filter_congr
            intro e _
            simp [hasset]
          rw [hkept]
          change ((rowChanges identities pieces row).filter (·.amount.isSome)).map (·.amount) ++ _ = _
          rw [hamounts]
          cases hdelta : row.delta <;> simp [htx, hasset, hdelta]
        · simp [Function.comp_def, hasset]
      · rw [List.filter_cons_of_neg (by simpa using htx), ih,
          List.filter_cons_of_neg (by simp [htx])]

theorem group_eq_nil {tx : TxKey} {assetId : Int64} (htx : tx ∈ keys)
    (hnil : group accountId db keys ⟨tx, assetId, false, none⟩ = []) :
    received db accountId tx assetId - sent db accountId tx assetId = 0 := by
  have hfilter : (distinct accountId db keys).filter
      (fun row => row.tx = tx ∧ (row.assetId = assetId ∧ row.amount.isSome)) = [] := by
    rw [← hnil, group]
    simp only [keyOf_eq_fungible]
  rw [← sum_signedValue, ← sum_distinct hread htx _ _ fun row hsender hrecipient => by
    rw [signedValue, if_neg hsender, if_neg hrecipient, sub_zero], hfilter, List.map_nil,
    List.sum_nil]

/-- **Amounts are exact nets.** -/
theorem fungible_exact {tx : TxKey} (htx : tx ∈ keys) (assetId : Int64) :
    ((balanceChangeDeltas accountId db keys).filter
      fun row => row.tx = tx ∧ row.assetId = assetId ∧ row.delta.isSome).map (·.delta) =
    if received db accountId tx assetId = sent db accountId tx assetId then []
    else [some (toString (received db accountId tx assetId - sent db accountId tx assetId))] := by
  set key : DeltaKey := ⟨tx, assetId, false, none⟩ with hkeydef
  -- the rows are those of the asset's one group
  have hgroups : ((groupBy EdgeRow.deltaKey (edges accountId db keys)).filter fun g =>
      (deltaRow g).changed ∧ (deltaRow g).tx = tx ∧ (deltaRow g).assetId = assetId ∧
        (deltaRow g).delta.isSome) =
      ((groupBy EdgeRow.deltaKey (edges accountId db keys)).filter (·.1 = key)).filter
        fun g => (deltaRow g).changed := by
    rw [List.filter_filter]
    apply List.filter_congr
    rintro ⟨k, members⟩ hg
    obtain ⟨hne, rfl⟩ := (mem_groups hread).mp hg
    have hiff : (k.tx = tx ∧ k.assetId = assetId ∧ (deltaRow (k,
        (group accountId db keys k).map (edgeOf accountId))).delta.isSome) ↔ k = key := by
      rcases key_cases hne with hk | hk
      · have hdelta : (deltaRow (k,
            (group accountId db keys k).map (edgeOf accountId))).delta.isSome := by
          have htxk := tx_mem_of_group hread hne
          rw [hk] at hne ⊢
          rw [deltaRow_fungible hread htxk hne]
          rfl
        rw [hk] at hdelta ⊢
        simp [hdelta, hkeydef]
      · rw [hk, delta_pieces hread]
        simp [hkeydef]
    rw [Bool.eq_iff_iff, decide_eq_true_eq, Bool.and_eq_true, decide_eq_true_eq]
    exact and_congr_right fun _ => hiff
  have hsorted : ((balanceChangeDeltas accountId db keys).filter
      fun row => row.tx = tx ∧ row.assetId = assetId ∧ row.delta.isSome).Perm
      ((((groupBy EdgeRow.deltaKey (edges accountId db keys)).filter (·.1 = key)).filter
        fun g => (deltaRow g).changed).map deltaRow) := by
    rw [← hgroups, balanceChangeDeltas]
    refine (((sortBy_perm groupOrder _).map deltaRow).filter _).trans ?_
    rw [List.filter_map, List.filter_filter]
    apply List.Perm.of_eq
    congr 1
    apply List.filter_congr
    intro g _
    simp [Bool.and_comm]
  rw [filter_groupBy, members_eq hread key] at hsorted
  by_cases hnil : group accountId db keys key = []
  · rw [if_neg fun hedge => (exists_edge hread).mp hedge hnil] at hsorted
    rw [hsorted.eq_nil, if_pos (sub_eq_zero.mp (group_eq_nil hread htx hnil)), List.map_nil]
  · have hrow := deltaRow_fungible hread htx hnil
    rw [if_pos ((exists_edge hread).mpr hnil)] at hsorted
    split_ifs with hzero
    · have hunchanged : (deltaRow (key,
          (group accountId db keys key).map (edgeOf accountId))).changed = false := by
        rw [hrow, hzero, sub_self]
        rfl
      rw [List.filter_cons_of_neg (by simp [hunchanged])] at hsorted
      rw [hsorted.eq_nil, List.map_nil]
    · have hchanged : (deltaRow (key,
          (group accountId db keys key).map (edgeOf accountId))).changed = true := by
        rw [hrow]
        have hne : toString (received db accountId tx assetId - sent db accountId tx assetId) ≠
            "0" := by
          intro heq
          exact hzero (sub_eq_zero.mp (Int.repr_inj.mp heq))
        simpa [DeltaChRow.changed] using hne
      simp only [List.filter_cons, hchanged, if_true, List.filter_nil, List.map_singleton] at hsorted
      rw [List.perm_singleton.mp hsorted, List.map_singleton, hrow]

omit hread in
/-- The counts of a collection's entries add up as those of its rows. -/
theorem sum_entriesOf (tx : TxKey) (assetId : Int64) :
    (((entriesOf db accountId keys tx).filter (·.1 = assetId)).map (·.2.nftDelta)).sum =
      (((balanceChangeDeltas accountId db keys).filter
        fun row => row.tx = tx ∧ row.assetId = assetId).map (·.nftDelta)).sum := by
  rw [entriesOf]
  generalize resolveAssetIdentities db _ = identities
  generalize resolveMovedPieces db _ = pieces
  generalize balanceChangeDeltas accountId db keys = rows
  -- rows of other transactions and assets are filtered out on both sides
  induction rows with
  | nil => rfl
  | cons row rows ih =>
      by_cases htx : row.tx = tx
      · rw [List.filter_cons_of_pos (by simpa using htx), List.flatMap_cons, List.filter_append,
          List.map_append, List.sum_append, ih]
        by_cases hasset : row.assetId = assetId
        · have hsum := sum_rowChanges identities pieces row
          have hall : ((rowChanges identities pieces row).map (row.assetId, ·)).filter
              (·.1 = assetId) = (rowChanges identities pieces row).map (row.assetId, ·) := by
            rw [List.filter_eq_self]
            simp [hasset]
          rw [hall, List.map_map, List.filter_cons_of_pos (by simp [htx, hasset]), List.map_cons,
            List.sum_cons]
          exact congrArg (· + _) hsum
        · have hnone : ((rowChanges identities pieces row).map (row.assetId, ·)).filter
              (·.1 = assetId) = [] := by
            rw [List.filter_eq_nil_iff]
            simp [hasset]
          rw [hnone, List.filter_cons_of_neg (by simp [hasset]), List.map_nil, List.sum_nil, zero_add]
      · rw [List.filter_cons_of_neg (by simpa using htx), ih,
          List.filter_cons_of_neg (by simp [htx])]

omit hread in
/-- The pieces an account received less those it sent, movement by movement. -/
theorem sum_signedPieces (db : Database) (accountId : Int64) (tx : TxKey) (assetId : Int64) :
    ∑ row ∈ movements db with row.tx = tx ∧ row.assetId = assetId, signedPieces accountId row =
      (piecesReceived db accountId tx assetId).card - (piecesSent db accountId tx assetId).card := by
  simp only [piecesReceived, piecesSent, Finset.natCast_card_filter, Finset.sum_filter]
  rw [← Finset.sum_sub_distrib]
  apply Finset.sum_congr rfl
  intro row _
  by_cases htx : row.tx = tx <;> by_cases hasset : row.assetId = assetId <;>
    cases hamount : row.amount <;> simp [signedPieces, htx, hasset, hamount]

/-- **The pieces of a collection add up.** -/
theorem pieces_counted {tx : TxKey} (htx : tx ∈ keys) (assetId : Int64) :
    (((balanceChangeDeltas accountId db keys).filter
      fun row => row.tx = tx ∧ row.assetId = assetId).map (·.nftDelta)).sum =
      (piecesReceived db accountId tx assetId).card - (piecesSent db accountId tx assetId).card := by
  set ofAsset : DeltaKey → Bool := fun key => key.tx = tx ∧ key.assetId = assetId with hofAsset
  have hrows : (((balanceChangeDeltas accountId db keys).filter
      fun row => row.tx = tx ∧ row.assetId = assetId).map (·.nftDelta)).Perm
      (((((groupBy EdgeRow.deltaKey (edges accountId db keys)).filter (ofAsset ·.1)).filter
        fun g => (deltaRow g).changed).map fun g => (g.2.map (·.nft)).sum)) := by
    rw [balanceChangeDeltas]
    refine ((((sortBy_perm groupOrder _).map deltaRow).filter _).map _).trans (.of_eq ?_)
    rw [List.filter_map, List.map_map, List.filter_filter, List.filter_filter]
    congr 1
    apply List.filter_congr
    intro g _
    exact Bool.and_comm _ _
  calc _ = (((((groupBy EdgeRow.deltaKey (edges accountId db keys)).filter (ofAsset ·.1)).filter
        fun g => (deltaRow g).changed).map fun g => (g.2.map (·.nft)).sum)).sum := hrows.sum_eq
    _ = ((((groupBy EdgeRow.deltaKey (edges accountId db keys)).filter (ofAsset ·.1)).map
        fun g => (g.2.map (·.nft)).sum)).sum := by
        -- a group that is left out counts nothing
        refine sum_map_filter fun g _ hsame => ?_
        simp only [DeltaChRow.changed, Bool.or_eq_false_iff, decide_eq_false_iff_not,
          not_not] at hsame
        exact hsame.2
    _ = (((edges accountId db keys).filter fun edge => ofAsset edge.deltaKey).map (·.nft)).sum :=
        sum_groupBy _ _ _ _
    _ = (((distinct accountId db keys).filter fun row => row.tx = tx ∧ row.assetId = assetId).map
        (signedPieces accountId)).sum := by
        rw [edges_eq hread, List.filter_map, List.map_map]
        rfl
    _ = ∑ row ∈ movements db with row.tx = tx ∧ row.assetId = assetId,
        signedPieces accountId row :=
        sum_distinct hread htx _ _ fun row hsender hrecipient => by
          simp [signedPieces, hsender, hrecipient]
    _ = _ := sum_signedPieces db accountId tx assetId

/-- An entry has an amount or a count. -/
theorem separate_entriesOf {tx : TxKey} {e : Int64 × BalanceChange}
    (he : e ∈ entriesOf db accountId keys tx) :
    (e.2.amount.isSome ∧ e.2.nftDelta = 0 ∧ e.2.tokenId = none) ∨
      (e.2.amount = none ∧ e.2.nftDelta ≠ 0) := by
  obtain ⟨row, hrow, -, -, hchange⟩ := mem_entriesOf.mp he
  have hzero := nftDelta_of_delta hread hrow
  obtain ⟨key, -, -, hchanged⟩ := (mem_balanceChangeDeltas hread).mp hrow
  rcases (mem_rowChanges _ _).mp hchange with ⟨-, heq⟩ | ⟨token, htoken, heq⟩
  · rw [heq, entry_amount, entry_nftDelta, entry_tokenId]
    cases hdelta : row.delta with
    | some amount => exact .inl ⟨rfl, hzero (by rw [hdelta]; rfl), rfl⟩
    | none =>
        refine .inr ⟨rfl, fun hnone => ?_⟩
        simp [DeltaChRow.changed, hdelta, hnone] at hchanged
  · have hne := (length_piecesHere _ (List.ne_nil_of_mem htoken)).1
    rw [heq, entry_amount, entry_nftDelta]
    exact .inr ⟨rfl, fun hsign => hne (Int.sign_eq_zero_iff_zero.mp hsign)⟩

end

/-! ## The names -/

theorem mem_tokenIds {changes : List NftOwnershipChangesRow} {token : String} :
    token ∈ tokenIds changes ↔ token ∈ (changes.map (·.tokenId)).toFinset := by
  rw [tokenIds, mem_sortBy, mem_firstBy_id, List.mem_toFinset]

theorem length_tokenIds (changes : List NftOwnershipChangesRow) :
    (tokenIds changes).length = (changes.map (·.tokenId)).toFinset.card := by
  rw [tokenIds, length_sortBy, ← List.toFinset_card_of_nodup (nodup_firstBy_id _)]
  congr 1
  ext token
  rw [List.mem_toFinset, mem_firstBy_id, List.mem_toFinset]

/-- The pieces that are read for an owner are all that came to that owner. -/
theorem lookup_resolveMovedPieces {lookups : List (Int64 × TxKey)} {key : PieceKey}
    (hcontract : key.contractId ∈ lookups.map Prod.fst) (htx : key.tx ∈ lookups.map Prod.snd) :
    (resolveMovedPieces db lookups).lookup key =
      if ∃ change ∈ db.nftOwnershipChanges, pieceKey change = key then
        some (tokenIds (db.nftOwnershipChanges.filter (pieceKey · = key)))
      else none := by
  set rows := db.nftOwnershipChanges.filter fun change =>
    change.contractId ∈ lookups.map Prod.fst ∧ changeTx change ∈ lookups.map Prod.snd with hrows
  have hread : ∀ change, pieceKey change = key →
      (change ∈ rows ↔ change ∈ db.nftOwnershipChanges) := by
    rintro change rfl
    simp only [hrows, List.mem_filter, decide_eq_true_eq]
    exact and_iff_left ⟨hcontract, htx⟩
  -- the query reads more keys than this one, but all of this one
  have hmembers : rows.filter (pieceKey · = key) =
      db.nftOwnershipChanges.filter (pieceKey · = key) := by
    rw [hrows, List.filter_filter]
    apply List.filter_congr
    intro change _
    by_cases hkey : pieceKey change = key
    · subst hkey
      have hboth : change.contractId ∈ lookups.map Prod.fst ∧
          changeTx change ∈ lookups.map Prod.snd := ⟨hcontract, htx⟩
      rw [decide_eq_true hboth, Bool.and_true]
    · rw [decide_eq_false hkey, Bool.false_and]
  have hexists : (∃ change ∈ rows, pieceKey change = key) ↔
      ∃ change ∈ db.nftOwnershipChanges, pieceKey change = key := by
    refine exists_congr fun change => and_congr_left fun hkey => hread change hkey
  rw [resolveMovedPieces, lookup_collect, lastOf_map_pair, filter_groupBy]
  rw [← hrows, hmembers]
  by_cases hsome : ∃ change ∈ db.nftOwnershipChanges, pieceKey change = key
  · rw [if_pos (hexists.mpr hsome), if_pos hsome]
    rfl
  · rw [if_neg (mt hexists.mp hsome), if_neg hsome]
    rfl

/-- A row names the pieces of its new owner if there are as many as it moved. -/
theorem mem_piecesHere {row : DeltaChRow} (hrow : row ∈ balanceChangeDeltas accountId db keys)
    {token : String} :
    token ∈ piecesHere
        (resolveMovedPieces db (nftLookups (balanceChangeDeltas accountId db keys))) row ↔
      row.nftDelta ≠ 0 ∧
        (arrived db row.tx row.assetId row.nftOwner).card = row.nftDelta.natAbs ∧
          token ∈ arrived db row.tx row.assetId row.nftOwner := by
  by_cases hzero : row.nftDelta = 0
  · simp [piecesHere, hzero]
  -- a row that moved pieces is among the looked up
  have hin : (row.assetId, row.tx) ∈ nftLookups (balanceChangeDeltas accountId db keys) :=
    List.mem_map.mpr ⟨row, List.mem_filter.mpr ⟨hrow, by simpa using hzero⟩, rfl⟩
  have hlookup := @lookup_resolveMovedPieces db
    (nftLookups (balanceChangeDeltas accountId db keys)) ⟨row.assetId, row.tx, row.nftOwner⟩
    (List.mem_map_of_mem hin) (List.mem_map_of_mem hin)
  set changes := db.nftOwnershipChanges.filter
    (pieceKey · = ⟨row.assetId, row.tx, row.nftOwner⟩) with hchanges
  have harrived : arrived db row.tx row.assetId row.nftOwner = (changes.map (·.tokenId)).toFinset :=
    rfl
  rw [piecesHere, if_pos hzero, hlookup, harrived]
  split_ifs with hsome
  · by_cases hlength : (tokenIds changes).length = row.nftDelta.natAbs
    · rw [← length_tokenIds]
      simp [Option.filter, hlength, hzero, mem_tokenIds]
    · rw [← length_tokenIds]
      simp [Option.filter, hlength]
  · have hnil : changes = [] := by
      rw [hchanges, List.filter_eq_nil_iff]
      intro change hchange
      simpa using fun hkey => hsome ⟨change, hchange, hkey⟩
    simp [hnil]

section

variable (hread : Readable db accountId keys)

include hread

/-- Where the counts agree, every piece that came to the owner is named as sent. -/
theorem exists_named {tx : TxKey} (htx : tx ∈ keys) {assetId : Int64} {owner : Option Int64}
    (howner : owner ≠ some accountId)
    (hcount : (arrived db tx assetId owner).card = (movedTo db accountId tx assetId owner).card)
    {token : String} (htoken : token ∈ arrived db tx assetId owner) :
    ∃ e ∈ entriesOf db accountId keys tx,
      e.1 = assetId ∧ e.2.tokenId = some token ∧ e.2.nftDelta < 0 := by
  set row := deltaRow (⟨tx, assetId, true, owner⟩,
    (group accountId db keys ⟨tx, assetId, true, owner⟩).map (edgeOf accountId)) with hrowdef
  have hsent : row.nftDelta = -(movedTo db accountId tx assetId owner).card :=
    nftDelta_sent hread htx howner
  have hpos : 0 < (movedTo db accountId tx assetId owner).card :=
    hcount ▸ Finset.card_pos.mpr ⟨token, htoken⟩
  have hneg : row.nftDelta < 0 := by omega
  have hrow : row ∈ balanceChangeDeltas accountId db keys := by
    refine (mem_balanceChangeDeltas hread).mpr ⟨_, fun hnil => ?_, rfl, ?_⟩
    · rw [hrowdef, hnil] at hneg
      exact lt_irrefl (0 : ℤ) hneg
    · simp [DeltaChRow.changed, hneg.ne]
  have hnamed : token ∈ piecesHere
      (resolveMovedPieces db (nftLookups (balanceChangeDeltas accountId db keys))) row :=
    (mem_piecesHere hrow).mpr ⟨hneg.ne, hcount.trans (by omega), htoken⟩
  refine ⟨(row.assetId, entry _ row none row.nftDelta.sign (some token)),
    mem_entriesOf.mpr ⟨row, hrow, rfl, rfl, (mem_rowChanges _ _).mpr (.inr ⟨token, hnamed, rfl⟩)⟩,
    rfl, entry_tokenId _ _ _ _ _, ?_⟩
  rw [entry_nftDelta]
  exact Int.sign_neg_iff.mpr hneg

/-- An entry that names a piece is of a group of pieces, all of which are named. -/
theorem named_cases {tx : TxKey} {e : Int64 × BalanceChange}
    (he : e ∈ entriesOf db accountId keys tx) {token : String} (htoken : token ∈ e.2.tokenId) :
    tx ∈ keys ∧ ∃ owner, token ∈ arrived db tx e.1 owner ∧
      ((owner = some accountId ∧ 0 < e.2.nftDelta) ∨
        (owner ≠ some accountId ∧ e.2.nftDelta < 0 ∧
          (arrived db tx e.1 owner).card = (movedTo db accountId tx e.1 owner).card)) := by
  obtain ⟨row, hrow, rfl, hasset, hchange⟩ := mem_entriesOf.mp he
  obtain ⟨key, hne, hkeyrow, -⟩ := (mem_balanceChangeDeltas hread).mp hrow
  have htx := tx_mem_of_group hread hne
  rcases (mem_rowChanges _ _).mp hchange with ⟨-, heq⟩ | ⟨named, hnamed, heq⟩
  · rw [heq, entry_tokenId] at htoken
    cases htoken
  rw [heq, entry_tokenId, Option.mem_some_iff] at htoken
  subst htoken
  obtain ⟨hzero, hcount, harrived⟩ := (mem_piecesHere hrow).mp hnamed
  rw [hasset, heq, entry_nftDelta]
  rcases key_cases hne with hkey | hkey
  · -- amounts count no pieces
    rw [hkey] at hne hkeyrow
    rw [hkeyrow, deltaRow_fungible hread htx hne] at hzero
    exact absurd rfl hzero
  · have hrowtx : row.tx = key.tx := by rw [hkeyrow]; rfl
    have hrowasset : row.assetId = key.assetId := by rw [hkeyrow]; rfl
    have hrowowner : row.nftOwner = key.nftOwner := by rw [hkeyrow]; rfl
    rw [hrowtx] at harrived hcount ⊢
    rw [hrowasset] at harrived hcount ⊢
    rw [hrowowner] at harrived hcount
    refine ⟨htx, key.nftOwner, harrived, ?_⟩
    by_cases howner : key.nftOwner = some accountId
    · have hreceived : 0 ≤ row.nftDelta := by
        rw [hkeyrow, hkey, howner]
        exact nftDelta_received hread
      exact .inl ⟨howner, Int.sign_pos_iff.mpr (by omega)⟩
    · have hsent : row.nftDelta =
          -(movedTo db accountId key.tx key.assetId key.nftOwner).card := by
        rw [hkeyrow, hkey]
        exact nftDelta_sent hread htx howner
      exact .inr ⟨howner, Int.sign_neg_iff.mpr (by omega), by omega⟩

/-- **Names are right exactly when counts tell.**  The entries are what the page holds of a
transaction; everything but the names is always as promised. -/
theorem accurate_iff_countsTell :
    (∀ tx, ((fetchBalanceChanges db accountId keys).lookup tx).getD [] =
      (entriesOf db accountId keys tx).map Prod.snd) ∧
    (Accurate db accountId keys ↔ CountsTell db accountId keys) := by
  refine ⟨lookup_fetchBalanceChanges db accountId keys, fun h => ?_, fun h => ?_⟩
  · intro tx htx assetId owner howner hcount token htoken
    obtain ⟨e, he, rfl, hname, hneg⟩ := exists_named hread htx howner hcount htoken
    exact (h.named tx htx e he token hname).2 hneg
  · refine ⟨fun tx htx assetId => ?_, fun tx _ e he => separate_entriesOf hread he,
      fun tx htx assetId => ?_, fun tx htx e he token htoken => ?_⟩
    · rw [amounts_entriesOf hread, fungible_exact hread htx]
    · rw [sum_entriesOf, pieces_counted hread htx]
    · obtain ⟨-, owner, harrived, hcases⟩ := named_cases hread he htoken
      rcases hcases with ⟨rfl, hpos⟩ | ⟨howner, hneg, hcount⟩
      · refine ⟨fun _ => ?_, fun hneg => absurd hneg (by omega)⟩
        -- whatever came to the account was received
        simp only [arrived, List.mem_toFinset, List.mem_map, List.mem_filter,
          decide_eq_true_eq] at harrived
        obtain ⟨change, ⟨hchange, hkey⟩, rfl⟩ := harrived
        obtain ⟨row, hrow, hrecords⟩ := hread.recorded change hchange
        obtain ⟨hcontract, htxs, howners⟩ := PieceKey.mk.inj hkey
        refine ⟨change, hchange, hcontract, htxs, rfl, row, hrow, hrecords, ?_⟩
        exact hrecords.2.2.2.2.2.trans howners
      · exact ⟨fun hpos => absurd hpos (by omega),
          fun _ => h tx htx e.1 owner howner hcount token harrived⟩

end

/-! ## Two tables -/

/-- The transaction of the tables below. -/
private def onlyTx : TxKey := ⟨70, 1⟩

/-- A piece of collection 9 that moves. -/
private def pieceMove (position : Int16) (sender recipient : Int64) : AssetTransferRow :=
  { ledgerSequence := 70, applicationOrder := 1, opIndex := 0, eventPosInOp := position
    assetId := 9, amount := none
    senderId := some sender, senderKind := "G", senderMuxedId := none
    recipientId := some recipient, recipientKind := "G", recipientMuxedId := none
    verb := "transfer" }

private def pieceChange (position : UInt32) (token : String) (owner : Int64) :
    NftOwnershipChangesRow :=
  { contractId := 9, tokenId := token, ledgerSequence := 70, applicationOrder := 1
    operationIndex := 0, eventIndex := position, ownerId := some owner, eventType := 1 }

private def tablesOf (assetTransfers : List AssetTransferRow)
    (nftOwnershipChanges : List NftOwnershipChangesRow) : Database :=
  { assetTransfers, nftOwnershipChanges, assets := [], sorobanContracts := []
    sorobanContractMetadata := [], accounts := [] }

/-- Amounts whose total fits are summed within the range. -/
private theorem fits_of_total {db : Database} (hamounts : ∀ row ∈ db.assetTransfers,
      0 ≤ row.amount.getD 0)
    (htotal : ∑ row ∈ movements db, row.amount.getD 0 < 2 ^ 127) (accountId : Int64) (tx : TxKey)
    (assetId : Int64) :
    -2 ^ 127 ≤ received db accountId tx assetId - sent db accountId tx assetId ∧
      received db accountId tx assetId - sent db accountId tx assetId < 2 ^ 127 := by
  have hnonneg : ∀ row ∈ movements db, 0 ≤ row.amount.getD 0 :=
    fun row hrow => hamounts row (List.mem_toFinset.mp hrow)
  have hpart : ∀ p : AssetTransferRow → Prop, [DecidablePred p] →
      0 ≤ ∑ row ∈ movements db with p row, row.amount.getD 0 ∧
        ∑ row ∈ movements db with p row, row.amount.getD 0 ≤
          ∑ row ∈ movements db, row.amount.getD 0 := by
    intro p _
    constructor
    · exact Finset.sum_nonneg fun row hrow => hnonneg row (Finset.mem_of_mem_filter row hrow)
    · exact Finset.sum_le_sum_of_subset_of_nonneg (Finset.filter_subset _ _)
        fun row hrow _ => hnonneg row hrow
  obtain ⟨hreceived, hreceivedFits⟩ := hpart fun row =>
    row.tx = tx ∧ row.assetId = assetId ∧ row.recipientId = some accountId
  obtain ⟨hsent, hsentFits⟩ := hpart fun row =>
    row.tx = tx ∧ row.assetId = assetId ∧ row.senderId = some accountId
  unfold received sent
  omega

/-- A payment in asset 5. -/
private def payment (position : Int16) (amount : ℤ) (sender recipient : Int64) :
    AssetTransferRow :=
  { pieceMove position sender recipient with assetId := 5, amount := some amount }

/-- Account 1 sells a piece to account 2, and buys one of account 3 for less; the payment for
the first is held twice. -/
private def traded : Database :=
  tablesOf [pieceMove 0 1 2, payment 1 500 2 1, payment 1 500 2 1, pieceMove 2 3 1,
      payment 3 200 1 3]
    [pieceChange 0 "X" 2, pieceChange 2 "Y" 1]

/-- Both pieces are named, and what is left of the payments is received. -/
theorem accurate_iff_countsTell_traded :
    CountsTell traded 1 [onlyTx] ∧ Accurate traded 1 [onlyTx] ∧
      ((entriesOf traded 1 [onlyTx] onlyTx).filter fun e => e.1 = 5 ∧ e.2.amount.isSome).map
        (·.2.amount) = [some "300"] := by
  have hread : Readable traded 1 [onlyTx] := by
    refine ⟨by decide, by decide, fun tx _ assetId => ?_⟩
    exact fits_of_total (by decide) (by decide) 1 tx assetId
  have htell : CountsTell traded 1 [onlyTx] := by
    intro tx _ assetId owner howner _ token htoken
    simp only [arrived, List.mem_toFinset, List.mem_map, List.mem_filter,
      decide_eq_true_eq] at htoken
    obtain ⟨change, ⟨hchange, hkey⟩, rfl⟩ := htoken
    obtain ⟨hcontract, htx, hownerOf⟩ := PieceKey.mk.inj hkey
    have hsold : ∀ change ∈ traded.nftOwnershipChanges, change.ownerId ≠ some 1 →
        ∃ row ∈ traded.assetTransfers, Records row change ∧ row.senderId = some 1 := by decide
    rw [← hownerOf] at howner
    exact ⟨change, hchange, hcontract, htx, rfl, hsold change hchange howner⟩
  have haccurate := (accurate_iff_countsTell hread).2.mpr htell
  have hreceived : received traded 1 onlyTx 5 = 500 := by decide
  have hsent : sent traded 1 onlyTx 5 = 200 := by decide
  have hleft := haccurate.fungible onlyTx (List.mem_singleton.mpr rfl) 5
  rw [hreceived, hsent] at hleft
  exact ⟨htell, haccurate, hleft⟩

/-- Account 1 sends a piece to account 2, gets it back and sends it again; account 3 sends
another piece there. -/
private def sentTwice : Database :=
  tablesOf [pieceMove 0 1 2, pieceMove 1 2 1, pieceMove 2 1 2, pieceMove 3 3 2]
    [pieceChange 0 "X" 2, pieceChange 1 "X" 1, pieceChange 2 "X" 2, pieceChange 3 "Y" 2]

/-- The piece of account 3 is named as sent by account 1. -/
theorem not_accurate_sentTwice :
    Readable sentTwice 1 [onlyTx] ∧ ¬ Accurate sentTwice 1 [onlyTx] := by
  have hread : Readable sentTwice 1 [onlyTx] := by
    refine ⟨by decide, by decide, fun tx _ assetId => ?_⟩
    exact fits_of_total (by decide) (by decide) 1 tx assetId
  refine ⟨hread, fun h => ?_⟩
  have htx : onlyTx ∈ [onlyTx] := List.mem_singleton.mpr rfl
  obtain ⟨e, he, hasset, hname, hneg⟩ := @exists_named _ _ _ hread onlyTx htx 9 (some 2) (by decide)
    (by decide) "Y" (by decide)
  have hsent := (h.named onlyTx htx e he "Y" hname).2 hneg
  rw [hasset] at hsent
  revert hsent
  unfold Moved
  decide

end BalanceChanges

end SorobanExplorer
