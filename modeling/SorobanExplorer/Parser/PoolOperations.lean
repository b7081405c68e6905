import SorobanExplorer.Parser.LedgerEntryChanges

/-!
# What an operation moves through a pool

The details of an operation carry two records of it: the claim atoms of its result, for
path payments and offers that cross a pool, and the difference between the pool's reserves
before and after it, for deposits and withdrawals.
-/

namespace SorobanExplorer

open Text

/-! ## Claim atoms -/

structure ClaimLiquidityAtom where
  liquidityPoolId : Hash
  assetSold : Asset
  amountSold : Int64
  assetBought : Asset
  amountBought : Int64

/-- An exchange in a result.  Of those with an offer nothing is read here. -/
inductive ClaimAtom
  | v0
  | orderBook
  | liquidityPool (atom : ClaimLiquidityAtom)

/-- Assets in their XDR order: the type, then the code, then the issuer. -/
def Asset.orderKey : Asset → ℕ × Bytes × ℕ
  | .native => (0, [], 0)
  | .creditAlphanum4 code issuer => (1, code.bytes, issuer.toNat)
  | .creditAlphanum12 code issuer => (2, code.bytes, issuer.toNat)

def Asset.le (a b : Asset) : Bool :=
  let (aType, aCode, aIssuer) := a.orderKey
  let (bType, bCode, bIssuer) := b.orderKey
  aType < bType ∨ aType = bType ∧ (aCode < bCode ∨ aCode = bCode ∧ aIssuer ≤ bIssuer)

/-- The amount on the side of the pool's first asset. -/
def ClaimLiquidityAtom.amountA (atom : ClaimLiquidityAtom) : Int64 :=
  if atom.assetSold.le atom.assetBought then atom.amountSold else atom.amountBought

def claimLpAtoms (atoms : List ClaimAtom) : List ClaimLiquidityAtom :=
  atoms.filterMap fun
    | .liquidityPool atom => some atom
    | _ => none

section

variable [Crates]

/-- An asset as one text: `native`, or the code and the issuer. -/
def formatAssetRef : Asset → String
  | .native => "native"
  | .creditAlphanum4 code issuer => assetCodeStr code.bytes ++ ":" ++ Crates.accountStrkey issuer
  | .creditAlphanum12 code issuer => assetCodeStr code.bytes ++ ":" ++ Crates.accountStrkey issuer

def claimedAtom (atom : ClaimLiquidityAtom) : Json :=
  .obj [("poolId", .str (hexEncode atom.liquidityPoolId.bytes)),
    ("assetSold", .str (formatAssetRef atom.assetSold)),
    ("amountSold", .num atom.amountSold.toInt),
    ("assetBought", .str (formatAssetRef atom.assetBought)),
    ("amountBought", .num atom.amountBought.toInt),
    ("amountA", .num atom.amountA.toInt)]

/-- Set the field of an object. -/
def insertField (fields : List (String × Json)) (key : String) (value : Json) :
    List (String × Json) :=
  fields.filter (·.1 ≠ key) ++ [(key, value)]

/-- Add the pools an operation crossed, and each crossing. -/
def Json.appendPoolClaims (details : Json) (atoms : List ClaimAtom) : Json :=
  match details with
  | .obj fields =>
      let claimed := claimLpAtoms atoms
      if claimed.isEmpty then .obj fields
      else
        let poolIds := claimed.foldl (fun ids atom =>
          let id := hexEncode atom.liquidityPoolId.bytes
          if id ∈ ids then ids else ids ++ [id]) []
        .obj (insertField (insertField fields "poolIds" (.arr (poolIds.map .str)))
          "claimedAtoms" (.arr (claimed.map claimedAtom)))
  | other => other

end

/-! ## Reserves before and after -/

/-- The pool of an entry, if it is the pool. -/
def poolConstantProduct (entry : LedgerEntry) (poolId : Hash) : Option LiquidityPoolEntry :=
  match entry.data with
  | .liquidityPool pool => if pool.liquidityPoolId = poolId then some pool else none
  | _ => none

/-- What is noted of a pool along an operation's changes. -/
structure PoolEnds where
  before : Option LiquidityPoolEntry
  after : Option LiquidityPoolEntry
  removed : Bool

/-- The first image before a change stays, and the last one after it. -/
def PoolEnds.note (poolId : Hash) (ends : PoolEnds) : LedgerEntryChange → PoolEnds
  | .state entry => { ends with before := ends.before.or (poolConstantProduct entry poolId) }
  | .created entry | .updated entry | .restored entry =>
      { ends with after := (poolConstantProduct entry poolId).or ends.after }
  | .removed (.liquidityPool id) => { ends with removed := ends.removed || id = poolId }
  | .removed _ => ends

def poolEnds (changes : List LedgerEntryChange) (poolId : Hash) : PoolEnds :=
  changes.foldl (PoolEnds.note poolId) ⟨none, none, false⟩

def PoolEnds.reservesBefore (ends : PoolEnds) : Int64 × Int64 :=
  ends.before.elim (0, 0) fun pool => (pool.reserveA, pool.reserveB)

/-- Nothing after an operation that only read the pool. -/
def PoolEnds.reservesAfter (ends : PoolEnds) : Option (Int64 × Int64) :=
  if ends.removed then some (0, 0) else ends.after.map fun pool => (pool.reserveA, pool.reserveB)

/-- The difference as it is written to the details. -/
def poolDelta [Crates] (poolId : Hash) (pool : LiquidityPoolEntry) (deltaA deltaB : ℤ) : Json :=
  .obj [("poolId", .str (hexEncode poolId.bytes)),
    ("assetA", .str (formatAssetRef pool.assetA)), ("amountA", .num deltaA),
    ("assetB", .str (formatAssetRef pool.assetB)), ("amountB", .num deltaB)]

/-- What a deposit or a withdrawal moved. -/
def poolDeltaDetails [Crates] (changes : List LedgerEntryChange) (poolId : Hash) : Option Json := do
  let ends := poolEnds changes poolId
  let pool ← ends.after.or ends.before
  let (afterA, afterB) ← ends.reservesAfter
  let (beforeA, beforeB) := ends.reservesBefore
  let (deltaA, deltaB) := (afterA - beforeA, afterB - beforeB)
  if deltaA = 0 ∧ deltaB = 0 then none else some (poolDelta poolId pool deltaA.toInt deltaB.toInt)

end SorobanExplorer
