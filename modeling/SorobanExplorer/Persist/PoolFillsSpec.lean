import SorobanExplorer.Lib.Checked
import SorobanExplorer.Parser.AccountHoldings
import SorobanExplorer.Parser.PoolOperations
import SorobanExplorer.Persist.PoolFills
import Mathlib.Algebra.BigOperators.Group.List.Basic
import Mathlib.Algebra.Order.BigOperators.Group.List
import Mathlib.Algebra.Order.Group.Unbundled.Int
import Mathlib.Tactic.Linarith
import Mathlib.Tactic.NormNum
import Mathlib.Tactic.Ring

/-!
# Pool fills are exact

The details of an operation say again what its result and its changes say
(`fillLegs_details`), and no running sum leaves the range of its type: what moved of an
asset so far is the difference of two reserves of the pool, and volumes are sums of fewer
than `2 ^ 64` amounts.  So every addition is exact, and the fills of an operation are the
exact sums (`poolFillAmounts_exact`).
-/

namespace SorobanExplorer

open KeyedFold Text Checked

section

variable [Crates]

/-- What an operation did to pools, and its other details. -/
structure PoolOperation where
  fields : List (String × Json)
  atoms : List ClaimAtom
  /-- The pool of a deposit or a withdrawal, and the difference of its two reserves. -/
  delta : Option (LiquidityPoolEntry × Int64 × Int64)

def deltaField (delta : Option (LiquidityPoolEntry × Int64 × Int64)) : List (String × Json) :=
  delta.toList.map fun (pool, deltaA, deltaB) =>
    ("poolDelta", poolDelta pool.liquidityPoolId pool deltaA.toInt deltaB.toInt)

def PoolOperation.details (op : PoolOperation) : Json :=
  Json.appendPoolClaims (.obj (op.fields ++ deltaField op.delta)) op.atoms

/-! ## What moved -/

/-- The surrogate of an asset. -/
def Asset.surrogate : Asset → Int64
  | .native => Ids.nativeAssetId
  | .creditAlphanum4 code issuer =>
      Ids.creditAssetId (assetCodeStr code.bytes) (Crates.accountStrkey issuer)
  | .creditAlphanum12 code issuer =>
      Ids.creditAssetId (assetCodeStr code.bytes) (Crates.accountStrkey issuer)

/-- A code and an issuer that are told apart again in one text. -/
def TextApart (code issuer : String) : Prop := code ≠ "" ∧ ':' ∉ code.toList ∧ issuer ≠ ""

/-- An asset as the network has them: a code of letters and digits, and an issuer. -/
def Asset.Named : Asset → Prop
  | .native => True
  | .creditAlphanum4 code issuer =>
      TextApart (assetCodeStr code.bytes) (Crates.accountStrkey issuer)
  | .creditAlphanum12 code issuer =>
      TextApart (assetCodeStr code.bytes) (Crates.accountStrkey issuer)

/-- The legs of an exchange with a pool, from the pool's side. -/
def ClaimLiquidityAtom.legs (atom : ClaimLiquidityAtom) : List ((Bytes × Int64) × ℤ) :=
  [((atom.liquidityPoolId.bytes, atom.assetBought.surrogate), atom.amountBought.toInt),
    ((atom.liquidityPoolId.bytes, atom.assetSold.surrogate), -atom.amountSold.toInt)]

namespace PoolOperation

/-- Everything an operation moved through pools, in order. -/
def legs (op : PoolOperation) : List ((Bytes × Int64) × ℤ) :=
  (claimLpAtoms op.atoms).flatMap ClaimLiquidityAtom.legs ++
    op.delta.toList.flatMap fun (pool, deltaA, deltaB) =>
      [((pool.liquidityPoolId.bytes, pool.assetA.surrogate), deltaA.toInt),
        ((pool.liquidityPoolId.bytes, pool.assetB.surrogate), deltaB.toInt)]

/-- What an operation moved of an asset through a pool. -/
def moved (op : PoolOperation) (key : Bytes × Int64) : List ℤ :=
  (op.legs.filter (·.1 = key)).map Prod.snd

/-- The assets an operation names. -/
def assets (op : PoolOperation) : List Asset :=
  (claimLpAtoms op.atoms).flatMap (fun atom => [atom.assetBought, atom.assetSold]) ++
    op.delta.toList.flatMap fun (pool, _, _) => [pool.assetA, pool.assetB]

/-- An operation as the network executes it.  A pool never holds a negative amount, nor one
beyond 64 bits, of an asset; assets are told apart by their surrogates, as the rows do. -/
structure OnChain (op : PoolOperation) : Prop where
  fields : ∀ field ∈ op.fields, field.1 ≠ "claimedAtoms" ∧ field.1 ≠ "poolDelta"
  named : ∀ asset ∈ op.assets, asset.Named
  amounts : ∀ atom ∈ claimLpAtoms op.atoms,
    0 ≤ atom.amountBought.toInt ∧ 0 ≤ atom.amountSold.toInt
  reserves : ∀ key, ∃ reserve : ℤ, ∀ first, first <+: op.moved key →
    0 ≤ reserve + first.sum ∧ reserve + first.sum < 2 ^ 63

end PoolOperation

/-! ## Reading the details -/

omit [Crates] in
theorem get?_insertField (fields : List (String × Json)) (key other : String) (value : Json) :
    (Json.obj (insertField fields key value)).get? other =
      if other = key then some value else (Json.obj fields).get? other := by
  simp only [Json.get?_obj, insertField]
  rw [List.find?_append]
  by_cases h : other = key
  · subst h
    have hnone : (fields.filter (·.1 ≠ other)).find? (·.1 == other) = none := by
      simp [List.find?_eq_none]
    rw [hnone]
    simp
  · have hfilter : (fields.filter (·.1 ≠ key)).find? (·.1 == other) =
        fields.find? (·.1 == other) := by
      rw [List.find?_filter]
      congr 1
      funext field
      by_cases hfield : field.1 = other
      · simp [hfield, h]
      · simp [hfield]
    have hsingle : [(key, value)].find? (·.1 == other) = none := by
      simp [Ne.symm h]
    rw [hfilter, hsingle, Option.or_none, if_neg h]

/-- The claims are the last word on their two fields. -/
theorem get?_appendPoolClaims (fields : List (String × Json)) (atoms : List ClaimAtom) {key : String}
    (hkey : key ≠ "poolIds") :
    (Json.appendPoolClaims (.obj fields) atoms).get? key =
      if key = "claimedAtoms" ∧ claimLpAtoms atoms ≠ [] then
        some (.arr ((claimLpAtoms atoms).map claimedAtom))
      else (Json.obj fields).get? key := by
  unfold Json.appendPoolClaims
  by_cases hnil : claimLpAtoms atoms = []
  · simp [hnil]
  · simp only [List.isEmpty_iff, hnil, if_false, get?_insertField, hkey, ne_eq, not_false_iff,
      and_true]

theorem get?_deltaField {op : PoolOperation} (h : op.OnChain) :
    op.details.get? "poolDelta" = op.delta.map fun (pool, deltaA, deltaB) =>
      poolDelta pool.liquidityPoolId pool deltaA.toInt deltaB.toInt := by
  have hfields : op.fields.find? (·.1 == "poolDelta") = none := by
    rw [List.find?_eq_none]
    exact fun field hfield => by simpa using (h.fields field hfield).2
  rw [PoolOperation.details, get?_appendPoolClaims _ _ (by decide), if_neg fun hkey => by
    exact absurd hkey.1 (by decide), Json.get?_obj, List.find?_append, hfields, Option.none_or]
  cases op.delta <;> rfl

theorem claimedAtoms_details {op : PoolOperation} (h : op.OnChain) :
    claimedAtoms op.details = (claimLpAtoms op.atoms).map claimedAtom := by
  have hfields : op.fields.find? (·.1 == "claimedAtoms") = none := by
    rw [List.find?_eq_none]
    exact fun field hfield => by simpa using (h.fields field hfield).1
  rw [claimedAtoms, PoolOperation.details, get?_appendPoolClaims _ _ (by decide)]
  by_cases hnil : claimLpAtoms op.atoms = []
  · rw [if_neg fun hkey => hkey.2 hnil, hnil, Json.get?_obj, List.find?_append, hfields]
    cases op.delta <;> rfl
  · rw [if_pos ⟨rfl, hnil⟩]
    rfl

/-- A named asset is read back from its text. -/
theorem claimAtomAssetId_formatAssetRef {asset : Asset} (h : asset.Named) :
    claimAtomAssetId (.str (formatAssetRef asset)) = some asset.surrogate := by
  have hcredit : ∀ code issuer : String, TextApart code issuer →
      claimAtomAssetId (.str (code ++ ":" ++ issuer)) = some (Ids.creditAssetId code issuer) := by
    rintro code issuer ⟨hcode, hcolon, hissuer⟩
    have hlist : (code ++ ":" ++ issuer).toList = code.toList ++ ':' :: issuer.toList := by
      simp
    have hsplit : splitOnceColon (code ++ ":" ++ issuer) = some (code, issuer) := by
      rw [splitOnceColon, hlist, splitOnce_append hcolon]
      simp
    have hnative : code ++ ":" ++ issuer ≠ "native" := by
      intro heq
      have hmem : ':' ∈ "native".toList := by
        rw [← heq, hlist]
        simp
      revert hmem
      decide
    simp [claimAtomAssetId, hnative, hsplit, hcode, hissuer]
  cases asset with
  | native => rfl
  | creditAlphanum4 code issuer => exact hcredit _ _ h
  | creditAlphanum12 code issuer => exact hcredit _ _ h

omit [Crates] in
theorem atomPoolId_of_get? {entry : Json} {poolId : Hash}
    (h : entry.get? "poolId" = some (.str (hexEncode poolId.bytes))) :
    atomPoolId entry = some poolId.bytes := by
  simp [atomPoolId, h, hexDecode_hexEncode, Hash.length_bytes]

/-- A leg whose amount its sign keeps in range. -/
theorem entryLeg_eq {entry : Json} {poolId : Bytes} {assetKey amountKey : String} {sign : ℤ}
    {asset : Asset} {amount : Int64} (hasset : entry.get? assetKey = some (.str (formatAssetRef asset)))
    (hnamed : asset.Named) (hamount : entry.get? amountKey = some (.num amount.toInt))
    (hlow : -2 ^ 63 ≤ sign * amount.toInt) (hhigh : sign * amount.toInt < 2 ^ 63) :
    entryLeg entry poolId assetKey amountKey sign =
      some ((poolId, asset.surrogate), sign * amount.toInt) := by
  have hwrap : (sign * amount.toInt).bmod (2 ^ 64) = sign * amount.toInt :=
    Int.bmod_eq_of_le (by norm_num; omega) (by norm_num; omega)
  have hid : (entry.get? assetKey).bind claimAtomAssetId = some asset.surrogate := by
    rw [hasset, Option.bind_some, claimAtomAssetId_formatAssetRef hnamed]
  have hvalue : (entry.get? amountKey).bind Json.asI64 = some amount.toInt := by
    rw [hamount, Option.bind_some, asI64_int64]
  unfold entryLeg
  rw [hid, hvalue]
  exact congrArg (fun value => some ((poolId, asset.surrogate), value)) hwrap

theorem atomLegs_claimedAtom {atom : ClaimLiquidityAtom} (hbought : atom.assetBought.Named)
    (hsold : atom.assetSold.Named)
    (hnonneg : 0 ≤ atom.amountBought.toInt ∧ 0 ≤ atom.amountSold.toInt) :
    atomLegs (claimedAtom atom) = atom.legs := by
  have hboughtHigh := atom.amountBought.toInt_lt
  have hsoldHigh := atom.amountSold.toInt_lt
  have hpool : atomPoolId (claimedAtom atom) = some atom.liquidityPoolId.bytes :=
    atomPoolId_of_get? rfl
  have hin : entryLeg (claimedAtom atom) atom.liquidityPoolId.bytes "assetBought" "amountBought" 1 =
      some ((atom.liquidityPoolId.bytes, atom.assetBought.surrogate), 1 * atom.amountBought.toInt) :=
    entryLeg_eq rfl hbought rfl (by omega) (by omega)
  have hout : entryLeg (claimedAtom atom) atom.liquidityPoolId.bytes "assetSold" "amountSold" (-1) =
      some ((atom.liquidityPoolId.bytes, atom.assetSold.surrogate), -1 * atom.amountSold.toInt) :=
    entryLeg_eq rfl hsold rfl (by omega) (by omega)
  simp [atomLegs, hpool, hin, hout, ClaimLiquidityAtom.legs]

/-- **The details say what moved**, leg by leg and in order. -/
theorem fillLegs_details {op : PoolOperation} (h : op.OnChain) : fillLegs op.details = op.legs := by
  have hatoms : ((claimLpAtoms op.atoms).map claimedAtom).flatMap atomLegs =
      (claimLpAtoms op.atoms).flatMap ClaimLiquidityAtom.legs := by
    rw [List.flatMap_map]
    apply List.flatMap_congr
    intro atom hatom
    have hassets : ∀ asset ∈ [atom.assetBought, atom.assetSold], asset ∈ op.assets :=
      fun asset hasset => List.mem_append_left _ (List.mem_flatMap.mpr ⟨atom, hatom, hasset⟩)
    exact atomLegs_claimedAtom (h.named _ (hassets _ (by simp))) (h.named _ (hassets _ (by simp)))
      (h.amounts atom hatom)
  rw [fillLegs, claimedAtoms_details h, hatoms, PoolOperation.legs, deltaLegs, get?_deltaField h]
  congr 1
  cases hdelta : op.delta with
  | none => rfl
  | some delta =>
      obtain ⟨pool, deltaA, deltaB⟩ := delta
      have hassets : ∀ asset ∈ [pool.assetA, pool.assetB], asset.Named := by
        intro asset hasset
        refine h.named asset (List.mem_append_right _ ?_)
        simpa [hdelta] using hasset
      set entry := poolDelta pool.liquidityPoolId pool deltaA.toInt deltaB.toInt with hentry
      have hpool : atomPoolId entry = some pool.liquidityPoolId.bytes := atomPoolId_of_get? rfl
      -- the parsed amounts are the deltas, each under its own asset
      have hlegA : entryLeg entry pool.liquidityPoolId.bytes "assetA" "amountA" 1 =
          some ((pool.liquidityPoolId.bytes, pool.assetA.surrogate), 1 * deltaA.toInt) :=
        entryLeg_eq rfl (hassets _ (by simp)) rfl
          (by have := deltaA.le_toInt; omega) (by have := deltaA.toInt_lt; omega)
      have hlegB : entryLeg entry pool.liquidityPoolId.bytes "assetB" "amountB" 1 =
          some ((pool.liquidityPoolId.bytes, pool.assetB.surrogate), 1 * deltaB.toInt) :=
        entryLeg_eq rfl (hassets _ (by simp)) rfl
          (by have := deltaB.le_toInt; omega) (by have := deltaB.toInt_lt; omega)
      simp [hpool, hlegA, hlegB, ← hentry]

end

/-! ## Sums in range -/

/-- Every running sum of what moved of an asset is in range: it is the difference of two
reserves. -/
theorem PoolOperation.OnChain.runs [Crates] {op : PoolOperation} (h : op.OnChain)
    (key : Bytes × Int64) : Range.i64.Runs (op.moved key) := by
  intro first hfirst
  obtain ⟨reserve, hreserve⟩ := h.reserves key
  have hstart := hreserve [] List.nil_prefix
  have hend := hreserve first hfirst
  rw [List.sum_nil] at hstart
  constructor
  · show (-2 ^ 63 : ℤ) ≤ first.sum
    omega
  · show first.sum ≤ (2 ^ 63 - 1 : ℤ)
    omega

theorem saturatingAdd_of_has {a b : ℤ} (h : Range.i64.Has (a + b)) : saturatingAdd a b = a + b := by
  obtain ⟨hlow, hhigh⟩ : (-2 ^ 63 : ℤ) ≤ a + b ∧ a + b ≤ (2 ^ 63 - 1 : ℤ) := h
  rw [saturatingAdd]
  omega

/-- What is held under a key, as long as its running sums are in range. -/
theorem lookup_fillSums {legs : List ((Bytes × Int64) × ℤ)} {key : Bytes × Int64}
    (h : Range.i64.Runs ((legs.filter (·.1 = key)).map Prod.snd)) :
    (fillSums legs).lookup key = if legs.filter (·.1 = key) = [] then none
      else some ((legs.filter (·.1 = key)).map Prod.snd).sum := by
  rw [fillSums, lookup_runAll, AList.lookup_empty]
  induction legs using List.reverseRecOn with
  | nil => rfl
  | append_singleton legs leg ih =>
      rw [List.map_append, history_append, List.map_singleton, history_cons, history_nil]
      by_cases hkey : leg.1 = key
      · have hfilter : (legs ++ [leg]).filter (·.1 = key) = legs.filter (·.1 = key) ++ [leg] := by
          simp [hkey]
        rw [hfilter, List.map_append, List.map_singleton, Range.runs_concat] at h
        have hheld : ((if legs.filter (·.1 = key) = [] then none
            else some ((legs.filter (·.1 = key)).map Prod.snd).sum).getD 0 : ℤ) =
            ((legs.filter (·.1 = key)).map Prod.snd).sum := by
          split_ifs with hnil
          · rw [hnil]
            rfl
          · rfl
        have hne : legs.filter (·.1 = key) ++ [leg] ≠ [] := by simp
        rw [if_pos (show (fillUpdate leg).key = key from hkey), ih h.1, hfilter, if_neg hne]
        show some (saturatingAdd (Option.getD _ 0) leg.2) = _
        rw [hheld, saturatingAdd_of_has h.2, List.map_append, List.sum_append, List.map_singleton,
          List.sum_singleton]
      · have hfilter : (legs ++ [leg]).filter (·.1 = key) = legs.filter (·.1 = key) := by
          simp [hkey]
        rw [hfilter] at h ⊢
        rw [if_neg (show ¬ (fillUpdate leg).key = key from hkey), ih h]

/-! ## Volumes -/

/-- Fewer than `2 ^ 64` amounts of 64 bits add up in 128 bits. -/
theorem abs_sum_le {amounts : List ℤ} (h : ∀ amount ∈ amounts, |amount| ≤ 2 ^ 63) :
    |amounts.sum| ≤ amounts.length * 2 ^ 63 := by
  induction amounts with
  | nil => simp
  | cons amount amounts ih =>
      have ih := ih fun other hother => h other (List.mem_cons_of_mem _ hother)
      have hfirst := h amount List.mem_cons_self
      rw [List.sum_cons, List.length_cons]
      push_cast
      calc |amount + amounts.sum| ≤ |amount| + |amounts.sum| := abs_add_le _ _
        _ ≤ 2 ^ 63 + amounts.length * 2 ^ 63 := by omega
        _ = (amounts.length + 1) * 2 ^ 63 := by ring

section

variable [Crates]

/-- The amounts of a pool's first asset that were traded. -/
def tradedA (atoms : List ClaimLiquidityAtom) (poolId : Hash) : List ℤ :=
  (atoms.filter (·.liquidityPoolId = poolId)).map (·.amountA.toInt)

theorem grossUpdate_claimedAtom (atom : ClaimLiquidityAtom) :
    grossUpdate (claimedAtom atom) = some ⟨atom.liquidityPoolId.bytes,
      fun gross => (gross.getD 0 + atom.amountA.toInt).bmod (2 ^ 128)⟩ := by
  have hpool : (claimedAtom atom).get? "poolId" = some (.str (hexEncode atom.liquidityPoolId.bytes)) :=
    rfl
  have hamount : (claimedAtom atom).get? "amountA" = some (.num atom.amountA.toInt) := rfl
  simp [grossUpdate, hpool, hamount, hexDecode_hexEncode, asI64_int64, Hash.length_bytes]

/-- The exact volume, of fewer than `2 ^ 64` atoms. -/
theorem history_gross (atoms : List ClaimLiquidityAtom) (poolId : Hash)
    (hcount : atoms.length < 2 ^ 64) :
    (history poolId.bytes ((atoms.map claimedAtom).filterMap grossUpdate) none).getD 0 =
      (tradedA atoms poolId).sum := by
  induction atoms using List.reverseRecOn with
  | nil => rfl
  | append_singleton atoms atom ih =>
      rw [List.length_append, List.length_singleton] at hcount
      have ih := ih (by omega)
      rw [List.map_append, List.filterMap_append, history_append, List.map_singleton,
        List.filterMap_cons, grossUpdate_claimedAtom, List.filterMap_nil, history_cons, history_nil]
      by_cases hpool : atom.liquidityPoolId = poolId
      · subst hpool
        have htraded : tradedA (atoms ++ [atom]) atom.liquidityPoolId =
            tradedA atoms atom.liquidityPoolId ++ [atom.amountA.toInt] := by
          simp [tradedA]
        have hlength : (tradedA (atoms ++ [atom]) atom.liquidityPoolId).length ≤ atoms.length + 1 := by
          rw [tradedA, List.length_map]
          exact (List.length_filter_le _ _).trans (by simp)
        -- too few atoms for their sum to wrap
        have hbound := @abs_sum_le (tradedA (atoms ++ [atom]) atom.liquidityPoolId) (by
          intro amount hamount
          obtain ⟨other, -, rfl⟩ := List.mem_map.mp hamount
          have hlow := other.amountA.le_toInt
          have hhigh := other.amountA.toInt_lt
          rw [abs_le]
          omega)
        rw [abs_le] at hbound
        rw [if_pos rfl, Option.getD_some]
        show (Option.getD _ 0 + atom.amountA.toInt).bmod (2 ^ 128) = _
        rw [htraded] at hlength hbound ⊢
        rw [ih, List.sum_append, List.sum_singleton]
        rw [List.sum_append, List.sum_singleton] at hbound
        refine Int.bmod_eq_of_le ?_ ?_ <;> norm_num <;> omega
      · have hbytes : ¬ atom.liquidityPoolId.bytes = poolId.bytes :=
          fun heq => hpool (Hash.bytes_injective heq)
        rw [if_neg hbytes, ih]
        simp [tradedA, hpool]

omit [Crates] in
/-- No running volume leaves 128 bits. -/
theorem runs_tradedA {atoms : List ClaimLiquidityAtom} (poolId : Hash)
    (hcount : atoms.length < 2 ^ 64) : Range.i128.Runs (tradedA atoms poolId) := by
  intro first hfirst
  have hlength : first.length ≤ atoms.length :=
    calc first.length ≤ (tradedA atoms poolId).length := hfirst.length_le
      _ = (atoms.filter (·.liquidityPoolId = poolId)).length := by rw [tradedA, List.length_map]
      _ ≤ atoms.length := List.length_filter_le _ _
  have hbound := @abs_sum_le first (by
    intro amount hamount
    obtain ⟨atom, -, rfl⟩ := List.mem_map.mp (hfirst.subset hamount)
    have hlow := atom.amountA.le_toInt
    have hhigh := atom.amountA.toInt_lt
    rw [abs_le]
    omega)
  rw [abs_le] at hbound
  constructor
  · show (-2 ^ 127 : ℤ) ≤ first.sum
    omega
  · show first.sum ≤ (2 ^ 127 - 1 : ℤ)
    omega

/-- The amounts a pool's first asset was traded in, by the operations of a ledger. -/
def ledgerAtoms (done : ExtractedOperation → PoolOperation)
    (operations : List (String × List ExtractedOperation)) : List ClaimLiquidityAtom :=
  operations.flatMap fun (_, ops) => ops.flatMap fun op => claimLpAtoms (done op).atoms

theorem lookup_grossVolumeAByPool {done : ExtractedOperation → PoolOperation}
    {operations : List (String × List ExtractedOperation)}
    (hdone : ∀ tx ∈ operations, ∀ op ∈ tx.2, (done op).OnChain ∧ op.details = (done op).details)
    (hcount : (ledgerAtoms done operations).length < 2 ^ 64) (poolId : Hash) :
    ((grossVolumeAByPool operations).lookup poolId.bytes).getD 0 =
      (tradedA (ledgerAtoms done operations) poolId).sum := by
  have hatoms : (operations.flatMap fun (_, ops) => ops.flatMap fun op => claimedAtoms op.details) =
      (ledgerAtoms done operations).map claimedAtom := by
    rw [ledgerAtoms, List.map_flatMap]
    apply List.flatMap_congr
    intro tx htx
    rw [List.map_flatMap]
    apply List.flatMap_congr
    intro op hop
    obtain ⟨hchain, hdetails⟩ := hdone tx htx op hop
    rw [hdetails, claimedAtoms_details hchain]
  rw [grossVolumeAByPool, lookup_runAll, AList.lookup_empty, hatoms,
    history_gross _ poolId hcount]

/-! ## The rows of an operation -/

/-- A leg that moved something has a row with the exact sum, and only such legs do. -/
theorem mem_poolFillAmounts {op : PoolOperation} (h : op.OnChain) (key : Bytes × Int64) (amount : ℤ) :
    (key, amount) ∈ poolFillAmounts op.details ↔ amount ≠ 0 ∧ (op.moved key).sum = amount := by
  have hlookup := @lookup_fillSums op.legs key (h.runs key)
  rw [poolFillAmounts, (List.mergeSort_perm _ _).mem_iff, List.mem_filter, mem_pairs,
    fillLegs_details h, hlookup]
  by_cases hnil : op.legs.filter (·.1 = key) = []
  · have hsum : (op.moved key).sum = 0 := by
      rw [PoolOperation.moved, hnil]
      rfl
    rw [if_pos hnil, hsum]
    constructor
    · rintro ⟨hnone, -⟩
      cases hnone
    · rintro ⟨hne, hzero⟩
      exact absurd hzero.symm hne
  · rw [if_neg hnil, Option.some_inj, decide_eq_true_iff]
    exact and_comm

theorem nodup_poolFillAmounts (details : Json) : ((poolFillAmounts details).map Prod.fst).Nodup := by
  have hsorted : ((poolFillAmounts details).map Prod.fst).Perm
      (((pairs (fillSums (fillLegs details))).filter (·.2 ≠ 0)).map Prod.fst) :=
    (List.mergeSort_perm _ _).map _
  rw [hsorted.nodup_iff]
  exact (nodup_map_fst_pairs _).sublist (List.filter_sublist.map _)

/-- Each leg is an amount of 64 bits. -/
theorem has_of_mem_legs {op : PoolOperation} (h : op.OnChain) {leg : (Bytes × Int64) × ℤ}
    (hleg : leg ∈ op.legs) : Range.i64.Has leg.2 := by
  have hword : ∀ amount : Int64, Range.i64.Has amount.toInt := by
    intro amount
    have hlow := amount.le_toInt
    have hhigh := amount.toInt_lt
    constructor
    · show (-2 ^ 63 : ℤ) ≤ amount.toInt
      omega
    · show amount.toInt ≤ (2 ^ 63 - 1 : ℤ)
      omega
  rcases List.mem_append.mp hleg with htraded | hdelta
  · obtain ⟨atom, hatom, hleg⟩ := List.mem_flatMap.mp htraded
    rcases List.mem_pair.mp hleg with rfl | rfl
    · exact hword atom.amountBought
    · have hsold := (h.amounts atom hatom).2
      have hhigh := atom.amountSold.toInt_lt
      constructor
      · show (-2 ^ 63 : ℤ) ≤ -atom.amountSold.toInt
        omega
      · show -atom.amountSold.toInt ≤ (2 ^ 63 - 1 : ℤ)
        omega
  · obtain ⟨⟨pool, deltaA, deltaB⟩, -, hleg⟩ := List.mem_flatMap.mp hdelta
    rcases List.mem_pair.mp hleg with rfl | rfl
    · exact hword deltaA
    · exact hword deltaB

/-- What is held before each leg, and that adding the leg to it stays in range. -/
theorem fillSums_step {op : PoolOperation} (h : op.OnChain) {first : List ((Bytes × Int64) × ℤ)}
    {leg : (Bytes × Int64) × ℤ} (hinit : first ++ [leg] <+: op.legs) :
    Range.i64.Has (((fillSums first).lookup leg.1).getD 0 + leg.2) := by
  have hmoved : (first.filter (·.1 = leg.1)).map Prod.snd ++ [leg.2] <+: op.moved leg.1 := by
    have hfilter : ((first ++ [leg]).filter (·.1 = leg.1)).map Prod.snd =
        (first.filter (·.1 = leg.1)).map Prod.snd ++ [leg.2] := by
      simp
    rw [← hfilter]
    exact (hinit.filter _).map _
  have hruns : Range.i64.Runs ((first.filter (·.1 = leg.1)).map Prod.snd ++ [leg.2]) :=
    fun early hearly => h.runs leg.1 early (hearly.trans hmoved)
  rw [Range.runs_concat] at hruns
  rw [lookup_fillSums hruns.1]
  split_ifs with hnil
  · rw [hnil] at hruns
    exact hruns.2
  · exact hruns.2

/-- **Pool fills.**  The rows of an operation are the assets it moved through each pool, each
once and with the exact sum; no 64-bit sum of an operation and no 128-bit volume of a ledger
leaves its range, and the volumes are exact. -/
theorem poolFillAmounts_exact :
    (∀ op : PoolOperation, op.OnChain →
      (∀ key amount, (key, amount) ∈ poolFillAmounts op.details ↔
        amount ≠ 0 ∧ (op.moved key).sum = amount) ∧
      ((poolFillAmounts op.details).map Prod.fst).Nodup ∧
      fillLegs op.details = op.legs ∧
      ∀ first leg, first ++ [leg] <+: fillLegs op.details →
        Range.i64.Has leg.2 ∧ Range.i64.Has (((fillSums first).lookup leg.1).getD 0 + leg.2)) ∧
    ∀ (done : ExtractedOperation → PoolOperation)
      (operations : List (String × List ExtractedOperation)),
      (∀ tx ∈ operations, ∀ op ∈ tx.2, (done op).OnChain ∧ op.details = (done op).details) →
      (ledgerAtoms done operations).length < 2 ^ 64 → ∀ poolId : Hash,
        Range.i128.Runs (tradedA (ledgerAtoms done operations) poolId) ∧
        ((grossVolumeAByPool operations).lookup poolId.bytes).getD 0 =
          (tradedA (ledgerAtoms done operations) poolId).sum := by
  constructor
  · intro op h
    refine ⟨mem_poolFillAmounts h, nodup_poolFillAmounts _, fillLegs_details h, ?_⟩
    intro first leg hinit
    rw [fillLegs_details h] at hinit
    exact ⟨has_of_mem_legs h (hinit.subset (by simp)), fillSums_step h hinit⟩
  · intro done operations hdone hcount poolId
    exact ⟨runs_tradedA poolId hcount, lookup_grossVolumeAByPool hdone hcount poolId⟩

end

private def crossedPool : Hash := 7

private def pinnedUsdcAsset : Asset :=
  .creditAlphanum4 ⟨[85, 83, 68, 67], Crates.length_pinnedCode⟩ Crates.pinnedAccount

/-- A payment that crosses a pool there and back: 10 stroops in and out again, and 8 stroops
of the other asset out for good. -/
private def roundTrip : PoolOperation where
  fields := []
  atoms := [.liquidityPool ⟨crossedPool, pinnedUsdcAsset, 20, .native, 10⟩,
    .liquidityPool ⟨crossedPool, .native, 10, pinnedUsdcAsset, 12⟩]
  delta := none

private theorem moved_roundTrip (key : Bytes × Int64) :
    let _ : Crates := Crates.pinned
    roundTrip.moved key = [10, -10] ∨ roundTrip.moved key = [-20, 12] ∨ roundTrip.moved key = [] := by
  let _ : Crates := Crates.pinned
  by_cases hnative : (crossedPool.bytes, Asset.native.surrogate) = key
  · subst hnative
    exact Or.inl (by decide)
  · by_cases hcredit : (crossedPool.bytes, pinnedUsdcAsset.surrogate) = key
    · subst hcredit
      exact Or.inr (Or.inl (by decide))
    · refine Or.inr (Or.inr ?_)
      simp [PoolOperation.moved, PoolOperation.legs, roundTrip, claimLpAtoms,
        ClaimLiquidityAtom.legs, hnative, hcredit]

private theorem onChain_roundTrip :
    let _ : Crates := Crates.pinned
    roundTrip.OnChain := by
  let _ : Crates := Crates.pinned
  refine ⟨nofun, ?_, by decide, ?_⟩
  · intro asset hasset
    have hmem : asset = .native ∨ asset = pinnedUsdcAsset ∨ asset = .native := by
      simpa [PoolOperation.assets, roundTrip, claimLpAtoms] using hasset
    rcases hmem with rfl | rfl | rfl
    · trivial
    · exact ⟨by decide, by decide, by decide⟩
    · trivial
  · intro key
    refine ⟨1000, fun first hfirst => ?_⟩
    rw [← List.mem_inits] at hfirst
    rcases moved_roundTrip key with hmoved | hmoved | hmoved <;> rw [hmoved] at hfirst <;>
      revert first <;> decide

private def roundTripOperation : ExtractedOperation where
  transactionHash := "a"
  operationIndex := 0
  opType := .pathPaymentStrictReceive
  sourceAccount := none
  sourceMuxedId := none
  destinationMuxedId := none
  details := let _ : Crates := Crates.pinned; roundTrip.details

/-- The pool's own asset has one row, and the other none. -/
theorem poolFillAmounts_exact_roundTrip :
    let _ : Crates := Crates.pinned
    ((crossedPool.bytes, pinnedUsdcAsset.surrogate), (-8 : ℤ)) ∈ poolFillAmounts roundTrip.details ∧
    (∀ amount, ((crossedPool.bytes, Asset.native.surrogate), amount) ∉
      poolFillAmounts roundTrip.details) ∧
    ((grossVolumeAByPool [("a", [roundTripOperation])]).lookup crossedPool.bytes).getD 0 = 20 := by
  let _ : Crates := Crates.pinned
  obtain ⟨hrows, hvolume⟩ := poolFillAmounts_exact
  obtain ⟨hmem, -⟩ := hrows roundTrip onChain_roundTrip
  refine ⟨(hmem _ _).mpr ⟨by decide, by decide⟩, ?_, ?_⟩
  · intro amount hamount
    obtain ⟨hne, hsum⟩ := (hmem _ _).mp hamount
    exact hne (hsum.symm.trans (by decide))
  · have hone := hvolume (fun _ => roundTrip) [("a", [roundTripOperation])] (by
      intro tx htx op hop
      obtain rfl := List.mem_singleton.mp htx
      obtain rfl := List.mem_singleton.mp hop
      exact ⟨onChain_roundTrip, rfl⟩) (by decide) crossedPool
    exact hone.2.trans (by decide)

end SorobanExplorer
