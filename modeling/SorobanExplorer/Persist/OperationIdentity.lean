import SorobanExplorer.Lib.SortedUnique
import SorobanExplorer.Persist.Operations

/-!
# What tells operations apart

Two operations of a transaction look alike when their types and sources agree and they name
the same account, contract, asset and pools, as the type of each says where it names them.
The key of the walk tells apart exactly the operations that do not look alike
(`key_eq_iff`).
-/

namespace SorobanExplorer.Operations

open Text

/-! ## What an operation names -/

/-- A field of the details holds a text. -/
def Says (op : StagedOperation) (field text : String) : Prop :=
  op.details.get? field = some (.str text) ∧ text ≠ ""

/-- The field with the other account of an operation. -/
def accountField : OperationType → Option String
  | .createAccount | .payment | .pathPaymentStrictReceive | .pathPaymentStrictSend
  | .accountMerge => some "destination"
  | .clawback => some "from"
  | .setTrustLineFlags | .allowTrust => some "trustor"
  | .beginSponsoringFutureReserves => some "sponsoredId"
  | _ => none

/-- The field with the asset of an operation. -/
def assetField : OperationType → Option String
  | .payment | .clawback | .changeTrust | .setTrustLineFlags => some "asset"
  | .pathPaymentStrictReceive | .pathPaymentStrictSend => some "destAsset"
  | _ => none

def NamesAccount (op : StagedOperation) (account : String) : Prop :=
  ∃ field ∈ accountField op.opType, Says op field account

def NamesContract (op : StagedOperation) (contract : String) : Prop :=
  op.opType = .invokeHostFunction ∧ Says op "contractId" contract

/-- A credit asset by its code and issuer; an allowance names the code alone, and nobody
names the native asset. -/
inductive NamesAsset (op : StagedOperation) : String → Option String → Prop
  | credit {field code issuer : String} (hfield : field ∈ assetField op.opType)
      (hcode : code ≠ "") (hcolon : ':' ∉ code.toList) (hissuer : issuer ≠ "")
      (htext : op.details.get? field = some (.str (code ++ ":" ++ issuer))) :
      NamesAsset op code (some issuer)
  | allowed {code : String} (htype : op.opType = .allowTrust) (hcode : Says op "asset" code) :
      NamesAsset op code none

/-- The pool of a deposit or a withdrawal. -/
def NamesPool (op : StagedOperation) (pool : Hash) : Prop :=
  (op.opType = .liquidityPoolDeposit ∨ op.opType = .liquidityPoolWithdraw) ∧
    op.details.get? "liquidityPoolId" = some (.str (hexEncode pool.bytes))

/-- A pool the operation names, or, where it names none, one that it crossed. -/
def Touches (op : StagedOperation) (pool : Hash) : Prop :=
  NamesPool op pool ∨ (∀ other, ¬ NamesPool op other) ∧
    ∃ ids, op.details.get? "poolIds" = some (.arr ids) ∧ .str (hexEncode pool.bytes) ∈ ids

/-- Two operations of one transaction that cannot be told apart. -/
structure Alike (s t : String × StagedOperation) : Prop where
  transaction : s.1 = t.1
  opType : s.2.opType = t.2.opType
  source : s.2.sourceAccount = t.2.sourceAccount
  account : ∀ account, NamesAccount s.2 account ↔ NamesAccount t.2 account
  contract : ∀ contract, NamesContract s.2 contract ↔ NamesContract t.2 contract
  asset : ∀ code issuer, NamesAsset s.2 code issuer ↔ NamesAsset t.2 code issuer
  pools : ∀ pool, Touches s.2 pool ↔ Touches t.2 pool

/-- The pools named in the details of an operation, as the parser writes them. -/
structure NamesPools (details : Json) : Prop where
  deposited : ∀ text, details.get? "liquidityPoolId" = some (.str text) →
    ∃ poolId : Hash, text = hexEncode poolId.bytes
  crossed : ∀ ids, details.get? "poolIds" = some (.arr ids) →
    ∀ id ∈ ids, ∃ poolId : Hash, id = .str (hexEncode poolId.bytes)

/-- The key the walk gives an operation. -/
def identity (s : String × StagedOperation) : OpKey :=
  .of s.1 s.2 (canonicalPoolIds
    ((OpTyped.fromDetails s.2.opType s.2.details).poolIdsHex.filterMap hexDecode))

/-! ## What is read of it -/

theorem strField_eq_some_iff {details : Json} {field text : String} :
    strField details field = some text ↔ details.get? field = some (.str text) ∧ text ≠ "" := by
  unfold strField
  rw [Option.filter_eq_some_iff, decide_eq_true_iff, Option.bind_eq_some_iff]
  refine and_congr_left fun _ => ⟨?_, fun h => ⟨_, h, rfl⟩⟩
  rintro ⟨value, hvalue, htext⟩
  cases value with
  | str other => rw [hvalue, Option.some.inj htext]
  | _ => cases htext

theorem splitOnceColon_eq_some_iff {text code issuer : String} :
    splitOnceColon text = some (code, issuer) ↔
      text = code ++ ":" ++ issuer ∧ ':' ∉ code.toList := by
  rw [splitOnceColon, Option.map_eq_some_iff]
  constructor
  · rintro ⟨⟨before, after⟩, hsplit, heq⟩
    cases heq
    obtain ⟨htext, hnot⟩ := splitOnce_eq_some_iff.mp hsplit
    refine ⟨String.toList_inj.mp ?_, by simpa using hnot⟩
    simp [htext]
  · rintro ⟨rfl, hnot⟩
    refine ⟨(code.toList, issuer.toList), splitOnce_eq_some_iff.mpr ⟨by simp, hnot⟩, ?_⟩
    simp

/-- A text with both parts of a credit asset. -/
theorem splitAssetRef_eq_iff {asset : Json} {code issuer : String} :
    splitAssetRef asset = (some code, some issuer) ↔
      asset = .str (code ++ ":" ++ issuer) ∧ code ≠ "" ∧ ':' ∉ code.toList ∧ issuer ≠ "" := by
  unfold splitAssetRef
  constructor
  · intro h
    cases asset with
    | str text =>
        rw [Json.asStr_str] at h
        dsimp only at h
        split_ifs at h
        · cases h
        split at h
        · rename_i hsplit
          obtain ⟨rfl, hcolon⟩ := splitOnceColon_eq_some_iff.mp hsplit
          split_ifs at h with hparts
          · cases h
            exact ⟨rfl, hparts.1, hcolon, hparts.2⟩
          · cases h
        · cases h
    | _ => cases h
  · rintro ⟨rfl, hcode, hcolon, hissuer⟩
    -- a text with a colon is not the native label
    have hnative : code ++ ":" ++ issuer ≠ "native" := by
      intro heq
      have hmem : ':' ∈ "native".toList := by
        rw [← heq]
        simp
      revert hmem
      decide
    rw [Json.asStr_str]
    dsimp only
    rw [if_neg hnative, splitOnceColon_eq_some_iff.mpr ⟨rfl, hcolon⟩]
    exact if_pos ⟨hcode, hissuer⟩

/-- A text names both parts or neither. -/
theorem splitAssetRef_cases (asset : Json) :
    splitAssetRef asset = (none, none) ∨
      ∃ code issuer, splitAssetRef asset = (some code, some issuer) := by
  unfold splitAssetRef
  split
  · exact .inl rfl
  · split_ifs
    · exact .inl rfl
    · split
      · split_ifs
        · exact .inr ⟨_, _, rfl⟩
        · exact .inl rfl
      · exact .inl rfl

section

variable (typed : OpTyped) (asset : Option Json)

@[simp] theorem withAsset_destination :
    (typed.withAsset asset).destination = typed.destination := by
  cases asset <;> rfl

@[simp] theorem withAsset_contractId : (typed.withAsset asset).contractId = typed.contractId := by
  cases asset <;> rfl

@[simp] theorem withAsset_poolIdsHex : (typed.withAsset asset).poolIdsHex = typed.poolIdsHex := by
  cases asset <;> rfl

end

section

variable (opType : OperationType) (details : Json)

theorem fromDetails_eq : OpTyped.fromDetails opType details =
    { OpTyped.ofBody opType details with
      poolIdsHex := (OpTyped.fromDetails opType details).poolIdsHex } := by
  unfold OpTyped.fromDetails
  dsimp only
  split <;> rfl

theorem destination_fromDetails : (OpTyped.fromDetails opType details).destination =
    (accountField opType).bind (strField details) := by
  rw [fromDetails_eq]
  cases opType <;> simp [OpTyped.ofBody, OpTyped.empty, accountField]

theorem contractId_fromDetails : (OpTyped.fromDetails opType details).contractId =
    if opType = .invokeHostFunction then strField details "contractId" else none := by
  rw [fromDetails_eq]
  cases opType <;> simp [OpTyped.ofBody, OpTyped.empty]

/-- The code and the issuer of the asset a field holds. -/
theorem asset_fromDetails :
    ((OpTyped.fromDetails opType details).assetCode,
        (OpTyped.fromDetails opType details).assetIssuer) =
      if opType = .allowTrust then ((details.get? "asset").bind Json.asStr, none)
      else (((assetField opType).bind details.get?).map splitAssetRef).getD (none, none) := by
  have hfield : ∀ (typed : OpTyped) field, typed.assetCode = none → typed.assetIssuer = none →
      ((typed.withAsset (details.get? field)).assetCode,
        (typed.withAsset (details.get? field)).assetIssuer) =
      ((details.get? field).map splitAssetRef).getD (none, none) := by
    intro typed field hcode hissuer
    cases details.get? field with
    | none => exact Prod.ext hcode hissuer
    | some asset => rfl
  rw [fromDetails_eq]
  cases opType <;> simp [OpTyped.ofBody, OpTyped.empty, assetField, hfield]

theorem poolIdsHex_ofBody : (OpTyped.ofBody opType details).poolIdsHex =
    if opType = .liquidityPoolDeposit ∨ opType = .liquidityPoolWithdraw then
      (strField details "liquidityPoolId").toList
    else [] := by
  cases opType <;> simp [OpTyped.ofBody, OpTyped.empty]

/-- The crossed pools stand in only where the operation names none itself. -/
theorem poolIdsHex_fromDetails :
    (OpTyped.fromDetails opType details).poolIdsHex =
      if (OpTyped.ofBody opType details).poolIdsHex = [] then
        ((((details.get? "poolIds").bind Json.asArray).getD []).filterMap Json.asStr).filter (· ≠ "")
      else (OpTyped.ofBody opType details).poolIdsHex := by
  unfold OpTyped.fromDetails
  dsimp only
  split
  · rename_i hown hids
    rw [if_pos hown, hids]
    rfl
  · rename_i hrest
    split_ifs with hown
    · cases hids : (details.get? "poolIds").bind Json.asArray with
      | none => rw [hown]; rfl
      | some ids => exact absurd hids (hrest ids hown)
    · rfl

end

section

variable {op : StagedOperation}

theorem namesAccount_iff {account : String} : NamesAccount op account ↔
    (OpTyped.fromDetails op.opType op.details).destination = some account := by
  rw [destination_fromDetails, Option.bind_eq_some_iff, NamesAccount]
  exact exists_congr fun field => and_congr_right fun _ => strField_eq_some_iff.symm

theorem namesContract_iff {contract : String} : NamesContract op contract ↔
    (OpTyped.fromDetails op.opType op.details).contractId = some contract := by
  rw [contractId_fromDetails, Option.ite_none_right_eq_some, strField_eq_some_iff]
  rfl

/-- The code and the issuer of the key, which has no issuer without a code. -/
theorem namesAsset_iff {code : String} {issuer : Option String} : NamesAsset op code issuer ↔
    ((OpTyped.fromDetails op.opType op.details).assetCode.getD "" = code ∧
      (OpTyped.fromDetails op.opType op.details).assetIssuer = issuer) ∧ code ≠ "" := by
  have hread := asset_fromDetails op.opType op.details
  by_cases hallow : op.opType = .allowTrust
  · -- allow-trust names the code alone; the issuer is the source
    rw [if_pos hallow] at hread
    obtain ⟨hcode, hissuer⟩ := Prod.mk.inj hread
    rw [hcode, hissuer]
    constructor
    · intro h
      cases h with
      | credit hfield =>
          rw [hallow] at hfield
          cases hfield
      | allowed _ hstates =>
          rw [hstates.1]
          exact ⟨⟨rfl, rfl⟩, hstates.2⟩
    · rintro ⟨⟨rfl, rfl⟩, hne⟩
      refine .allowed hallow ⟨?_, hne⟩
      cases hasset : op.details.get? "asset" with
      | none =>
          rw [hasset] at hne
          exact absurd rfl hne
      | some asset =>
          cases asset with
          | str text => rfl
          | _ =>
              rw [hasset] at hne
              exact absurd rfl hne
  · rw [if_neg hallow] at hread
    obtain ⟨hcode, hissuer⟩ := Prod.ext_iff.mp hread
    dsimp only at hcode hissuer
    rw [hcode, hissuer]
    constructor
    · intro h
      cases h with
      | @credit field code issuer hfield hne hcolon hissuer htext =>
          rw [hfield, Option.bind_some, htext, Option.map_some,
            splitAssetRef_eq_iff.mpr ⟨rfl, hne, hcolon, hissuer⟩]
          exact ⟨⟨rfl, rfl⟩, hne⟩
      | allowed htype => exact absurd htype hallow
    · rintro ⟨⟨hread, hissuer⟩, hne⟩
      cases hasset : (assetField op.opType).bind op.details.get? with
      | none =>
          rw [hasset] at hread
          exact absurd hread.symm hne
      | some asset =>
          rw [hasset, Option.map_some, Option.getD_some] at hread hissuer
          -- a text of no credit asset has neither part
          rcases splitAssetRef_cases asset with hsplit | ⟨code', issuer', hsplit⟩
          · rw [hsplit] at hread
            exact absurd hread.symm hne
          · rw [hsplit] at hread hissuer
            obtain ⟨rfl, hcode', hcolon, hissuer'⟩ := splitAssetRef_eq_iff.mp hsplit
            obtain rfl : code' = code := hread
            obtain rfl : some issuer' = issuer := hissuer
            obtain ⟨field, hfield, htext⟩ := Option.bind_eq_some_iff.mp hasset
            exact .credit hfield hcode' hcolon hissuer' htext

/-- Without a code there is no issuer. -/
theorem assetIssuer_eq_none
    (h : (OpTyped.fromDetails op.opType op.details).assetCode.getD "" = "") :
    (OpTyped.fromDetails op.opType op.details).assetIssuer = none := by
  have hread := asset_fromDetails op.opType op.details
  split_ifs at hread
  · exact (Prod.mk.inj hread).2
  · obtain ⟨hcode, hissuer⟩ := Prod.ext_iff.mp hread
    dsimp only at hcode hissuer
    rw [hcode] at h
    rw [hissuer]
    cases hasset : (assetField op.opType).bind op.details.get? with
    | none => rfl
    | some asset =>
        rw [hasset, Option.map_some, Option.getD_some] at h
        rw [Option.map_some, Option.getD_some]
        rcases splitAssetRef_cases asset with hsplit | ⟨code, issuer, hsplit⟩
        · rw [hsplit]
        · rw [hsplit] at h
          exact absurd h (splitAssetRef_eq_iff.mp hsplit).2.1

end

/-! ## Pools -/

theorem hexEncode_hash_ne (pool : Hash) : hexEncode pool.bytes ≠ "" := by
  intro h
  have hread := hexDecode_hexEncode pool.bytes
  rw [h] at hread
  have hlength := pool.length_bytes
  rw [← Option.some.inj hread] at hlength
  cases hlength

theorem namesPool_iff {op : StagedOperation} {pool : Hash} : NamesPool op pool ↔
    hexEncode pool.bytes ∈ (OpTyped.ofBody op.opType op.details).poolIdsHex := by
  rw [poolIdsHex_ofBody, NamesPool]
  split_ifs with htype
  · rw [Option.mem_toList, strField_eq_some_iff]
    exact ⟨fun h => ⟨h.2, hexEncode_hash_ne pool⟩, fun h => ⟨htype, h.1⟩⟩
  · exact ⟨fun h => absurd h.1 htype, fun h => absurd h List.not_mem_nil⟩

section

variable {op : StagedOperation} (hnamed : NamesPools op.details)

include hnamed

theorem poolIdsHex_ofBody_named : ∀ text ∈ (OpTyped.ofBody op.opType op.details).poolIdsHex,
    ∃ poolId : Hash, text = hexEncode poolId.bytes := by
  intro text htext
  rw [poolIdsHex_ofBody] at htext
  split_ifs at htext
  · rw [Option.mem_toList, strField_eq_some_iff] at htext
    exact hnamed.deposited text htext.1
  · cases htext

theorem poolIdsHex_named :
    ∀ text ∈ (OpTyped.fromDetails op.opType op.details).poolIdsHex,
      ∃ poolId : Hash, text = hexEncode poolId.bytes := by
  intro text htext
  rw [poolIdsHex_fromDetails] at htext
  split_ifs at htext with hown
  · cases hids : (op.details.get? "poolIds").bind Json.asArray with
    | none => simp [hids] at htext
    | some ids =>
        rw [hids] at htext
        obtain ⟨id, hid, hstr⟩ := List.mem_filterMap.mp (List.mem_filter.mp htext).1
        obtain ⟨value, hvalue, harray⟩ := Option.bind_eq_some_iff.mp hids
        cases value with
        | arr elements =>
            obtain rfl : elements = ids := Option.some.inj harray
            obtain ⟨poolId, rfl⟩ := hnamed.crossed elements hvalue id hid
            exact ⟨poolId, (Option.some.inj hstr).symm⟩
        | _ => cases harray
  · exact poolIdsHex_ofBody_named hnamed text htext

theorem touches_iff {pool : Hash} : Touches op pool ↔
    hexEncode pool.bytes ∈ (OpTyped.fromDetails op.opType op.details).poolIdsHex := by
  -- a type that touches no pool has none among its ids
  have hnone : (∀ other, ¬ NamesPool op other) ↔
      (OpTyped.ofBody op.opType op.details).poolIdsHex = [] := by
    rw [List.eq_nil_iff_forall_not_mem]
    constructor
    · intro h text htext
      obtain ⟨other, rfl⟩ := poolIdsHex_ofBody_named hnamed text htext
      exact h other (namesPool_iff.mpr htext)
    · exact fun h other hother => h _ (namesPool_iff.mp hother)
  rw [Touches, hnone, namesPool_iff, poolIdsHex_fromDetails]
  split_ifs with hown
  · rw [hown]
    simp only [List.not_mem_nil, false_or, true_and, List.mem_filter, List.mem_filterMap,
      decide_eq_true_eq]
    constructor
    · rintro ⟨ids, hids, hpool⟩
      rw [hids]
      exact ⟨⟨_, hpool, rfl⟩, hexEncode_hash_ne pool⟩
    · rintro ⟨⟨id, hid, htext⟩, -⟩
      cases hids : op.details.get? "poolIds" with
      | none => rw [hids] at hid; cases hid
      | some value =>
          rw [hids] at hid
          cases value with
          | arr ids =>
              obtain ⟨other, rfl⟩ := hnamed.crossed ids hids id hid
              rw [← Option.some.inj htext]
              exact ⟨ids, rfl, hid⟩
          | _ => cases hid
  · exact or_iff_left fun h => hown h.1

theorem mem_poolIds_iff {poolId : Bytes} :
    poolId ∈ (OpTyped.fromDetails op.opType op.details).poolIdsHex.filterMap hexDecode ↔
      ∃ pool : Hash, Touches op pool ∧ pool.bytes = poolId := by
  rw [List.mem_filterMap]
  constructor
  · rintro ⟨text, htext, hread⟩
    obtain ⟨pool, rfl⟩ := poolIdsHex_named hnamed text htext
    rw [hexDecode_hexEncode] at hread
    exact ⟨pool, (touches_iff hnamed).mpr htext, Option.some.inj hread⟩
  · rintro ⟨pool, htouches, rfl⟩
    exact ⟨_, (touches_iff hnamed).mp htouches, hexDecode_hexEncode _⟩

end

/-! ## The key -/

theorem tryFrom_toI16 (opType : OperationType) :
    OperationType.tryFrom opType.toI16 = some opType := by
  cases opType <;> decide

section

variable {s t : String × StagedOperation}

theorem alike_of_identity_eq (hs : NamesPools s.2.details) (ht : NamesPools t.2.details)
    (h : identity s = identity t) : Alike s t where
  transaction := congrArg OpKey.txHashHex h
  opType := by
    have htype : s.2.opType.toI16 = t.2.opType.toI16 := congrArg OpKey.opType h
    exact Option.some.inj (by rw [← tryFrom_toI16, htype, tryFrom_toI16])
  source := congrArg OpKey.sourceAccount h
  account account := by
    rw [namesAccount_iff, namesAccount_iff]
    exact iff_of_eq (congrArg (· = some account) (congrArg OpKey.destinationAccount h))
  contract contract := by
    rw [namesContract_iff, namesContract_iff]
    exact iff_of_eq (congrArg (· = some contract) (congrArg OpKey.contractStrkey h))
  asset code issuer := by
    have hcode := congrArg OpKey.assetCode h
    have hissuer := congrArg OpKey.assetIssuerAccount h
    rw [namesAsset_iff, namesAsset_iff]
    exact and_congr_left fun _ => and_congr (iff_of_eq (congrArg (· = code) hcode))
      (iff_of_eq (congrArg (· = issuer) hissuer))
  pools pool := by
    have hpools := congrArg OpKey.poolIds h
    have hmem := SortedUnique.sortedUnique_eq_iff.mp hpools pool.bytes
    rw [mem_poolIds_iff hs, mem_poolIds_iff ht] at hmem
    constructor
    · intro htouches
      obtain ⟨other, hother, hbytes⟩ := hmem.mp ⟨pool, htouches, rfl⟩
      rwa [← Hash.bytes_injective hbytes]
    · intro htouches
      obtain ⟨other, hother, hbytes⟩ := hmem.mpr ⟨pool, htouches, rfl⟩
      rwa [← Hash.bytes_injective hbytes]

namespace Alike

theorem destination_eq (h : Alike s t) :
    (OpTyped.fromDetails s.2.opType s.2.details).destination =
      (OpTyped.fromDetails t.2.opType t.2.details).destination := by
  apply Option.ext
  intro account
  rw [← namesAccount_iff, ← namesAccount_iff]
  exact h.account account

theorem contractId_eq (h : Alike s t) :
    (OpTyped.fromDetails s.2.opType s.2.details).contractId =
      (OpTyped.fromDetails t.2.opType t.2.details).contractId := by
  apply Option.ext
  intro contract
  rw [← namesContract_iff, ← namesContract_iff]
  exact h.contract contract

theorem asset_eq (h : Alike s t) :
    (OpTyped.fromDetails s.2.opType s.2.details).assetCode.getD "" =
        (OpTyped.fromDetails t.2.opType t.2.details).assetCode.getD "" ∧
      (OpTyped.fromDetails s.2.opType s.2.details).assetIssuer =
        (OpTyped.fromDetails t.2.opType t.2.details).assetIssuer := by
  by_cases hnone : (OpTyped.fromDetails s.2.opType s.2.details).assetCode.getD "" = ""
  · -- neither names an asset, so neither has an issuer
    have hnone' : (OpTyped.fromDetails t.2.opType t.2.details).assetCode.getD "" = "" := by
      by_contra hne
      have hnames := (h.asset _ _).mpr (namesAsset_iff.mpr ⟨⟨rfl, rfl⟩, hne⟩)
      exact hne ((namesAsset_iff.mp hnames).1.1.symm.trans hnone)
    rw [hnone, hnone', assetIssuer_eq_none hnone, assetIssuer_eq_none hnone']
    exact ⟨rfl, rfl⟩
  · have hnames := (h.asset _ _).mp (namesAsset_iff.mpr ⟨⟨rfl, rfl⟩, hnone⟩)
    obtain ⟨⟨hcode, hissuer⟩, -⟩ := namesAsset_iff.mp hnames
    exact ⟨hcode.symm, hissuer.symm⟩

theorem poolIds_eq (h : Alike s t) (hs : NamesPools s.2.details) (ht : NamesPools t.2.details) :
    canonicalPoolIds ((OpTyped.fromDetails s.2.opType
        s.2.details).poolIdsHex.filterMap hexDecode) =
      canonicalPoolIds ((OpTyped.fromDetails t.2.opType
        t.2.details).poolIdsHex.filterMap hexDecode) := by
  apply SortedUnique.sortedUnique_eq_iff.mpr
  intro poolId
  rw [mem_poolIds_iff hs, mem_poolIds_iff ht]
  exact exists_congr fun pool => and_congr_left fun _ => h.pools pool

theorem identity_eq (h : Alike s t) (hs : NamesPools s.2.details) (ht : NamesPools t.2.details) :
    identity s = identity t := by
  have hdestination := h.destination_eq
  have hcontract := h.contractId_eq
  have hasset := h.asset_eq
  have hpools := h.poolIds_eq hs ht
  rw [identity, identity, OpKey.of, OpKey.of, h.transaction, h.opType, h.source]
  rw [h.opType] at hdestination hcontract hasset hpools
  rw [hdestination, hcontract, hasset.1, hasset.2, hpools]

end Alike

/-- The key tells apart exactly the operations that do not look alike. -/
theorem key_eq_iff (hs : NamesPools s.2.details) (ht : NamesPools t.2.details) :
    identity s = identity t ↔ Alike s t :=
  ⟨alike_of_identity_eq hs ht, fun h => h.identity_eq hs ht⟩

end

end SorobanExplorer.Operations
