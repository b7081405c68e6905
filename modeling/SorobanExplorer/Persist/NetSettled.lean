import SorobanExplorer.Lib.Checked
import SorobanExplorer.Lib.KeyedFold
import SorobanExplorer.Parser.LedgerValueSpec
import SorobanExplorer.Persist.Ids
import Mathlib.Algebra.BigOperators.Group.Finset.Basic
import Mathlib.Algebra.Order.BigOperators.Group.List
import Mathlib.Data.List.Sort
import Mathlib.Data.String.Basic

/-!
# Net-settled value

What a transaction moved of an asset: every account's changes are netted, and the larger
of what the accounts gained and what they lost is the value.  All sums are checked.

The value of a side is a sum without negative summands, so there the order does not
matter.  An account's net has summands of both signs, and a running net that leaves the
range refuses the asset's value although the exact net may fit: the order of the changes
matters exactly there (`netSettled_eq`).
-/

namespace SorobanExplorer

open Checked KeyedFold

/-- One account's signed change in an asset. -/
structure AccountDelta where
  assetId : Int64
  account : String
  delta : ℤ
  deriving DecidableEq

structure NetSettled where
  assetId : Int64
  /-- None if the reduction did not fit. -/
  amount : Option ℤ
  deriving DecidableEq

/-- The accounts of an asset, each with its running net unless that left the range. -/
abbrev AccountNets := Table String (Option ℤ)

def AccountDelta.toAccount (d : AccountDelta) : Update String (Option ℤ) :=
  ⟨d.account, fun acc => (acc.getD (some 0)).bind fun v => Range.i128.add v d.delta⟩

def AccountDelta.toAsset (d : AccountDelta) : Update Int64 AccountNets :=
  ⟨d.assetId, fun accounts => d.toAccount.run (accounts.getD ∅)⟩

/-- One net put on its side: what was gained, and what was lost. -/
def addSide (sides : ℤ × ℤ) (delta : Option ℤ) : Option (ℤ × ℤ) := do
  let d ← delta
  if d > 0 then
    let gained ← Range.i128.add sides.1 d
    return (gained, sides.2)
  else if d < 0 then
    -- The least number has no negation in the range.
    let lost ← Range.i128.add sides.2 (← Range.i128.neg d)
    return (sides.1, lost)
  else return sides

/-- The entries of a table in the order of their keys. -/
def byAccount (accounts : AccountNets) : List (String × Option ℤ) :=
  (pairs accounts).mergeSort fun a b => a.1 ≤ b.1

def byAsset (assets : Table Int64 AccountNets) : List (Int64 × AccountNets) :=
  (pairs assets).mergeSort fun a b => a.1 ≤ b.1

def reduce (accounts : AccountNets) : Option ℤ :=
  (((byAccount accounts).map Prod.snd).foldlM addSide (0, 0)).map fun sides => max sides.1 sides.2

def perAsset (deltas : List AccountDelta) : Table Int64 AccountNets :=
  runAll (deltas.map AccountDelta.toAsset) ∅

def netSettled (deltas : List AccountDelta) : List NetSettled :=
  (byAsset (perAsset deltas)).map fun asset => ⟨asset.1, reduce asset.2⟩

section

variable [Crates]

/-- The asset a change is in: a classic asset that a contract holds is the asset its
asset contract stands for. -/
def LedgerAsset.settledAsset (sacClassic : Table Int64 Int64) : LedgerAsset → Option Int64
  | .native => some Ids.nativeAssetId
  | .credit code issuer => some (Ids.creditAssetId code issuer)
  | .sacWrapped sac => sacClassic.lookup (Ids.contractId sac)
  | .bespoke contract => some (Ids.contractId contract)

/-- A change in an asset that is not known is left out. -/
def resolved (sacClassic : Table Int64 Int64) (d : LedgerDelta) : Option AccountDelta :=
  (d.asset.settledAsset sacClassic).map fun assetId => ⟨assetId, d.account, d.delta⟩

/-- The value of one transaction's balance changes, asset by asset. -/
def ledgerDeltasNetSettled (deltas : List LedgerDelta) (sacClassic : Table Int64 Int64) :
    List NetSettled :=
  netSettled (deltas.filterMap (resolved sacClassic))

end

/-! ## Exact nets -/

/-- The changes of an account in an asset. -/
def deltasOf (deltas : List AccountDelta) (asset : Int64) (account : String) : List ℤ :=
  (deltas.filter fun d => d.assetId = asset ∧ d.account = account).map AccountDelta.delta

/-- The exact net of an account in an asset. -/
def net (deltas : List AccountDelta) (asset : Int64) (account : String) : ℤ :=
  (deltasOf deltas asset account).sum

/-- The accounts with changes in an asset. -/
def accountsOf (deltas : List AccountDelta) (asset : Int64) : Finset String :=
  ((deltas.filter (·.assetId = asset)).map AccountDelta.account).toFinset

/-- The exact nets above 0 together. -/
def gained (deltas : List AccountDelta) (asset : Int64) : ℤ :=
  ∑ account ∈ accountsOf deltas asset, max (net deltas asset account) 0

/-- The exact nets below 0 together, without the sign. -/
def lost (deltas : List AccountDelta) (asset : Int64) : ℤ :=
  ∑ account ∈ accountsOf deltas asset, max (-net deltas asset account) 0

/-- Whether no account's running net leaves the range. -/
def NetsRun (deltas : List AccountDelta) (asset : Int64) : Prop :=
  ∀ account, Range.i128.Runs (deltasOf deltas asset account)

/-! ## Both sides of the nets -/

/-- The gained side of exact nets, and the lost one. -/
def sidesOf (nets : List ℤ) : ℤ × ℤ :=
  ((nets.map fun net => max net 0).sum, (nets.map fun net => max (-net) 0).sum)

theorem sidesOf_concat (nets : List ℤ) (d : ℤ) :
    sidesOf (nets ++ [d]) = ((sidesOf nets).1 + max d 0, (sidesOf nets).2 + max (-d) 0) := by
  simp [sidesOf]

theorem sidesOf_nonneg (nets : List ℤ) : 0 ≤ (sidesOf nets).1 ∧ 0 ≤ (sidesOf nets).2 := by
  constructor
  all_goals
    refine List.sum_nonneg fun x hx => ?_
    obtain ⟨net, -, rfl⟩ := List.mem_map.mp hx
    exact le_max_right _ _

/-- Whether both sides are in the range. -/
def SidesFit (sides : ℤ × ℤ) : Prop :=
  sides.1 ≤ Range.i128.hi ∧ sides.2 ≤ Range.i128.hi

instance (sides : ℤ × ℤ) : Decidable (SidesFit sides) := inferInstanceAs (Decidable (_ ∧ _))

theorem addSide_eq {sides : ℤ × ℤ} (h : 0 ≤ sides.1 ∧ 0 ≤ sides.2) (hfit : SidesFit sides) (d : ℤ) :
    addSide sides (some d) =
      if SidesFit (sides.1 + max d 0, sides.2 + max (-d) 0) then
        some (sides.1 + max d 0, sides.2 + max (-d) 0)
      else none := by
  obtain ⟨gained, lost⟩ := sides
  obtain ⟨hgained, hlost⟩ := h
  obtain ⟨hgainedFits, hlostFits⟩ := hfit
  -- a delta moves one side: the loss if it is negative, the gain if positive
  rcases lt_trichotomy d 0 with hd | rfl | hd
  · have hmax : max d 0 = 0 ∧ max (-d) 0 = -d := by omega
    rw [hmax.1, hmax.2, addSide, Option.bind_eq_bind, Option.bind_some, if_neg (not_lt.mpr hd.le),
      if_pos hd, Range.neg, Range.fit_of_nonneg (by omega)]
    by_cases hneg : -d ≤ Range.i128.hi
    · rw [if_pos hneg, Option.bind_some, Range.add, Range.fit_of_nonneg (by simp only at hlost; omega)]
      by_cases hsum : lost + -d ≤ Range.i128.hi
      · rw [if_pos hsum, if_pos ⟨by simpa using hgainedFits, hsum⟩, add_zero]
        rfl
      · rw [if_neg hsum, if_neg fun h => hsum h.2]
        rfl
    · rw [if_neg hneg, if_neg fun h => hneg (by have := h.2; omega)]
      rfl
  · simp [addSide, SidesFit, hgainedFits, hlostFits]
  · have hmax : max d 0 = d ∧ max (-d) 0 = 0 := by omega
    rw [hmax.1, hmax.2, addSide, Option.bind_eq_bind, Option.bind_some, if_pos hd, Range.add,
      Range.fit_of_nonneg (by simp only at hgained; omega)]
    by_cases hsum : gained + d ≤ Range.i128.hi
    · rw [if_pos hsum, if_pos ⟨hsum, by simpa using hlostFits⟩, add_zero]
      rfl
    · rw [if_neg hsum, if_neg fun h => hsum h.1]
      rfl

/-- Nets that all ran give both sides if these fit. -/
theorem foldlM_addSide (nets : List ℤ) :
    (nets.map some).foldlM addSide (0, 0) =
      if SidesFit (sidesOf nets) then some (sidesOf nets) else none := by
  induction nets using List.reverseRecOn with
  | nil => rfl
  | append_singleton nets d ih =>
      have hnonneg := sidesOf_nonneg nets
      rw [List.map_append, List.foldlM_append, ih, sidesOf_concat]
      by_cases hfit : SidesFit (sidesOf nets)
      · rw [if_pos hfit]
        show ((addSide (sidesOf nets) (some d)).bind fun sides => some sides) = _
        rw [addSide_eq hnonneg hfit, Option.bind_fun_some]
      · have hlater : ¬ SidesFit ((sidesOf nets).1 + max d 0, (sidesOf nets).2 + max (-d) 0) := by
          intro h
          obtain ⟨hgained, hlost⟩ := h
          exact hfit ⟨by omega, by omega⟩
        rw [if_neg hfit, if_neg hlater]
        rfl

/-- A net that left the range leaves no value. -/
theorem foldlM_addSide_of_mem {nets : List (Option ℤ)} (h : none ∈ nets) (sides : ℤ × ℤ) :
    nets.foldlM addSide sides = none := by
  induction nets generalizing sides with
  | nil => cases h
  | cons net nets ih =>
      rw [List.foldlM_cons]
      rcases List.mem_cons.mp h with rfl | h
      · rfl
      · cases addSide sides net with
        | none => rfl
        | some sides => exact ih h sides

/-! ## What the tables hold -/

variable {deltas : List AccountDelta} {asset : Int64}

/-- An asset's accounts, filled by its changes alone. -/
def accountNets (deltas : List AccountDelta) (asset : Int64) : AccountNets :=
  runAll ((deltas.filter (·.assetId = asset)).map AccountDelta.toAccount) ∅

theorem foldl_toAccount (deltas : List AccountDelta) (account : String) (value : Option ℤ) :
    history account (deltas.map AccountDelta.toAccount) (some value) =
      some (((deltas.filter (·.account = account)).map AccountDelta.delta).foldl
        (fun total x => total.bind fun total => Range.i128.add total x) value) := by
  induction deltas generalizing value with
  | nil => rfl
  | cons d deltas ih =>
      rw [List.map_cons, history_cons]
      by_cases h : d.account = account
      · rw [if_pos (show d.toAccount.key = account from h), List.filter_cons_of_pos (by simpa using h),
          List.map_cons, List.foldl_cons, ← ih]
        rfl
      · rw [if_neg (show d.toAccount.key ≠ account from h), List.filter_cons_of_neg (by simpa using h),
          ih]

theorem history_toAccount (deltas : List AccountDelta) (account : String) :
    history account (deltas.map AccountDelta.toAccount) none =
      if account ∈ deltas.map AccountDelta.account then
        some (Range.i128.sum ((deltas.filter (·.account = account)).map AccountDelta.delta))
      else none := by
  induction deltas with
  | nil => rfl
  | cons d deltas ih =>
      rw [List.map_cons, history_cons, List.map_cons]
      by_cases h : d.account = account
      · rw [if_pos (show d.toAccount.key = account from h), List.filter_cons_of_pos (by simpa using h),
          if_pos (h ▸ List.mem_cons_self)]
        exact foldl_toAccount deltas account _
      · rw [if_neg (show d.toAccount.key ≠ account from h), List.filter_cons_of_neg (by simpa using h),
          ih]
        simp [Ne.symm h]

theorem lookup_accountNets (account : String) :
    (accountNets deltas asset).lookup account =
      if account ∈ accountsOf deltas asset then
        some (Range.i128.sum (deltasOf deltas asset account))
      else none := by
  have hchanges : ((deltas.filter (·.assetId = asset)).filter (·.account = account)).map
      AccountDelta.delta = deltasOf deltas asset account := by
    rw [deltasOf, List.filter_filter]
    simp [Bool.and_comm]
  have hmem : account ∈ (deltas.filter (·.assetId = asset)).map AccountDelta.account ↔
      account ∈ accountsOf deltas asset := List.mem_toFinset.symm
  rw [accountNets, lookup_runAll, AList.lookup_empty, history_toAccount, hchanges]
  exact if_congr hmem rfl rfl

theorem foldl_toAsset (deltas : List AccountDelta) (accounts : AccountNets) :
    history asset (deltas.map AccountDelta.toAsset) (some accounts) =
      some (runAll ((deltas.filter (·.assetId = asset)).map AccountDelta.toAccount) accounts) := by
  induction deltas generalizing accounts with
  | nil => rfl
  | cons d deltas ih =>
      rw [List.map_cons, history_cons]
      by_cases h : d.assetId = asset
      · rw [if_pos (show d.toAsset.key = asset from h), List.filter_cons_of_pos (by simpa using h)]
        exact ih _
      · rw [if_neg (show d.toAsset.key ≠ asset from h), List.filter_cons_of_neg (by simpa using h),
          ih]

theorem lookup_perAsset :
    (perAsset deltas).lookup asset =
      if asset ∈ deltas.map AccountDelta.assetId then some (accountNets deltas asset) else none := by
  rw [perAsset, lookup_runAll, AList.lookup_empty, accountNets]
  induction deltas with
  | nil => rfl
  | cons d deltas ih =>
      rw [List.map_cons, history_cons, List.map_cons]
      by_cases h : d.assetId = asset
      · rw [if_pos (show d.toAsset.key = asset from h), List.filter_cons_of_pos (by simpa using h),
          if_pos (h ▸ List.mem_cons_self)]
        exact foldl_toAsset deltas _
      · rw [if_neg (show d.toAsset.key ≠ asset from h), List.filter_cons_of_neg (by simpa using h),
          ih]
        simp [Ne.symm h]

theorem mem_byAccount {account : String} {running : Option ℤ} :
    (account, running) ∈ byAccount (accountNets deltas asset) ↔
      account ∈ accountsOf deltas asset ∧
        running = Range.i128.sum (deltasOf deltas asset account) := by
  rw [byAccount, (List.mergeSort_perm _ _).mem_iff, mem_pairs, lookup_accountNets]
  by_cases h : account ∈ accountsOf deltas asset
  · simp [h, eq_comm]
  · simp [h]

/-- The accounts in order, once each. -/
theorem toFinset_byAccount :
    ((byAccount (accountNets deltas asset)).map Prod.fst).Nodup ∧
      ((byAccount (accountNets deltas asset)).map Prod.fst).toFinset = accountsOf deltas asset := by
  constructor
  · rw [byAccount, ((List.mergeSort_perm _ _).map Prod.fst).nodup_iff]
    exact nodup_map_fst_pairs _
  · ext account
    rw [List.mem_toFinset, List.mem_map]
    constructor
    · rintro ⟨⟨_, running⟩, hmem, rfl⟩
      exact (mem_byAccount.mp hmem).1
    · exact fun h => ⟨_, mem_byAccount.mpr ⟨h, rfl⟩, rfl⟩

/-- What an asset settled, from exact nets: none if a running net left the range, or if
a side does not fit. -/
def Settles (deltas : List AccountDelta) (asset : Int64) (amount : Option ℤ) : Prop :=
  ∀ value, amount = some value ↔
    NetsRun deltas asset ∧ SidesFit (gained deltas asset, lost deltas asset) ∧
      value = max (gained deltas asset) (lost deltas asset)

theorem values_of_netsRun (h : NetsRun deltas asset) :
    (byAccount (accountNets deltas asset)).map Prod.snd =
      (((byAccount (accountNets deltas asset)).map Prod.fst).map (net deltas asset)).map some := by
  rw [List.map_map, List.map_map]
  refine List.map_congr_left fun entry hentry => ?_
  obtain ⟨account, running⟩ := entry
  obtain ⟨-, hrunning⟩ := mem_byAccount.mp hentry
  exact hrunning.trans (Range.sum_eq_some_iff.mpr ⟨h account, rfl⟩)

theorem sidesOf_byAccount :
    sidesOf (((byAccount (accountNets deltas asset)).map Prod.fst).map (net deltas asset)) =
      (gained deltas asset, lost deltas asset) := by
  obtain ⟨hnodup, hfinset⟩ := @toFinset_byAccount deltas asset
  rw [gained, lost, ← hfinset, List.sum_toFinset _ hnodup, List.sum_toFinset _ hnodup, sidesOf]
  simp only [List.map_map]
  rfl

theorem none_mem_of_not_netsRun (h : ¬ NetsRun deltas asset) :
    none ∈ (byAccount (accountNets deltas asset)).map Prod.snd := by
  obtain ⟨account, haccount⟩ := not_forall.mp h
  have hmem : account ∈ accountsOf deltas asset := by
    by_contra hnot
    have hempty : deltasOf deltas asset account = [] := by
      rw [deltasOf, List.map_eq_nil_iff, List.filter_eq_nil_iff]
      intro d hd hboth
      rw [decide_eq_true_eq] at hboth
      exact hnot (List.mem_toFinset.mpr (List.mem_map.mpr
        ⟨d, List.mem_filter.mpr ⟨hd, by simpa using hboth.1⟩, hboth.2⟩))
    exact haccount (hempty ▸ Range.runs_nil)
  have hnone : none = Range.i128.sum (deltasOf deltas asset account) :=
    (Range.sum_eq_none_iff.mpr haccount).symm
  exact List.mem_map.mpr ⟨(account, none), mem_byAccount.mpr ⟨hmem, hnone⟩, rfl⟩

theorem settles_reduce (deltas : List AccountDelta) (asset : Int64) :
    Settles deltas asset (reduce (accountNets deltas asset)) := by
  intro value
  by_cases hruns : NetsRun deltas asset
  · rw [reduce, values_of_netsRun hruns, foldlM_addSide, sidesOf_byAccount]
    by_cases hfit : SidesFit (gained deltas asset, lost deltas asset)
    · rw [if_pos hfit, Option.map_some, Option.some_inj, eq_comm]
      exact ⟨fun h => ⟨hruns, hfit, h⟩, fun h => h.2.2⟩
    · rw [if_neg hfit]
      exact iff_of_false (by simp) fun h => hfit h.2.1
  · rw [reduce, foldlM_addSide_of_mem (none_mem_of_not_netsRun hruns)]
    exact iff_of_false (by simp) fun h => hruns h.1

theorem mem_map_fst_perAsset :
    asset ∈ (pairs (perAsset deltas)).map Prod.fst ↔ asset ∈ deltas.map AccountDelta.assetId := by
  constructor
  · intro h
    obtain ⟨⟨_, accounts⟩, hpair, rfl⟩ := List.mem_map.mp h
    by_contra hnot
    have hlookup := mem_pairs.mp hpair
    rw [lookup_perAsset, if_neg hnot] at hlookup
    cases hlookup
  · intro h
    exact List.mem_map.mpr ⟨(asset, accountNets deltas asset),
      mem_pairs.mpr (by rw [lookup_perAsset, if_pos h]), rfl⟩

/-- The assets that changed, in order. -/
def assetsOf (deltas : List AccountDelta) : List Int64 :=
  (deltas.map AccountDelta.assetId).dedup.mergeSort fun a b => a ≤ b

theorem mergeSort_ids_eq {ids ids' : List Int64} (h : ids.Perm ids') :
    ids.mergeSort (fun a b => a ≤ b) = ids'.mergeSort fun a b => a ≤ b := by
  have hsorted := fun l : List Int64 => @List.pairwise_mergeSort _ (fun a b => decide (a ≤ b))
    (fun a b c => by simpa using Int64.le_trans) (fun a b => by simpa using Int64.le_total a b) l
  refine List.Perm.eq_of_pairwise (fun a b _ _ hab hba => ?_) (hsorted ids) (hsorted ids')
    ((List.mergeSort_perm ids _).trans (h.trans (List.mergeSort_perm ids' _).symm))
  exact Int64.le_antisymm (by simpa using hab) (by simpa using hba)

theorem map_fst_byAsset (deltas : List AccountDelta) :
    (byAsset (perAsset deltas)).map Prod.fst = assetsOf deltas := by
  have hperm : ((pairs (perAsset deltas)).map Prod.fst).Perm (deltas.map AccountDelta.assetId).dedup :=
    (List.perm_ext_iff_of_nodup (nodup_map_fst_pairs _) (List.nodup_dedup _)).mpr fun asset => by
      rw [mem_map_fst_perAsset, List.mem_dedup]
  calc (byAsset (perAsset deltas)).map Prod.fst
      = ((pairs (perAsset deltas)).map Prod.fst).mergeSort (fun a b => a ≤ b) :=
        List.map_mergeSort fun _ _ _ _ => rfl
    _ = assetsOf deltas := mergeSort_ids_eq hperm

/-- Each asset that changed has one row, of what its accounts' running nets come to. -/
theorem netSettled_eq (deltas : List AccountDelta) :
    netSettled deltas =
      (assetsOf deltas).map fun asset => ⟨asset, reduce (accountNets deltas asset)⟩ := by
  rw [netSettled, ← map_fst_byAsset, List.map_map]
  refine List.map_congr_left fun entry hentry => ?_
  obtain ⟨asset, accounts⟩ := entry
  rw [byAsset, (List.mergeSort_perm _ _).mem_iff, mem_pairs, lookup_perAsset] at hentry
  obtain ⟨-, rfl⟩ := by simpa using hentry
  rfl

/-! ## The order of the changes -/

variable {deltas' : List AccountDelta}

theorem assetsOf_perm (h : deltas'.Perm deltas) : assetsOf deltas' = assetsOf deltas :=
  mergeSort_ids_eq ((h.map AccountDelta.assetId).dedup)

theorem sides_perm (h : deltas'.Perm deltas) (asset : Int64) :
    gained deltas' asset = gained deltas asset ∧ lost deltas' asset = lost deltas asset := by
  have haccounts : accountsOf deltas' asset = accountsOf deltas asset :=
    List.toFinset_eq_of_perm _ _ ((h.filter _).map _)
  have hnet : net deltas' asset = net deltas asset :=
    funext fun account => ((h.filter _).map _).sum_eq
  rw [gained, lost, gained, lost, haccounts, hnet]
  exact ⟨rfl, rfl⟩

theorem Settles.eq_iff {amount amount' : Option ℤ} (h : Settles deltas asset amount)
    (h' : Settles deltas' asset amount') (hperm : deltas'.Perm deltas) :
    amount' = amount ↔ (SidesFit (gained deltas asset, lost deltas asset) →
      (NetsRun deltas' asset ↔ NetsRun deltas asset)) := by
  obtain ⟨hgained, hlost⟩ := sides_perm hperm asset
  unfold Settles at h'
  rw [hgained, hlost] at h'
  constructor
  · rintro rfl hfit
    have hvalue := (h' (max (gained deltas asset) (lost deltas asset))).symm.trans (h _)
    simpa [hfit] using hvalue
  · intro hruns
    ext value
    rw [h', h]
    exact and_congr_left fun hrest => hruns hrest.1

/-! ## One change an account -/

/-- An account that changes once in an asset has no running net but that change. -/
theorem netsRun_of_once (honce : (deltas.map fun d => (d.assetId, d.account)).Nodup)
    (hfit : ∀ d ∈ deltas, Range.i128.Has d.delta) (asset : Int64) : NetsRun deltas asset := by
  intro account
  have hdistinct := (List.pairwise_map.mp honce).filter fun d =>
    decide (d.assetId = asset ∧ d.account = account)
  rw [deltasOf]
  rcases hfound : deltas.filter fun d => d.assetId = asset ∧ d.account = account with
    _ | ⟨d, _ | ⟨other, rest⟩⟩
  · rw [hfound]
    exact Range.runs_nil
  · have hd : d ∈ deltas := List.mem_of_mem_filter (hfound ▸ List.mem_singleton_self d)
    rw [hfound]
    exact Range.runs_concat.mpr ⟨Range.runs_nil, by simpa using hfit d hd⟩
  · have hkey : ∀ e ∈ d :: other :: rest, (e.assetId, e.account) = (asset, account) := by
      intro e he
      rw [← hfound] at he
      have := (List.mem_filter.mp he).2
      simpa using this
    rw [hfound] at hdistinct
    refine absurd ?_ (List.rel_of_pairwise_cons hdistinct List.mem_cons_self)
    rw [hkey d List.mem_cons_self, hkey other (List.mem_cons_of_mem _ List.mem_cons_self)]

/-- Then the rows do not depend on the order. -/
theorem netSettled_perm_of_once (honce : (deltas.map fun d => (d.assetId, d.account)).Nodup)
    (hfit : ∀ d ∈ deltas, Range.i128.Has d.delta) (hperm : deltas'.Perm deltas) :
    netSettled deltas' = netSettled deltas := by
  have honce' : (deltas'.map fun d => (d.assetId, d.account)).Nodup :=
    (hperm.map _).nodup_iff.mpr honce
  have hruns := netsRun_of_once honce hfit
  have hruns' := netsRun_of_once honce' fun d hd => hfit d (hperm.mem_iff.mp hd)
  rw [netSettled_eq, netSettled_eq, assetsOf_perm hperm]
  refine List.map_congr_left fun asset _ => ?_
  have hsame := (settles_reduce deltas asset).eq_iff (settles_reduce deltas' asset) hperm
  rw [hsame.mpr fun _ => iff_of_true (hruns' asset) (hruns asset)]

/-- No two of an account's changes are in assets that count as one. -/
def SettledApart [Crates] (sacClassic : Table Int64 Int64) (changes : List LedgerDelta) : Prop :=
  ∀ d ∈ changes, ∀ d' ∈ changes, d.account = d'.account →
    ∀ assetId, d.asset.settledAsset sacClassic = some assetId →
      d'.asset.settledAsset sacClassic = some assetId → d.asset = d'.asset

/-- The balance changes of a transaction settle the same in any order. -/
theorem ledgerDeltasNetSettled_perm [Crates] {txMeta : TransactionMeta} {changes : List LedgerDelta}
    {sacClassic : Table Int64 Int64} (hapart : SettledApart sacClassic (ledgerBalanceDeltas txMeta))
    (hperm : changes.Perm (ledgerBalanceDeltas txMeta)) :
    ledgerDeltasNetSettled changes sacClassic =
      ledgerDeltasNetSettled (ledgerBalanceDeltas txMeta) sacClassic := by
  have hkeys : (ledgerBalanceDeltas txMeta).Pairwise fun d d' =>
      (d.account, d.asset) ≠ (d'.account, d'.asset) :=
    List.pairwise_map.mp (nodup_orderedSpans_delta _)
  refine netSettled_perm_of_once ?once ?fit (hperm.filterMap _)
  case once =>
    refine List.pairwise_map.mpr ((hkeys.imp_of_mem ?_).filterMap _ fun _ _ h => h)
    intro d d' hd hd' hne change hchange change' hchange' hsame
    obtain ⟨assetId, hasset, rfl⟩ := Option.map_eq_some_iff.mp hchange
    obtain ⟨assetId', hasset', rfl⟩ := Option.map_eq_some_iff.mp hchange'
    obtain ⟨rfl, haccount⟩ := Prod.mk.inj hsame
    exact hne (Prod.ext haccount (hapart d hd d' hd' haccount _ hasset hasset'))
  case fit =>
    intro change hchange
    obtain ⟨d, hd, hresolved⟩ := List.mem_filterMap.mp hchange
    obtain ⟨assetId, -, rfl⟩ := Option.map_eq_some_iff.mp hresolved
    obtain ⟨entry, -, hdelta⟩ := List.mem_filterMap.mp hd
    obtain ⟨hlow, hhigh⟩ := fits_of_mem_delta hdelta
    exact ⟨hlow, Int.le_sub_one_of_lt hhigh⟩

/-! ## The value of an asset -/

/-- A value is exact: it is there exactly if every account's running net stays in the
range and both sides of the exact nets fit, and is then the larger side.  Another order
of the changes gives the same rows exactly if no asset whose sides fit has a running net
that leaves the range in one order only; the balance changes of a transaction, one for each
account and asset, have none. -/
theorem netSettled_exact [Crates] (deltas : List AccountDelta) :
    ((netSettled deltas).map NetSettled.assetId = assetsOf deltas ∧
      ∀ row ∈ netSettled deltas, Settles deltas row.assetId row.amount) ∧
    (∀ deltas', deltas'.Perm deltas → (netSettled deltas' = netSettled deltas ↔
      ∀ asset ∈ assetsOf deltas, SidesFit (gained deltas asset, lost deltas asset) →
        (NetsRun deltas' asset ↔ NetsRun deltas asset))) ∧
    ∀ (txMeta : TransactionMeta) (sacClassic : Table Int64 Int64) (changes : List LedgerDelta),
      SettledApart sacClassic (ledgerBalanceDeltas txMeta) →
      changes.Perm (ledgerBalanceDeltas txMeta) →
      ledgerDeltasNetSettled changes sacClassic =
        ledgerDeltasNetSettled (ledgerBalanceDeltas txMeta) sacClassic := by
  refine ⟨⟨?_, ?_⟩, ?_, fun _ _ _ => ledgerDeltasNetSettled_perm⟩
  · rw [netSettled_eq, List.map_map]
    exact List.map_id _
  · intro row hrow
    rw [netSettled_eq] at hrow
    obtain ⟨asset, -, rfl⟩ := List.mem_map.mp hrow
    exact settles_reduce deltas asset
  · intro deltas' hperm
    have hsame := fun asset =>
      (settles_reduce deltas asset).eq_iff (settles_reduce deltas' asset) hperm
    rw [netSettled_eq, netSettled_eq, assetsOf_perm hperm, List.map_inj_left]
    simp only [NetSettled.mk.injEq, true_and, hsame]

/-- An account that has more than it can count for a moment. -/
def overfull (deltas : List ℤ) : List AccountDelta :=
  deltas.map fun delta => ⟨0, "A", delta⟩

theorem netSettled_overfull :
    netSettled (overfull [2 ^ 127 - 1, -1, 1]) = [⟨0, some (2 ^ 127 - 1)⟩] ∧
      netSettled (overfull [2 ^ 127 - 1, 1, -1]) = [⟨0, none⟩] := by
  have hassets : ∀ deltas : List ℤ, deltas.length = 3 → assetsOf (overfull deltas) = [0] := by
    intro deltas hlength
    obtain ⟨a, b, c, rfl⟩ := List.length_eq_three.mp hlength
    exact List.mergeSort_singleton 0
  have hkept : pairs (accountNets (overfull [2 ^ 127 - 1, -1, 1]) 0) = [("A", some (2 ^ 127 - 1))] := by
    decide
  have hleft : pairs (accountNets (overfull [2 ^ 127 - 1, 1, -1]) 0) = [("A", none)] := by
    decide
  rw [netSettled_eq, netSettled_eq, hassets _ rfl, hassets _ rfl]
  simp only [List.map_singleton, reduce, byAccount, hkept, hleft, List.mergeSort_singleton]
  decide

/-- The same changes in two orders, with a value in one of them. -/
theorem not_netSettled_perm :
    ¬ ∀ deltas deltas' : List AccountDelta, deltas'.Perm deltas →
      netSettled deltas' = netSettled deltas := by
  intro hclaim
  have hperm : (overfull [2 ^ 127 - 1, -1, 1]).Perm (overfull [2 ^ 127 - 1, 1, -1]) :=
    ((List.Perm.swap _ _ []).cons _).map _
  have hsame := hclaim _ _ hperm
  rw [netSettled_overfull.1, netSettled_overfull.2] at hsame
  cases hsame

end SorobanExplorer
