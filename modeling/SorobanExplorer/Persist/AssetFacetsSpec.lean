import SorobanExplorer.Persist.AssetFacets

/-!
# One row an asset, one facet an asset

The asset rows are the rows of the sightings, one an identity (`mem_assetRows`).  A facet is
folded from the sightings of its asset that name a contract:

* `deployed_mergeSacs`: it is deployed exactly when one of them is;
* `sacContractId_mergeSacs`: it has their contract, if they name one only.

So neither depends on the order of the sightings (`mem_assetSacRows`).
-/

namespace SorobanExplorer.AssetFacets

open KeyedFold Ranked

/-! ## Merging the contracts named -/

/-- What a facet holds once one more contract is named. -/
def mergeSac (facet : Option SacSighting) (sac : SacSighting) : SacSighting :=
  (pushSac (0, "", 0) sac).apply facet

/-- What a facet holds after the contracts named, in order. -/
def mergeSacs (named : List SacSighting) : Option SacSighting :=
  named.foldl (fun facet sac => some (mergeSac facet sac)) none

theorem mergeSacs_append (named : List SacSighting) (sac : SacSighting) :
    mergeSacs (named ++ [sac]) = some (mergeSac (mergeSacs named) sac) := by
  simp [mergeSacs]

theorem mergeSacs_eq_none {named : List SacSighting} : mergeSacs named = none ↔ named = [] := by
  induction named using List.reverseRecOn with
  | nil => simp [mergeSacs]
  | append_singleton named sac ih => simp [mergeSacs_append]

theorem max_flag {a b : UInt8} (ha : a ≤ 1) (hb : b ≤ 1) :
    max a b = if a = 1 ∨ b = 1 then 1 else 0 := by
  have hcases : ∀ {c : UInt8}, c ≤ 1 → c = 0 ∨ c = 1 := by
    intro c hc
    have hle := UInt8.le_iff_toNat_le.mp hc
    rcases Nat.le_one_iff_eq_zero_or_eq_one.mp hle with h | h
    · exact Or.inl (UInt8.toNat_inj.mp h)
    · exact Or.inr (UInt8.toNat_inj.mp h)
  rcases hcases ha with rfl | rfl <;> rcases hcases hb with rfl | rfl <;> rfl

/-- A deployment is remembered, and nothing else shows one. -/
theorem deployed_mergeSacs {named : List SacSighting} (hflag : ∀ sac ∈ named, sac.deployed ≤ 1)
    {facet : SacSighting} (h : mergeSacs named = some facet) :
    facet.deployed = if ∃ sac ∈ named, sac.deployed = 1 then 1 else 0 := by
  induction named using List.reverseRecOn generalizing facet with
  | nil => cases h
  | append_singleton named sac ih =>
      rw [mergeSacs_append] at h
      obtain rfl := Option.some.inj h
      have hsac := hflag sac (by simp)
      have hbefore : ((mergeSacs named).getD ⟨0, 0⟩).deployed =
          if ∃ sac ∈ named, sac.deployed = 1 then 1 else 0 := by
        cases hmerged : mergeSacs named with
        | none =>
            rw [mergeSacs_eq_none.mp hmerged]
            simp
        | some before => exact ih (fun other hother => hflag other (by simp [hother])) hmerged
      have hle : ((mergeSacs named).getD ⟨0, 0⟩).deployed ≤ 1 := by
        rw [hbefore]
        split <;> decide
      change max ((mergeSacs named).getD ⟨0, 0⟩).deployed sac.deployed = _
      rw [max_flag hle hsac]
      -- the newest sighting is a deployment, or an earlier one is, or none is
      by_cases hearlier : ∃ sac ∈ named, sac.deployed = 1
      · obtain ⟨other, hother, hdeployed⟩ := hearlier
        rw [if_pos (Or.inl (by rw [hbefore, if_pos ⟨other, hother, hdeployed⟩])),
          if_pos ⟨other, by simp [hother], hdeployed⟩]
      · rw [if_neg hearlier] at hbefore
        by_cases hlast : sac.deployed = 1
        · rw [if_pos (Or.inr hlast), if_pos ⟨sac, by simp, hlast⟩]
        · rw [if_neg (by simp [hbefore, hlast]), if_neg]
          rintro ⟨other, hother, hdeployed⟩
          rcases List.mem_append.mp hother with hother | hother
          · exact hearlier ⟨other, hother, hdeployed⟩
          · exact hlast (List.mem_singleton.mp hother ▸ hdeployed)

/-- Contracts that are all one leave that one. -/
theorem sacContractId_mergeSacs {named : List SacSighting} {contract : Int64}
    (hsame : ∀ sac ∈ named, sac.sacContractId = contract) {facet : SacSighting}
    (h : mergeSacs named = some facet) : facet.sacContractId = contract := by
  induction named using List.reverseRecOn generalizing facet with
  | nil => cases h
  | append_singleton named sac ih =>
      rw [mergeSacs_append] at h
      obtain rfl := Option.some.inj h
      have hsac := hsame sac (by simp)
      change (if sac.sacContractId ≠ 0 then sac.sacContractId
        else ((mergeSacs named).getD ⟨0, 0⟩).sacContractId) = contract
      by_cases hzero : sac.sacContractId = 0
      · rw [if_neg (by simpa using hzero)]
        cases hmerged : mergeSacs named with
        | none => exact hzero.symm.trans hsac
        | some before => exact ih (fun other hother => hsame other (by simp [hother])) hmerged
      · rw [if_pos hzero, hsac]

/-! ## The facets of the sightings -/

/-- The contracts that the sightings name for an asset, in order. -/
def namedFor (sightings : List Sighting) (key : FacetKey) : List SacSighting :=
  (sightings.filter (·.facetKey = key)).filterMap Sighting.sac

theorem lookup_runAll_sacUpdate [Crates] (sightings : List Sighting) (key : FacetKey) :
    (runAll (sightings.filterMap Sighting.sacUpdate) ∅).lookup key =
      mergeSacs (namedFor sightings key) := by
  rw [lookup_runAll, AList.lookup_empty]
  unfold mergeSacs
  generalize (none : Option SacSighting) = facet
  induction sightings generalizing facet with
  | nil => rfl
  | cons sighting sightings ih =>
      unfold namedFor at ih ⊢
      cases hsac : sighting.sac with
      | none =>
          have hskip : sighting.sacUpdate = none := by simp [Sighting.sacUpdate, hsac]
          rw [List.filterMap_cons_none hskip, ih, List.filter_cons]
          split
          · rw [List.filterMap_cons_none hsac]
          · rfl
      | some sac =>
          have hpush : sighting.sacUpdate = some (pushSac sighting.facetKey sac) := by
            simp [Sighting.sacUpdate, hsac]
          rw [List.filterMap_cons_some hpush, history_cons, ih, List.filter_cons]
          by_cases hkey : sighting.facetKey = key
          · rw [if_pos (by exact hkey), if_pos (by simpa using hkey), List.filterMap_cons_some hsac,
              List.foldl_cons]
            rfl
          · rw [if_neg (by exact hkey), if_neg (by simpa using hkey)]

theorem mem_namedFor {sightings : List Sighting} {key : FacetKey} {sac : SacSighting} :
    sac ∈ namedFor sightings key ↔
      ∃ sighting ∈ sightings, sighting.facetKey = key ∧ sighting.sac = some sac := by
  simp only [namedFor, List.mem_filterMap, List.mem_filter, decide_eq_true_eq]
  constructor
  · rintro ⟨sighting, ⟨hmem, hkey⟩, hsac⟩
    exact ⟨sighting, hmem, hkey, hsac⟩
  · rintro ⟨sighting, hmem, hkey, hsac⟩
    exact ⟨sighting, ⟨hmem, hkey⟩, hsac⟩

def AssetSacRow.facetKey (row : AssetSacRow) : FacetKey :=
  (row.assetType, row.assetCode, row.issuerId)

section

variable [Crates] {order : DrainOrder (FacetKey × SacSighting)} {sightings : List Sighting}

theorem nodup_assetSacRows :
    ((stageSightings order sightings).assetSacRows.map AssetSacRow.identity).Nodup := by
  unfold stageSightings
  rw [List.map_map]
  refine ((order.perm _).map _).nodup_iff.mpr ?_
  have hkeys := nodup_map_fst_pairs (runAll (sightings.filterMap Sighting.sacUpdate) ∅)
  refine List.Nodup.of_map (fun identity : AssetIdentity =>
    ((identity.1, identity.2.1, identity.2.2.1) : FacetKey)) ?_
  rw [List.map_map]
  exact hkeys

/-- A facet row is what merging the contracts named for its asset leaves. -/
theorem mem_assetSacRows_iff {row : AssetSacRow} :
    row ∈ (stageSightings order sightings).assetSacRows ↔ row.contractId = 0 ∧
      mergeSacs (namedFor sightings row.facetKey) = some ⟨row.sacContractId, row.sacDeployed⟩ := by
  unfold stageSightings
  rw [List.mem_map]
  constructor
  · rintro ⟨⟨key, facet⟩, hmem, rfl⟩
    have hlookup := mem_pairs.mp ((order.perm _).mem_iff.mp hmem)
    rw [lookup_runAll_sacUpdate] at hlookup
    exact ⟨rfl, hlookup⟩
  · rintro ⟨hcontract, hmerged⟩
    rw [← lookup_runAll_sacUpdate] at hmerged
    refine ⟨(row.facetKey, ⟨row.sacContractId, row.sacDeployed⟩),
      (order.perm _).mem_iff.mpr (mem_pairs.mpr hmerged), ?_⟩
    cases row
    cases hcontract
    rfl

/-- What sightings say of an asset's facet: a contract they name, deployed if one of them shows
it deployed. -/
structure Facet (sightings : List Sighting) (row : AssetSacRow) : Prop where
  contractId : row.contractId = 0
  named : ∃ sac ∈ namedFor sightings row.facetKey, sac.sacContractId = row.sacContractId
  deployed : row.sacDeployed =
    if ∃ sac ∈ namedFor sightings row.facetKey, sac.deployed = 1 then 1 else 0

/-- The sightings of one asset name one contract. -/
def OneContract (sightings : List Sighting) : Prop :=
  ∀ key, ∀ a ∈ namedFor sightings key, ∀ b ∈ namedFor sightings key,
    a.sacContractId = b.sacContractId

/-- A sighting shows its contract deployed or it does not. -/
def Flagged (sightings : List Sighting) : Prop :=
  ∀ sighting ∈ sightings, ∀ sac ∈ sighting.sac, sac.deployed ≤ 1

omit [Crates] in
theorem Flagged.namedFor (h : Flagged sightings) (key : FacetKey) :
    ∀ sac ∈ namedFor sightings key, sac.deployed ≤ 1 := by
  intro sac hsac
  obtain ⟨sighting, hmem, -, hnamed⟩ := mem_namedFor.mp hsac
  exact h sighting hmem sac hnamed

theorem deployed_of_mem (hflag : Flagged sightings) {row : AssetSacRow}
    (h : row ∈ (stageSightings order sightings).assetSacRows) : row.sacDeployed =
      if ∃ sac ∈ namedFor sightings row.facetKey, sac.deployed = 1 then 1 else 0 :=
  deployed_mergeSacs (hflag.namedFor _) (mem_assetSacRows_iff.mp h).2

/-- **The facets are what the sightings say**, when those of one asset name one contract. -/
theorem mem_assetSacRows (hflag : Flagged sightings) (hone : OneContract sightings)
    {row : AssetSacRow} :
    row ∈ (stageSightings order sightings).assetSacRows ↔ Facet sightings row := by
  constructor
  · intro hmem
    obtain ⟨hcontract, hmerged⟩ := mem_assetSacRows_iff.mp hmem
    have hsome : namedFor sightings row.facetKey ≠ [] := by
      intro hnil
      rw [mergeSacs_eq_none.mpr hnil] at hmerged
      cases hmerged
    obtain ⟨sac, hsac⟩ := List.exists_mem_of_ne_nil _ hsome
    have hcontractId := sacContractId_mergeSacs (fun other hother => hone _ other hother sac hsac)
      hmerged
    exact ⟨hcontract, ⟨sac, hsac, hcontractId.symm⟩, deployed_of_mem hflag hmem⟩
  · rintro ⟨hcontract, ⟨sac, hsac, hnamed⟩, hdeployed⟩
    obtain ⟨facet, hmerged⟩ := Option.ne_none_iff_exists'.mp
      (mt mergeSacs_eq_none.mp (List.ne_nil_of_mem hsac))
    have hcontractId := sacContractId_mergeSacs (fun other hother => hone _ other hother sac hsac)
      hmerged
    have hflagged := deployed_mergeSacs (hflag.namedFor _) hmerged
    refine mem_assetSacRows_iff.mpr ⟨hcontract, ?_⟩
    rw [hmerged, ← hnamed, ← hcontractId, hdeployed, ← hflagged]

/-! ## The asset rows -/

theorem nodup_assetRows :
    ((stageSightings order sightings).assetRows.map AssetRow.identity).Nodup :=
  nodup_map_firstBy _ _

/-- A row is determined by its identity, so the first is as good as any. -/
theorem mem_assetRows {row : AssetRow} :
    row ∈ (stageSightings order sightings).assetRows ↔
      ∃ sighting ∈ sightings, sighting.row = row := by
  unfold stageSightings
  rw [mem_firstBy_of_copies, List.mem_map]
  intro a ha b hb heq
  obtain ⟨sighting, -, rfl⟩ := List.mem_map.mp ha
  obtain ⟨sighting', -, rfl⟩ := List.mem_map.mp hb
  simp only [AssetRow.identity, Sighting.row, AssetRow.staged, Prod.mk.injEq] at heq
  obtain ⟨htype, hcode, hissuer, hcontract⟩ := heq
  simp only [Sighting.row, htype, hcode, hissuer, hcontract]

end

/-! ## In any order -/

theorem namedFor_congr {sightings sightings' : List Sighting}
    (h : ∀ sighting, sighting ∈ sightings ↔ sighting ∈ sightings') (key : FacetKey)
    (sac : SacSighting) : sac ∈ namedFor sightings key ↔ sac ∈ namedFor sightings' key := by
  simp only [mem_namedFor, h]

/-- The same sightings, in whatever order and however often, stage the same rows. -/
theorem mem_stageSightings_congr [Crates] {order order' : DrainOrder (FacetKey × SacSighting)}
    {sightings sightings' : List Sighting}
    (h : ∀ sighting, sighting ∈ sightings ↔ sighting ∈ sightings') (hflag : Flagged sightings)
    (hone : OneContract sightings) :
    (∀ row, row ∈ (stageSightings order sightings).assetRows ↔
      row ∈ (stageSightings order' sightings').assetRows) ∧
    (∀ row, row ∈ (stageSightings order sightings).assetSacRows ↔
      row ∈ (stageSightings order' sightings').assetSacRows) := by
  have hnamed := namedFor_congr h
  have hflag' : Flagged sightings' := fun sighting hmem => hflag sighting ((h sighting).mpr hmem)
  have hone' : OneContract sightings' := fun key a ha b hb =>
    hone key a ((hnamed key a).mpr ha) b ((hnamed key b).mpr hb)
  refine ⟨fun row => ?_, fun row => ?_⟩
  · simp only [mem_assetRows, h]
  · rw [mem_assetSacRows hflag hone, mem_assetSacRows hflag' hone']
    have hsame : (∃ sac ∈ namedFor sightings row.facetKey, sac.deployed = 1) ↔
        ∃ sac ∈ namedFor sightings' row.facetKey, sac.deployed = 1 := by
      simp only [hnamed]
    have hsame' : (∃ sac ∈ namedFor sightings row.facetKey,
          sac.sacContractId = row.sacContractId) ↔
        ∃ sac ∈ namedFor sightings' row.facetKey, sac.sacContractId = row.sacContractId := by
      simp only [hnamed]
    constructor
    · rintro ⟨hcontract, hsac, hdeployed⟩
      exact ⟨hcontract, hsame'.mp hsac, by simpa only [hsame] using hdeployed⟩
    · rintro ⟨hcontract, hsac, hdeployed⟩
      exact ⟨hcontract, hsame'.mpr hsac, by simpa only [hsame] using hdeployed⟩

end SorobanExplorer.AssetFacets
