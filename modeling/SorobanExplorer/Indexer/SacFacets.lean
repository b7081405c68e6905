import SorobanExplorer.Indexer.DeployerAttribution
import SorobanExplorer.Persist.AssetFacetsSpec

/-!
# The assets of a ledger, in any order of its transactions

Which sightings a ledger has does not depend on the order of its transactions
(`mem_ledgerSightings_congr`), because each is read from one transaction alone.  The events of
one contract could still disagree about its asset, and two contracts could claim one asset; ids
derived from the assets exclude both (`oneContract_ledgerSightings`), as long as the ledger's
assets are apart.
-/

namespace SorobanExplorer.AssetFacets

open KeyedFold Ranked

/-- What is read of one parsed transaction. -/
structure SightedTransaction where
  hash : String
  sourceAccount : String
  changes : List ExtractedLedgerEntryChange
  events : List ExtractedEvent

section

variable [Crates]

def txDeployments (networkId : Hash) (deployers : Table String String) (tx : SightedTransaction) :
    List ExtractedContractDeployment :=
  extractContractDeployments tx.changes tx.sourceAccount networkId deployers

def ledgerDeployments (networkId : Hash) (deployers : Table String String)
    (txs : List SightedTransaction) : List ExtractedContractDeployment :=
  txs.flatMap (txDeployments networkId deployers)

def ledgerAssets (verdictByHash : String → Option ContractClassification) (networkId : Hash)
    (deployers : Table String String) (txs : List SightedTransaction) : List ExtractedAsset :=
  txs.flatMap (fun tx => detectAssets verdictByHash (txDeployments networkId deployers tx) ++
    detectClassicCreditAssets tx.changes) ++ [nativeAssetSingleton]

def ledgerOverrides (order : DrainOrder SacOverride) (networkId : Hash)
    (txs : List SightedTransaction) : List SacOverride :=
  detectUndeployedSacOverrides order networkId (txs.map fun tx => (tx.hash, tx.events))

/-- What one processing of a ledger picks freely, and what it is handed. -/
structure Processing where
  overrideOrder : DrainOrder SacOverride
  facetOrder : DrainOrder (FacetKey × SacSighting)
  deployers : Table String String
  contractRows : List SorobanContractRow

def ledgerSightings (verdictByHash : String → Option ContractClassification) (networkId : Hash)
    (run : Processing) (txs : List SightedTransaction) : List Sighting :=
  sightings run.contractRows (ledgerAssets verdictByHash networkId run.deployers txs)
    (ledgerDeployments networkId run.deployers txs)
    (ledgerOverrides run.overrideOrder networkId txs)

def stageLedgerAssets (verdictByHash : String → Option ContractClassification) (networkId : Hash)
    (run : Processing) (txs : List SightedTransaction) : StagedAssets :=
  stageAssets run.facetOrder run.contractRows
    (ledgerAssets verdictByHash networkId run.deployers txs)
    (ledgerDeployments networkId run.deployers txs)
    (ledgerOverrides run.overrideOrder networkId txs)

/-! ## Contracts claimed -/

/-- The key an asset's facet is kept under. -/
def facetKeyOf (identity : SacAssetIdentity) : FacetKey :=
  (identity.family.toI16, identity.code.getD "", (identity.issuer.map Ids.accountId).getD 0)

/-- The contract a deployment claims for an asset. -/
def deployedSac (deployment : ExtractedContractDeployment) : Option SacOverride :=
  deployment.sacAsset.map fun identity => ⟨deployment.contractId, identity⟩

/-- The contracts a transaction claims for assets. -/
def sacClaims (networkId : Hash) (tx : SightedTransaction) : List SacOverride :=
  (txDeployments networkId ∅ tx).filterMap deployedSac ++
    tx.events.filterMap (sacOverrideOf networkId)

/-- An asset that a claim of the ledger stands for. -/
def Claimed (networkId : Hash) (txs : List SightedTransaction) (asset : Asset) : Prop :=
  ∃ sac ∈ txs.flatMap (sacClaims networkId), Derived networkId sac asset

/-- The assets of a ledger are told apart by their contracts, whose ids are hashes, and by their
identities: the network takes no code in a larger field than it needs, and an issuer has a
surrogate of its own. -/
structure AssetsApart (networkId : Hash) (txs : List SightedTransaction) : Prop where
  contracts : Set.InjOn (fun asset => deriveSacContractId (.asset asset) networkId)
    {asset | Claimed networkId txs asset}
  identities : Set.InjOn (fun asset => facetKeyOf (assetToIdentity asset))
    {asset | Claimed networkId txs asset}

/-- A claim is believed only of a contract whose id is derived from an asset. -/
theorem exists_derived {networkId : Hash} {txs : List SightedTransaction} {sac : SacOverride}
    (h : sac ∈ txs.flatMap (sacClaims networkId)) :
    ∃ asset, Claimed networkId txs asset ∧ Derived networkId sac asset := by
  have hderived : ∃ asset, Derived networkId sac asset := by
    obtain ⟨tx, -, h⟩ := List.mem_flatMap.mp h
    rcases List.mem_append.mp h with h | h
    · obtain ⟨deployment, hmem, hsac⟩ := List.mem_filterMap.mp h
      obtain ⟨identity, hidentity, rfl⟩ := Option.map_eq_some_iff.mp hsac
      obtain ⟨change, -, hdeployed⟩ := List.mem_filterMap.mp hmem
      exact (derived_of_deployment hdeployed hidentity).2
    · obtain ⟨event, -, hsac⟩ := List.mem_filterMap.mp h
      exact derived_of_override hsac
  obtain ⟨asset, hasset⟩ := hderived
  exact ⟨asset, ⟨sac, h, hasset⟩, hasset⟩

/-- Claims of one asset are of one contract. -/
theorem AssetsApart.contractId_eq {networkId : Hash} {txs : List SightedTransaction}
    (h : AssetsApart networkId txs) {sac sac' : SacOverride}
    (hsac : sac ∈ txs.flatMap (sacClaims networkId))
    (hsac' : sac' ∈ txs.flatMap (sacClaims networkId))
    (hkey : facetKeyOf sac.identity = facetKeyOf sac'.identity) :
    sac.contractId = sac'.contractId := by
  obtain ⟨asset, hclaimed, hcontract, hidentity⟩ := exists_derived hsac
  obtain ⟨asset', hclaimed', hcontract', hidentity'⟩ := exists_derived hsac'
  rw [hidentity, hidentity'] at hkey
  rw [hcontract, hcontract', h.identities hclaimed hclaimed' hkey]

/-- Claims of one contract are of one asset. -/
theorem AssetsApart.eq_of_contractId {networkId : Hash} {txs : List SightedTransaction}
    (h : AssetsApart networkId txs) {sac sac' : SacOverride}
    (hsac : sac ∈ txs.flatMap (sacClaims networkId))
    (hsac' : sac' ∈ txs.flatMap (sacClaims networkId))
    (hcontractId : sac.contractId = sac'.contractId) : sac = sac' := by
  obtain ⟨asset, hclaimed, hcontract, hidentity⟩ := exists_derived hsac
  obtain ⟨asset', hclaimed', hcontract', hidentity'⟩ := exists_derived hsac'
  have hasset : asset = asset' := h.contracts hclaimed hclaimed' <|
    calc deriveSacContractId (.asset asset) networkId = sac.contractId := hcontract.symm
      _ = sac'.contractId := hcontractId
      _ = deriveSacContractId (.asset asset') networkId := hcontract'
  cases sac
  cases sac'
  simp only at hcontractId hidentity hidentity'
  rw [hcontractId, hidentity, hidentity', hasset]

/-! ## The deployers do not matter -/

theorem txDeployments_eq_map (networkId : Hash) (deployers : Table String String)
    (tx : SightedTransaction) : txDeployments networkId deployers tx =
      (txDeployments networkId ∅ tx).map (ExtractedContractDeployment.withDeployer deployers) := by
  unfold txDeployments extractContractDeployments
  rw [List.map_filterMap]
  exact List.filterMap_congr fun change _ => contractDeployment_eq_map _ _ _ change

theorem detectAssets_txDeployments (verdictByHash : String → Option ContractClassification)
    (networkId : Hash) (deployers : Table String String) (tx : SightedTransaction) :
    detectAssets verdictByHash (txDeployments networkId deployers tx) =
      detectAssets verdictByHash (txDeployments networkId ∅ tx) := by
  rw [txDeployments_eq_map, detectAssets, List.filterMap_map]
  rfl

theorem ledgerAssets_deployers (verdictByHash : String → Option ContractClassification)
    (networkId : Hash) (deployers : Table String String) (txs : List SightedTransaction) :
    ledgerAssets verdictByHash networkId deployers txs =
      ledgerAssets verdictByHash networkId ∅ txs := by
  simp only [ledgerAssets, detectAssets_txDeployments verdictByHash networkId deployers]

theorem deploymentSightings_deployers (networkId : Hash) (deployers : Table String String)
    (txs : List SightedTransaction) :
    (ledgerDeployments networkId deployers txs).filterMap deploymentSighting =
      (ledgerDeployments networkId ∅ txs).filterMap deploymentSighting := by
  have hmap : ledgerDeployments networkId deployers txs = (ledgerDeployments networkId ∅ txs).map
      (ExtractedContractDeployment.withDeployer deployers) := by
    unfold ledgerDeployments
    rw [List.map_flatMap]
    exact List.flatMap_congr fun tx _ => txDeployments_eq_map networkId deployers tx
  rw [hmap, List.filterMap_map]
  rfl

/-! ## The sightings, as a set -/

/-- Of claims on one contract one is as good as another. -/
theorem mem_ledgerOverrides {networkId : Hash} {txs : List SightedTransaction}
    (h : AssetsApart networkId txs) {order : DrainOrder SacOverride} {sac : SacOverride} :
    sac ∈ ledgerOverrides order networkId txs ↔
      ∃ tx ∈ txs, sac ∈ tx.events.filterMap (sacOverrideOf networkId) := by
  have hevents : ((txs.map fun tx => (tx.hash, tx.events)).flatMap Prod.snd).filterMap
      (sacOverrideOf networkId) =
        txs.flatMap fun tx => tx.events.filterMap (sacOverrideOf networkId) := by
    rw [List.flatMap_map, List.filterMap_flatMap]
  have hclaim : ∀ sac ∈ txs.flatMap fun tx => tx.events.filterMap (sacOverrideOf networkId),
      sac ∈ txs.flatMap (sacClaims networkId) := by
    intro sac hsac
    obtain ⟨tx, htx, hsac⟩ := List.mem_flatMap.mp hsac
    exact List.mem_flatMap.mpr ⟨tx, htx, List.mem_append_right _ hsac⟩
  unfold ledgerOverrides detectUndeployedSacOverrides
  rw [(order.perm _).mem_iff, hevents, mem_firstBy_of_copies fun a ha b hb heq =>
    h.eq_of_contractId (hclaim a ha) (hclaim b hb) heq, List.mem_flatMap]

section

variable {verdictByHash : String → Option ContractClassification} {networkId : Hash}
  {run run' : Processing} {txs txs' : List SightedTransaction}

theorem mem_ledgerSightings (h : AssetsApart networkId txs) {sighting : Sighting} :
    sighting ∈ ledgerSightings verdictByHash networkId run txs ↔
      sighting ∈ (ledgerAssets verdictByHash networkId ∅ txs).map assetSighting ∨
      sighting ∈ (ledgerDeployments networkId ∅ txs).filterMap deploymentSighting ∨
      (∃ tx ∈ txs, ∃ sac ∈ tx.events.filterMap (sacOverrideOf networkId),
        overrideSighting sac = sighting) ∨
      sighting = nativeSighting ∨ sighting ∈ run.contractRows.filterMap fungibleSighting := by
  unfold ledgerSightings sightings
  rw [ledgerAssets_deployers, deploymentSightings_deployers]
  simp only [List.mem_append, List.mem_singleton, or_assoc, List.mem_map (f := overrideSighting),
    mem_ledgerOverrides h]
  have hoverride : (∃ sac, (∃ tx ∈ txs, sac ∈ tx.events.filterMap (sacOverrideOf networkId)) ∧
        overrideSighting sac = sighting) ↔
      ∃ tx ∈ txs, ∃ sac ∈ tx.events.filterMap (sacOverrideOf networkId),
        overrideSighting sac = sighting := by
    constructor
    · rintro ⟨sac, ⟨tx, htx, hsac⟩, heq⟩
      exact ⟨tx, htx, sac, hsac, heq⟩
    · rintro ⟨tx, htx, sac, hsac, heq⟩
      exact ⟨sac, ⟨tx, htx, hsac⟩, heq⟩
  rw [hoverride]

theorem AssetsApart.perm (h : AssetsApart networkId txs) (hperm : txs.Perm txs') :
    AssetsApart networkId txs' := by
  have hclaimed : ∀ asset, Claimed networkId txs' asset → Claimed networkId txs asset := by
    rintro asset ⟨sac, hsac, hderived⟩
    exact ⟨sac, (hperm.flatMap_right _).mem_iff.mpr hsac, hderived⟩
  exact ⟨h.contracts.mono hclaimed, h.identities.mono hclaimed⟩

/-- A ledger has the same sightings in every order of its transactions. -/
theorem mem_ledgerSightings_congr (h : AssetsApart networkId txs) (hperm : txs.Perm txs')
    (hrows : ∀ sighting, sighting ∈ run.contractRows.filterMap fungibleSighting ↔
      sighting ∈ run'.contractRows.filterMap fungibleSighting) (sighting : Sighting) :
    sighting ∈ ledgerSightings verdictByHash networkId run txs ↔
      sighting ∈ ledgerSightings verdictByHash networkId run' txs' := by
  have hassets : (ledgerAssets verdictByHash networkId ∅ txs).Perm
      (ledgerAssets verdictByHash networkId ∅ txs') :=
    (hperm.flatMap_right _).append_right _
  have hdeployments : (ledgerDeployments networkId ∅ txs).Perm
      (ledgerDeployments networkId ∅ txs') := hperm.flatMap_right _
  rw [mem_ledgerSightings h, mem_ledgerSightings (h.perm hperm),
    (hassets.map _).mem_iff, (hdeployments.filterMap _).mem_iff, hrows]
  simp only [hperm.mem_iff]

/-! ## Who names a contract -/

/-- The contract of a deployment, named by the deployment. -/
def NamedByDeployment (networkId : Hash) (txs : List SightedTransaction) (key : FacetKey)
    (sac : SacSighting) : Prop :=
  ∃ deployment ∈ ledgerDeployments networkId ∅ txs, ∃ identity,
    deployment.sacAsset = some identity ∧ facetKeyOf identity = key ∧
      sac = ⟨Ids.contractId deployment.contractId, 1⟩

/-- The emitter of an event, named by the event. -/
def NamedByEvent (networkId : Hash) (txs : List SightedTransaction) (key : FacetKey)
    (sac : SacSighting) : Prop :=
  ∃ tx ∈ txs, ∃ claim ∈ tx.events.filterMap (sacOverrideOf networkId),
    facetKeyOf claim.identity = key ∧ sac = ⟨Ids.contractId claim.contractId, 0⟩

theorem namedByDeployment_of_asset {asset : ExtractedAsset} {sac : SacSighting}
    (hmem : asset ∈ ledgerAssets verdictByHash networkId ∅ txs)
    (hsac : (assetSighting asset).sac = some sac) :
    NamedByDeployment networkId txs (assetSighting asset).facetKey sac := by
  rcases List.mem_append.mp hmem with hmem | hmem
  · obtain ⟨tx, htx, hmem⟩ := List.mem_flatMap.mp hmem
    rcases List.mem_append.mp hmem with hmem | hmem
    · obtain ⟨deployment, hdeployment, hdetect⟩ := List.mem_filterMap.mp hmem
      unfold detectAsset at hdetect
      split_ifs at hdetect
      · obtain ⟨identity, hidentity, rfl⟩ := Option.map_eq_some_iff.mp hdetect
        obtain rfl := Option.some.inj hsac
        exact ⟨deployment, List.mem_flatMap.mpr ⟨tx, htx, hdeployment⟩, identity, hidentity, rfl,
          rfl⟩
      · obtain rfl := Option.some.inj hdetect
        cases hsac
    · obtain ⟨credit, -, rfl⟩ := List.mem_map.mp hmem
      cases hsac
  · obtain rfl := List.mem_singleton.mp hmem
    cases hsac

/-- Only deployments and events name a contract. -/
theorem named_cases {sighting : Sighting} {sac : SacSighting}
    (hmem : sighting ∈ ledgerSightings verdictByHash networkId run txs)
    (hsac : sighting.sac = some sac) :
    NamedByDeployment networkId txs sighting.facetKey sac ∨
      NamedByEvent networkId txs sighting.facetKey sac := by
  unfold ledgerSightings sightings at hmem
  rw [ledgerAssets_deployers, deploymentSightings_deployers] at hmem
  rcases List.mem_append.mp hmem with hmem | hfungible
  · rcases List.mem_append.mp hmem with hmem | hnative
    · rcases List.mem_append.mp hmem with hmem | hoverride
      · rcases List.mem_append.mp hmem with hasset | hdeployment
        · obtain ⟨asset, hledger, rfl⟩ := List.mem_map.mp hasset
          exact Or.inl (namedByDeployment_of_asset hledger hsac)
        · obtain ⟨deployment, hledger, hsighting⟩ := List.mem_filterMap.mp hdeployment
          obtain ⟨identity, hidentity, rfl⟩ := Option.map_eq_some_iff.mp hsighting
          obtain rfl := Option.some.inj hsac
          exact Or.inl ⟨deployment, hledger, identity, hidentity, rfl, rfl⟩
      · obtain ⟨claim, hclaim, rfl⟩ := List.mem_map.mp hoverride
        obtain rfl := Option.some.inj hsac
        -- the claim kept for a contract is one of its events'
        have hevent := (firstBy_sublist _ _).subset ((run.overrideOrder.perm _).mem_iff.mp hclaim)
        rw [List.flatMap_map, List.filterMap_flatMap] at hevent
        obtain ⟨tx, htx, hevent⟩ := List.mem_flatMap.mp hevent
        exact Or.inr ⟨tx, htx, claim, hevent, rfl, rfl⟩
    · obtain rfl := List.mem_singleton.mp hnative
      cases hsac
  · obtain ⟨row, -, hrow⟩ := List.mem_filterMap.mp hfungible
    unfold fungibleSighting at hrow
    split_ifs at hrow
    obtain rfl := Option.some.inj hrow
    cases hsac

/-- A contract named for an asset was claimed for it. -/
theorem exists_claim_of_named {key : FacetKey} {sac : SacSighting}
    (h : sac ∈ namedFor (ledgerSightings verdictByHash networkId run txs) key) :
    ∃ claim ∈ txs.flatMap (sacClaims networkId), facetKeyOf claim.identity = key ∧
      sac.sacContractId = Ids.contractId claim.contractId := by
  obtain ⟨sighting, hmem, rfl, hsac⟩ := mem_namedFor.mp h
  rcases named_cases hmem hsac with ⟨deployment, hdeployment, identity, hidentity, hkey, rfl⟩ |
    ⟨tx, htx, claim, hclaim, hkey, rfl⟩
  · obtain ⟨tx, htx, hdeployment⟩ := List.mem_flatMap.mp hdeployment
    refine ⟨⟨deployment.contractId, identity⟩, List.mem_flatMap.mpr ⟨tx, htx, ?_⟩, hkey, rfl⟩
    refine List.mem_append_left _ (List.mem_filterMap.mpr ⟨deployment, hdeployment, ?_⟩)
    rw [deployedSac, hidentity, Option.map_some]
  · exact ⟨claim, List.mem_flatMap.mpr ⟨tx, htx, List.mem_append_right _ hclaim⟩, hkey, rfl⟩

theorem oneContract_ledgerSightings (h : AssetsApart networkId txs) :
    OneContract (ledgerSightings verdictByHash networkId run txs) := by
  intro key a ha b hb
  obtain ⟨claim, hclaim, hkey, hcontract⟩ := exists_claim_of_named ha
  obtain ⟨claim', hclaim', hkey', hcontract'⟩ := exists_claim_of_named hb
  rw [hcontract, hcontract', h.contractId_eq hclaim hclaim' (hkey.trans hkey'.symm)]

/-! ## Deployments -/

/-- A contract of the asset of a facet is deployed in the ledger. -/
def ShowsDeployment (networkId : Hash) (txs : List SightedTransaction) (key : FacetKey) : Prop :=
  ∃ deployment ∈ ledgerDeployments networkId ∅ txs,
    ∃ identity, deployment.sacAsset = some identity ∧ facetKeyOf identity = key

theorem exists_deployed_iff {key : FacetKey} :
    (∃ sac ∈ namedFor (ledgerSightings verdictByHash networkId run txs) key, sac.deployed = 1) ↔
      ShowsDeployment networkId txs key := by
  constructor
  · rintro ⟨sac, hnamed, hdeployed⟩
    obtain ⟨sighting, hmem, rfl, hsac⟩ := mem_namedFor.mp hnamed
    rcases named_cases hmem hsac with ⟨deployment, hdeployment, identity, hidentity, hkey, -⟩ |
      ⟨_, -, claim, -, -, rfl⟩
    · exact ⟨deployment, hdeployment, identity, hidentity, hkey⟩
    · cases hdeployed
  · rintro ⟨deployment, hdeployment, identity, hidentity, hkey⟩
    refine ⟨⟨Ids.contractId deployment.contractId, 1⟩, mem_namedFor.mpr
      ⟨sacSighting deployment.contractId identity 1, ?_, hkey, rfl⟩, rfl⟩
    unfold ledgerSightings sightings
    rw [deploymentSightings_deployers]
    have hsighting : sacSighting deployment.contractId identity 1 ∈
        (ledgerDeployments networkId ∅ txs).filterMap deploymentSighting :=
      List.mem_filterMap.mpr ⟨deployment, hdeployment, by simp [deploymentSighting, hidentity]⟩
    simp only [List.mem_append, hsighting, true_or, or_true]

theorem flagged_ledgerSightings : Flagged (ledgerSightings verdictByHash networkId run txs) := by
  intro sighting hmem sac hsac
  rcases named_cases hmem hsac with ⟨_, -, _, -, -, rfl⟩ | ⟨_, -, _, -, -, rfl⟩
  · exact UInt8.le_refl 1
  · exact UInt8.le_iff_toNat_le.mpr (Nat.zero_le 1)

end

/-- **The assets and the asset contracts of a ledger.**  Of an asset there is one row and one facet
at most; a facet is deployed exactly when a deployment of the ledger shows its contract; and the
rows are the same in every order of the ledger's transactions, whatever else is in the rows of its
contracts. -/
theorem sacFacets_ofLedger (verdictByHash : String → Option ContractClassification)
    (networkId : Hash) {run run' : Processing} {txs txs' : List SightedTransaction}
    (hperm : txs.Perm txs')
    (hrows : ∀ sighting, sighting ∈ run.contractRows.filterMap fungibleSighting ↔
      sighting ∈ run'.contractRows.filterMap fungibleSighting) :
    let staged := stageLedgerAssets verdictByHash networkId run txs
    let staged' := stageLedgerAssets verdictByHash networkId run' txs'
    (staged.assetRows.map AssetRow.identity).Nodup ∧
    (staged.assetSacRows.map AssetSacRow.identity).Nodup ∧
    (∀ row ∈ staged.assetSacRows, row.sacDeployed ≤ 1 ∧
      (row.sacDeployed = 1 ↔ ShowsDeployment networkId txs row.facetKey)) ∧
    (AssetsApart networkId txs →
      (∀ row, row ∈ staged.assetRows ↔ row ∈ staged'.assetRows) ∧
      (∀ row, row ∈ staged.assetSacRows ↔ row ∈ staged'.assetSacRows)) := by
  intro staged staged'
  refine ⟨nodup_assetRows, nodup_assetSacRows, fun row hrow => ?_, fun hapart => ?_⟩
  · have hdeployed := deployed_of_mem flagged_ledgerSightings hrow
    rw [← @exists_deployed_iff _ verdictByHash networkId run txs]
    by_cases h : ∃ sac ∈ namedFor (ledgerSightings verdictByHash networkId run txs) row.facetKey,
        sac.deployed = 1
    · rw [if_pos h] at hdeployed
      exact ⟨hdeployed ▸ UInt8.le_refl 1, fun _ => h, fun _ => hdeployed⟩
    · rw [if_neg h] at hdeployed
      refine ⟨hdeployed ▸ UInt8.le_iff_toNat_le.mpr (Nat.zero_le 1), fun hone => ?_,
        fun hsome => absurd hsome h⟩
      rw [hdeployed] at hone
      cases hone
  · exact mem_stageSightings_congr (mem_ledgerSightings_congr hapart hperm hrows)
      flagged_ledgerSightings (oneContract_ledgerSightings hapart)

end

/-! ## A contract that is deployed and emits an event -/

def usdcContract : String := "CA4QICK4VJWTAEFPBLUIHFO7PYIPHX7RCP53YR2OJXJHC7SQ74F62IF6"

def usdcName : Json := typedJson "string" (.str ("USDC:" ++ Crates.pinnedAccountStrkey))

/-- The asset contract of `USDC` is created, with its asset in its metadata. -/
def deploysUsdc : SightedTransaction where
  hash := "aa"
  sourceAccount := Crates.pinnedAccountStrkey
  changes :=
    [{ transactionHash := "aa"
       changeType := "created"
       entryType := "contract_data"
       key := .obj [("contract", .str usdcContract),
         ("key", typedJson "ledger_key_contract_instance" .null)]
       data := some (.obj [("val", typedJson "contract_instance" (.obj
         [("executable", .obj [("type", .str "stellar_asset")]),
           ("storage", .arr [.obj [("key", typedJson "sym" (.str "METADATA")),
             ("value", typedJson "map" (.arr [.obj [("key", typedJson "sym" (.str "name")),
               ("value", usdcName)]]))]])]))])
       changeIndex := 0
       operationIndex := some 0
       ledgerSequence := 60000000
       createdAt := 1750000000 }]
  events := []

/-- The same contract mints. -/
def emitsUsdc : SightedTransaction where
  hash := "bb"
  sourceAccount := Crates.pinnedAccountStrkey
  changes := []
  events :=
    [{ transactionHash := "bb"
       eventId := ⟨60000000, 2, 0, 0⟩
       origin := .operation 0
       body :=
         { eventType := .contract
           contractId := some usdcContract
           topics := .arr [typedJson "sym" (.str "mint"),
             typedJson "address" (.str Crates.pinnedAccountStrkey), usdcName]
           data := typedJson "i128" (.str "5") }
       createdAt := 1750000000 }]

/-- A token contract of the ledger, under the deployer that was met last. -/
def tokenContract (deployerId : Int64) : SorobanContractRow :=
  ⟨12, "", none, 60000000, some deployerId, some 60000000, some ContractType.fungible.toI16, false,
    none, none⟩

def storedRun (deployerId : Int64) : Processing := ⟨.stored, .stored, ∅, [tokenContract deployerId]⟩

theorem claimed_usdc :
    let _ : Crates := Crates.pinned
    ∀ asset, Claimed Crates.pinnedNetwork [deploysUsdc, emitsUsdc] asset →
      asset = .creditAlphanum4 ⟨[0x55, 0x53, 0x44, 0x43], rfl⟩ Crates.pinnedAccount := by
  intro _ asset hclaimed
  obtain ⟨sac, hsac, hcontract, -⟩ := hclaimed
  have hclaims : ∀ sac ∈ [deploysUsdc, emitsUsdc].flatMap (sacClaims Crates.pinnedNetwork),
      sac.contractId = usdcContract := by
    decide
  rw [hclaims sac hsac] at hcontract
  by_contra hother
  -- any other asset has the contract of `EVIL` or none that is known
  have hid : Crates.pinned.contractIdHash Crates.pinnedNetwork (.asset asset) = Crates.pinnedEvil ∨
      Crates.pinned.contractIdHash Crates.pinnedNetwork (.asset asset) = 0 := by
    have hpreimage : ContractIdPreimage.asset asset ≠
        .asset (.creditAlphanum4 ⟨[0x55, 0x53, 0x44, 0x43], rfl⟩ Crates.pinnedAccount) :=
      fun heq => hother (ContractIdPreimage.asset.inj heq)
    have hid : Crates.pinned.contractIdHash Crates.pinnedNetwork (.asset asset) =
        if ContractIdPreimage.asset asset =
            .asset (.creditAlphanum4 ⟨[0x55, 0x53, 0x44, 0x43], rfl⟩ Crates.pinnedAccount) then
          Crates.pinnedUsdc
        else if ContractIdPreimage.asset asset =
            .asset (.creditAlphanum4 ⟨[0x45, 0x56, 0x49, 0x4C], rfl⟩ Crates.pinnedAccount) then
          Crates.pinnedEvil
        else 0 := if_pos rfl
    rw [hid, if_neg hpreimage]
    split
    · exact Or.inl rfl
    · exact Or.inr rfl
  have hstrkey : usdcContract = Crates.pinned.scAddressStrkey
      (.contract (Crates.pinned.contractIdHash Crates.pinnedNetwork (.asset asset))) := hcontract
  rcases hid with hid | hid
  · rw [hid] at hstrkey
    exact absurd hstrkey (by decide)
  · rw [hid] at hstrkey
    exact absurd hstrkey (by decide)

theorem sacFacets_ofLedger_usdc :
    let _ : Crates := Crates.pinned
    let staged := stageLedgerAssets (fun _ => none) Crates.pinnedNetwork (storedRun 3)
      [deploysUsdc, emitsUsdc]
    let staged' := stageLedgerAssets (fun _ => none) Crates.pinnedNetwork (storedRun 4)
      [emitsUsdc, deploysUsdc]
    staged.assetRows.length = 3 ∧ staged.assetSacRows.map (·.sacDeployed) = [1] ∧
      (∀ row, row ∈ staged.assetRows ↔ row ∈ staged'.assetRows) ∧
      ∀ row, row ∈ staged.assetSacRows ↔ row ∈ staged'.assetSacRows := by
  intro _ staged staged'
  have hapart : AssetsApart Crates.pinnedNetwork [deploysUsdc, emitsUsdc] :=
    ⟨fun a ha b hb _ => (claimed_usdc a ha).trans (claimed_usdc b hb).symm,
      fun a ha b hb _ => (claimed_usdc a ha).trans (claimed_usdc b hb).symm⟩
  have hrows : ∀ sighting, sighting ∈ (storedRun 3).contractRows.filterMap fungibleSighting ↔
      sighting ∈ (storedRun 4).contractRows.filterMap fungibleSighting := fun sighting => Iff.rfl
  exact ⟨by decide, by decide, (sacFacets_ofLedger (fun _ => none) Crates.pinnedNetwork
    (List.Perm.swap _ _ []) hrows).2.2.2 hapart⟩

end SorobanExplorer.AssetFacets
