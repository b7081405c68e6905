import SorobanExplorer.Parser.AssetSightings
import SorobanExplorer.Persist.Contracts

/-!
# Assets and their contracts

Every sighting of an asset stages the asset's row, and one that names the asset's contract
adds to the facet of the asset as well.  Rows are kept once per identity, the first; facets
keep the contract named last, and whether any sighting was of a deployment.
-/

namespace SorobanExplorer.AssetFacets

open KeyedFold Ranked

/-- A row of `assets`: an identity and its surrogate. -/
structure AssetRow where
  assetType : Int16
  assetCode : String
  issuerId : Int64
  contractId : Int64
  id : Int64
  deriving DecidableEq

/-- A row of `asset_sac`. -/
structure AssetSacRow where
  assetType : Int16
  assetCode : String
  issuerId : Int64
  contractId : Int64
  sacContractId : Int64
  /-- 1 once the contract is deployed. -/
  sacDeployed : UInt8
  deriving DecidableEq

/-- What identifies an asset. -/
abbrev AssetIdentity := Int16 × String × Int64 × Int64

def AssetRow.identity (row : AssetRow) : AssetIdentity :=
  (row.assetType, row.assetCode, row.issuerId, row.contractId)

def AssetSacRow.identity (row : AssetSacRow) : AssetIdentity :=
  (row.assetType, row.assetCode, row.issuerId, row.contractId)

/-- The contract a sighting names, and whether it shows the contract deployed. -/
structure SacSighting where
  sacContractId : Int64
  deployed : UInt8

/-- What one sighting stages. -/
structure Sighting where
  assetType : Int16
  assetCode : String
  issuerId : Int64
  contractId : Int64
  sac : Option SacSighting

/-- The key of a facet; an asset with a contract of its own has no facet. -/
abbrev FacetKey := Int16 × String × Int64

def Sighting.facetKey (sighting : Sighting) : FacetKey :=
  (sighting.assetType, sighting.assetCode, sighting.issuerId)

section

variable [Crates]

def AssetRow.staged (assetType : Int16) (assetCode : String) (issuerId contractId : Int64) :
    AssetRow :=
  ⟨assetType, assetCode, issuerId, contractId, Ids.assetId assetType assetCode issuerId contractId⟩

def Sighting.row (sighting : Sighting) : AssetRow :=
  .staged sighting.assetType sighting.assetCode sighting.issuerId sighting.contractId

/-! ## The five sources -/

def assetSighting (asset : ExtractedAsset) : Sighting where
  assetType := asset.assetType.toI16
  assetCode := asset.assetCode.getD ""
  issuerId := (asset.issuerAddress.map Ids.accountId).getD 0
  contractId := (asset.contractId.map Ids.contractId).getD 0
  sac := asset.sacContractId.map fun sac =>
    ⟨Ids.contractId sac, if asset.sacDeployed then 1 else 0⟩

/-- The sighting of an asset by its contract. -/
def sacSighting (contractId : String) (identity : SacAssetIdentity) (deployed : UInt8) :
    Sighting where
  assetType := identity.family.toI16
  assetCode := identity.code.getD ""
  issuerId := (identity.issuer.map Ids.accountId).getD 0
  contractId := 0
  sac := some ⟨Ids.contractId contractId, deployed⟩

def deploymentSighting (deployment : ExtractedContractDeployment) : Option Sighting :=
  deployment.sacAsset.map fun identity => sacSighting deployment.contractId identity 1

def overrideSighting (sac : SacOverride) : Sighting :=
  sacSighting sac.contractId sac.identity 0

def nativeSighting : Sighting := ⟨AssetFamily.native.toI16, "", 0, 0, none⟩

/-- A contract classified as a token is an asset of its own. -/
def fungibleSighting (row : SorobanContractRow) : Option Sighting :=
  if ¬ row.isSac ∧ row.contractType = some ContractType.fungible.toI16 then
    some ⟨AssetFamily.soroban.toI16, "", 0, row.id, none⟩
  else none

/-- The sightings of a ledger, in the order they are staged. -/
def sightings (contractRows : List SorobanContractRow) (assets : List ExtractedAsset)
    (contractDeployments : List ExtractedContractDeployment) (sacOverrides : List SacOverride) :
    List Sighting :=
  assets.map assetSighting ++ contractDeployments.filterMap deploymentSighting ++
    sacOverrides.map overrideSighting ++ [nativeSighting] ++
    contractRows.filterMap fungibleSighting

/-! ## Staging -/

/-- A named contract replaces the one before, unless its surrogate is 0. -/
def pushSac (key : FacetKey) (sac : SacSighting) : Update FacetKey SacSighting :=
  ⟨key, fun facet =>
    let e := facet.getD ⟨0, 0⟩
    ⟨if sac.sacContractId ≠ 0 then sac.sacContractId else e.sacContractId,
      max e.deployed sac.deployed⟩⟩

def Sighting.sacUpdate (sighting : Sighting) : Option (Update FacetKey SacSighting) :=
  sighting.sac.map (pushSac sighting.facetKey)

def facetRow (facet : FacetKey × SacSighting) : AssetSacRow where
  assetType := facet.1.1
  assetCode := facet.1.2.1
  issuerId := facet.1.2.2
  contractId := 0
  sacContractId := facet.2.sacContractId
  sacDeployed := facet.2.deployed

structure StagedAssets where
  assetRows : List AssetRow
  assetSacRows : List AssetSacRow

/-- The rows of the sightings; in which order facets are written, the hash map decides. -/
def stageSightings (order : DrainOrder (FacetKey × SacSighting)) (sightings : List Sighting) :
    StagedAssets where
  assetRows := firstBy AssetRow.identity (sightings.map Sighting.row)
  assetSacRows := (order.drain (pairs (runAll (sightings.filterMap Sighting.sacUpdate) ∅))).map
    facetRow

def stageAssets (order : DrainOrder (FacetKey × SacSighting))
    (contractRows : List SorobanContractRow) (assets : List ExtractedAsset)
    (contractDeployments : List ExtractedContractDeployment) (sacOverrides : List SacOverride) :
    StagedAssets :=
  stageSightings order (sightings contractRows assets contractDeployments sacOverrides)

end

end SorobanExplorer.AssetFacets
