import SorobanExplorer.Lib.Ranked
import SorobanExplorer.Parser.Deployments
import SorobanExplorer.Parser.Event

/-!
# Sightings of assets

A ledger shows an asset where its contract is deployed, where that contract emits an event,
and where a trustline holds it.  The first two name the asset's contract, and both are
believed only if the contract's id is derived from the asset (`derived_of_override`,
`derived_of_deployment`).
-/

namespace SorobanExplorer

open KeyedFold Ranked Text

/-- Classification of a stored asset; 2 was an asset's contract and is retired. -/
inductive AssetFamily
  | native
  | classicCredit
  | soroban
  deriving DecidableEq

def AssetFamily.toI16 : AssetFamily → Int16
  | .native => 0
  | .classicCredit => 1
  | .soroban => 3

structure ExtractedAsset where
  assetType : AssetFamily
  assetCode : Option String
  issuerAddress : Option String
  contractId : Option String
  sacContractId : Option String
  sacDeployed : Bool
  deriving DecidableEq

/-- Classification of a program by the functions it exports. -/
inductive ContractClassification
  | nft
  | fungible
  | other
  deriving DecidableEq

def SacAssetIdentity.family : SacAssetIdentity → AssetFamily
  | .native => .native
  | .credit _ _ => .classicCredit

def SacAssetIdentity.code : SacAssetIdentity → Option String
  | .native => none
  | .credit code _ => some code

def SacAssetIdentity.issuer : SacAssetIdentity → Option String
  | .native => none
  | .credit _ issuer => some issuer

/-- The asset a deployment brings: the one its asset contract wraps, or a token of its own. -/
def detectAsset (verdictByHash : String → Option ContractClassification)
    (deployment : ExtractedContractDeployment) : Option ExtractedAsset :=
  if deployment.isSac then
    deployment.sacAsset.map fun identity =>
      { assetType := identity.family
        assetCode := identity.code
        issuerAddress := identity.issuer
        contractId := none
        sacContractId := some deployment.contractId
        sacDeployed := true }
  else if deployment.wasmHash.bind verdictByHash = some .fungible then
    some
      { assetType := .soroban
        assetCode := none
        issuerAddress := none
        contractId := some deployment.contractId
        sacContractId := none
        sacDeployed := false }
  else none

def detectAssets (verdictByHash : String → Option ContractClassification)
    (deployments : List ExtractedContractDeployment) : List ExtractedAsset :=
  deployments.filterMap (detectAsset verdictByHash)

/-- The code and issuer of a trustline change; a removal has them in its key alone. -/
def trustlineCredit (change : ExtractedLedgerEntryChange) : Option (String × String) := do
  guard (change.entryType = "trustline")
  let asset ← ((change.data.bind (·.get? "asset")).or (change.key.get? "asset"))
  let _ ← asset.asObject
  guard (((asset.get? "type").bind Json.asStr).getD "" ≠ "pool_share")
  let code := ((asset.get? "code").bind Json.asStr).getD ""
  let issuer := ((asset.get? "issuer").bind Json.asStr).getD ""
  guard (code ≠ "" ∧ issuer ≠ "")
  some (code, issuer)

/-- The credit assets that trustlines hold, each once. -/
def detectClassicCreditAssets (changes : List ExtractedLedgerEntryChange) : List ExtractedAsset :=
  (firstBy id (changes.filterMap trustlineCredit)).map fun (code, issuer) =>
    { assetType := .classicCredit
      assetCode := some code
      issuerAddress := some issuer
      contractId := none
      sacContractId := none
      sacDeployed := false }

def nativeAssetSingleton : ExtractedAsset where
  assetType := .native
  assetCode := none
  issuerAddress := none
  contractId := none
  sacContractId := none
  sacDeployed := false

section

variable [Crates]

/-- The asset an event's emitter is proven to be the contract of. -/
def sacOverrideOf (netId : Hash) (event : ExtractedEvent) : Option SacOverride :=
  event.body.contractId.bind fun contractId =>
    sacOverrideFromEventTopics contractId event.body.topics netId

/-- The asset contracts proven by events, one an address; in which order, the hash map
decides. -/
def detectUndeployedSacOverrides (order : DrainOrder SacOverride) (netId : Hash)
    (events : List (String × List ExtractedEvent)) : List SacOverride :=
  order.drain (firstBy SacOverride.contractId
    ((events.flatMap Prod.snd).filterMap (sacOverrideOf netId)))

/-- A contract proven to be an asset's: its id is derived from the asset. -/
def Derived (netId : Hash) (sac : SacOverride) (asset : Asset) : Prop :=
  sac.contractId = deriveSacContractId (.asset asset) netId ∧
    sac.identity = assetToIdentity asset

theorem derived_of_override {netId : Hash} {event : ExtractedEvent} {sac : SacOverride}
    (h : sacOverrideOf netId event = some sac) : ∃ asset, Derived netId sac asset := by
  obtain ⟨emitter, -, h⟩ := Option.bind_eq_some_iff.mp h
  simp only [sacOverrideFromEventTopics, Option.bind_eq_bind, Option.bind_eq_some_iff] at h
  obtain ⟨_, -, _, -, _, -, _, -, _, -, asset, -, _, -, h⟩ := h
  obtain rfl := Option.some.inj h
  exact ⟨asset, rfl, rfl⟩

/-- An instance that names its asset is believed if its own id is derived from it. -/
theorem derived_of_deployment {txSourceAccount : String} {networkId : Hash}
    {deployerByContract : Table String String} {change : ExtractedLedgerEntryChange}
    {deployment : ExtractedContractDeployment} {identity : SacAssetIdentity}
    (h : contractDeployment txSourceAccount networkId deployerByContract change = some deployment)
    (hidentity : deployment.sacAsset = some identity) :
    deployment.isSac = true ∧
      ∃ asset, Derived networkId ⟨deployment.contractId, identity⟩ asset := by
  simp only [contractDeployment, Option.bind_eq_bind, Option.bind_eq_some_iff] at h
  obtain ⟨_, -, data, -, _, -, _, -, h⟩ := h
  obtain rfl := Option.some.inj h
  dsimp only at hidentity ⊢
  split_ifs at hidentity with hsac
  obtain ⟨inst, -, hinst⟩ := Option.bind_eq_some_iff.mp hidentity
  refine ⟨hsac, ?_⟩
  simp only [sacIdentityFromInstance, Option.bind_eq_bind, Option.bind_eq_some_iff] at hinst
  obtain ⟨_, -, _, -, _, -, _, -, _, -, _, -, _, -, asset, -, _, hderived, hinst⟩ := hinst
  obtain rfl := Option.some.inj hinst
  exact ⟨asset, Eq.symm (by simpa [guard] using hderived), rfl⟩

end

end SorobanExplorer
