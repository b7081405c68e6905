import SorobanExplorer.Parser.Deployments
import SorobanExplorer.Parser.ExtractTransactions
import SorobanExplorer.Parser.OpSource

/-!
# Deployer attribution

The deployers that the envelopes of a ledger name are collected into one table,
and every deployment of the ledger looks its contract up there.  So a transaction
can name the deployer of a contract another one created: `deployersOwn_iff` says
when none does.
-/

namespace SorobanExplorer

open KeyedFold Text

/-- One processed transaction of a ledger. -/
structure TxSlot where
  info : TxInfo
  envelope : Option TransactionEnvelope
  txMeta : TransactionMeta

section

variable [Crates] (encodeXdr : TransactionEnvelope → String) (networkId : Hash)

def TxSlot.transaction (slot : TxSlot) : ExtractedTransaction :=
  extractSingleTransaction encodeXdr slot.info slot.envelope

/-- The contracts a transaction names, with their deployers; a transaction that is
not parsed names none. -/
def opSources (slot : TxSlot) : List (String × String) :=
  if (slot.transaction encodeXdr).parseError then []
  else
    match slot.envelope with
    | none => []
    | some envelope =>
        let inner := innerTransaction envelope
        extractOpSourcePerContract inner inner.sourceAccount networkId

def deployerByContract (ledger : List TxSlot) : Table String String :=
  collect (ledger.flatMap (opSources encodeXdr networkId))

/-- The contracts a transaction deploys, by a table of deployers. -/
def slotDeployments (ledgerSequence : UInt32) (closedAt : ℤ) (deployers : Table String String)
    (slot : TxSlot) : List ExtractedContractDeployment :=
  if (slot.transaction encodeXdr).parseError then []
  else
    extractContractDeployments
      (extractLedgerEntryChanges slot.txMeta (slot.transaction encodeXdr).hash ledgerSequence
        closedAt)
      (slot.transaction encodeXdr).sourceAccount networkId deployers

/-- The contracts a ledger deploys. -/
def parseContractDeployments (ledgerSequence : UInt32) (closedAt : ℤ) (ledger : List TxSlot) :
    List ExtractedContractDeployment :=
  ledger.flatMap (slotDeployments encodeXdr networkId ledgerSequence closedAt
    (deployerByContract encodeXdr networkId ledger))

/-! ## Own deployers -/

/-- The deployments of one transaction are those of a ledger of it alone. -/
def DeployersOwn (ledgerSequence : UInt32) (closedAt : ℤ) (earlier : List TxSlot) (slot : TxSlot)
    (later : List TxSlot) : Prop :=
  slotDeployments encodeXdr networkId ledgerSequence closedAt
      (deployerByContract encodeXdr networkId (earlier ++ slot :: later)) slot =
    parseContractDeployments encodeXdr networkId ledgerSequence closedAt [slot]

/-- The deployer some transactions name last for a contract. -/
def namedLast (slots : List TxSlot) (contractId : String) : Option String :=
  lastOf contractId (slots.flatMap (opSources encodeXdr networkId))

/-- No other transaction names another deployer for a contract: no later one, and if
the transaction names none itself and no later one does, no earlier one. -/
structure Uncontested (earlier : List TxSlot) (slot : TxSlot) (later : List TxSlot)
    (contractId : String) : Prop where
  later_own : ∀ deployer, namedLast encodeXdr networkId later contractId = some deployer →
    deployer = (namedLast encodeXdr networkId [slot] contractId).getD
      (slot.transaction encodeXdr).sourceAccount
  earlier_own : namedLast encodeXdr networkId later contractId = none →
    namedLast encodeXdr networkId [slot] contractId = none →
    ∀ deployer, namedLast encodeXdr networkId earlier contractId = some deployer →
      deployer = (slot.transaction encodeXdr).sourceAccount

/-! ## Deployments by another table -/

/-- A deployment with the deployer a table names, if it names one. -/
def ExtractedContractDeployment.withDeployer (deployers : Table String String)
    (deployment : ExtractedContractDeployment) : ExtractedContractDeployment :=
  { deployment with
    deployerAccount := (deployers.lookup deployment.contractId).or deployment.deployerAccount }

omit encodeXdr networkId in
theorem contractDeployment_eq_map (txSourceAccount : String) (networkId : Hash)
    (deployers : Table String String) (change : ExtractedLedgerEntryChange) :
    contractDeployment txSourceAccount networkId deployers change =
      (contractDeployment txSourceAccount networkId ∅ change).map
        (ExtractedContractDeployment.withDeployer deployers) := by
  unfold contractDeployment
  by_cases htype : change.entryType = "contract_data" ∧ change.changeType = "created"
  · cases change.data with
    | none => simp [htype, guard]
    | some data =>
        by_cases hkey : isContractInstanceKey change.key
        · by_cases hid : ((change.key.get? "contract").bind Json.asStr).getD "" = ""
          · simp [htype, hkey, hid, guard]
          · simp [htype, hkey, hid, guard, ExtractedContractDeployment.withDeployer]
        · simp [htype, hkey, guard]
  · simp [htype, guard]

/-- A table decides the deployers and nothing else. -/
theorem slotDeployments_eq_map (ledgerSequence : UInt32) (closedAt : ℤ)
    (deployers : Table String String) (slot : TxSlot) :
    slotDeployments encodeXdr networkId ledgerSequence closedAt deployers slot =
      (slotDeployments encodeXdr networkId ledgerSequence closedAt ∅ slot).map
        (ExtractedContractDeployment.withDeployer deployers) := by
  unfold slotDeployments
  split
  · rfl
  · simp only [extractContractDeployments, List.map_filterMap]
    apply List.filterMap_congr
    intro change _
    exact contractDeployment_eq_map _ _ _ _

theorem deployerAccount_of_mem_slotDeployments {ledgerSequence : UInt32} {closedAt : ℤ}
    {slot : TxSlot} {deployment : ExtractedContractDeployment}
    (h : deployment ∈ slotDeployments encodeXdr networkId ledgerSequence closedAt ∅ slot) :
    deployment.deployerAccount = some (slot.transaction encodeXdr).sourceAccount := by
  unfold slotDeployments at h
  split at h
  · cases h
  · obtain ⟨change, -, hchange⟩ := List.mem_filterMap.mp h
    simp only [contractDeployment, bind, Option.bind_eq_some_iff, Option.some.injEq] at hchange
    obtain ⟨_, _, _, _, _, _, _, _, rfl⟩ := hchange
    simp

theorem lookup_deployerByContract (ledger : List TxSlot) (contractId : String) :
    (deployerByContract encodeXdr networkId ledger).lookup contractId =
      namedLast encodeXdr networkId ledger contractId :=
  lookup_collect contractId _

theorem namedLast_split (earlier : List TxSlot) (slot : TxSlot) (later : List TxSlot)
    (contractId : String) :
    namedLast encodeXdr networkId (earlier ++ slot :: later) contractId =
      (namedLast encodeXdr networkId later contractId).or
        ((namedLast encodeXdr networkId [slot] contractId).or
          (namedLast encodeXdr networkId earlier contractId)) := by
  simp only [namedLast, List.flatMap_append, List.flatMap_cons, List.flatMap_nil,
    List.append_nil, lastOf_append, Option.or_assoc]

/-! ## Attribution -/

/-- A transaction's deployments keep their own deployers exactly when no other
transaction of the ledger contests the contracts it deploys. -/
theorem deployersOwn_iff (ledgerSequence : UInt32) (closedAt : ℤ) (earlier : List TxSlot)
    (slot : TxSlot) (later : List TxSlot) :
    DeployersOwn encodeXdr networkId ledgerSequence closedAt earlier slot later ↔
      ∀ deployment ∈ slotDeployments encodeXdr networkId ledgerSequence closedAt ∅ slot,
        Uncontested encodeXdr networkId earlier slot later deployment.contractId := by
  rw [DeployersOwn, parseContractDeployments, List.flatMap_singleton,
    slotDeployments_eq_map, slotDeployments_eq_map _ _ _ _ (deployerByContract _ _ [slot]),
    List.map_inj_left]
  apply forall₂_congr
  intro deployment hmem
  have hsource := deployerAccount_of_mem_slotDeployments _ _ hmem
  rw [ExtractedContractDeployment.withDeployer, ExtractedContractDeployment.withDeployer, hsource,
    lookup_deployerByContract, lookup_deployerByContract, namedLast_split]
  -- the map keeps the last naming: that of a later transaction, else the own one
  generalize hlater : namedLast encodeXdr networkId later deployment.contractId = laterNamed
  generalize hown : namedLast encodeXdr networkId [slot] deployment.contractId = ownNamed
  generalize hearlier : namedLast encodeXdr networkId earlier deployment.contractId = earlierNamed
  constructor
  · intro heq
    have hdeployer := congrArg ExtractedContractDeployment.deployerAccount heq
    refine ⟨?_, ?_⟩
    · intro deployer hnamed
      rw [hown]
      rw [hlater] at hnamed
      subst hnamed
      cases ownNamed <;> simpa using hdeployer
    · intro hnone hnone' deployer hnamed
      rw [hlater] at hnone
      rw [hown] at hnone'
      rw [hearlier] at hnamed
      subst hnone hnone' hnamed
      simpa using hdeployer
  · intro h
    have hlaterOwn := h.later_own
    have hearlierOwn := h.earlier_own
    rw [hlater, hown] at hlaterOwn hearlierOwn
    rw [hearlier] at hearlierOwn
    congr 1
    cases laterNamed with
    | some deployer =>
        rw [hlaterOwn deployer rfl]
        cases ownNamed <;> simp
    | none =>
        cases ownNamed with
        | some deployer => simp
        | none =>
            cases earlierNamed with
            | none => simp
            | some deployer => simp [hearlierOwn rfl rfl deployer rfl]

end

/-- The account of the zero key as well as the pinned one. -/
@[reducible] def Crates.pinnedDeployers : Crates :=
  { Crates.pinned with
    accountStrkey id :=
      if id = 0 then "GAAAAAAAAAAAAAAAAAAAAAAAAAAAAAAAAAAAAAAAAAAAAAAAAAAAAWHF"
      else Crates.pinned.accountStrkey id }

/-- An envelope that creates the contract of the pinned asset. -/
def createUsdcContract (source : AccountId) : TransactionEnvelope :=
  .tx
    { sourceAccount := .ed25519 source, fee := 100, seqNum := 1, cond := .none, memo := .none
      operations := [⟨none, .invokeHostFunction (.createContract
        ⟨.asset (.creditAlphanum4 ⟨[0x55, 0x53, 0x44, 0x43], Crates.length_pinnedCode⟩
          Crates.pinnedAccount), .stellarAsset⟩) []⟩]
      ext := none }
    []

/-- The pinned account deploys the contract of the pinned asset. -/
def usdcDeploy : TxSlot where
  info := ⟨1, true, "AAAA"⟩
  envelope := some (createUsdcContract Crates.pinnedAccount)
  txMeta := .v3 [] [[.created ⟨64400000, .contractData
    { contract := .contract Crates.pinnedUsdc, key := .ledgerKeyContractInstance
      durability := .persistent, val := .contractInstance .stellarAsset none }⟩]] [] none

/-- A later transaction tries to deploy it again and fails. -/
def failedUsdcDeploy : TxSlot where
  info := ⟨2, false, "AAAA"⟩
  envelope := some (createUsdcContract 0)
  txMeta := .v3 [] [] [] none

/-- The failed transaction becomes the deployer. -/
theorem not_deployersOwn_failedUsdcDeploy :
    ¬ @DeployersOwn Crates.pinnedDeployers (fun _ => "AAAA") Crates.pinnedNetwork 64400000 0 []
      usdcDeploy [failedUsdcDeploy] := by
  intro h
  have hdeployers := congrArg
    (List.map fun deployment : ExtractedContractDeployment => deployment.deployerAccount) h
  revert hdeployers
  decide

end SorobanExplorer
