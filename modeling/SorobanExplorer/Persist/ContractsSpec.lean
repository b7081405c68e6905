import SorobanExplorer.Persist.Contracts

/-!
# The last row of an upgraded contract

Upgrade rows come after deployment rows, so a contract's last row is its upgrade
row if it has one.  It has one exactly when a row of it was stored before the
ledger; a contract deployed in the ledger itself keeps the row of its
deployment, whatever its code became since.
-/

namespace SorobanExplorer

open KeyedFold Persist Text

section

variable [Crates]

/-! ## Deployment rows -/

theorem decodeHash_hexEncode (hash : Hash) (field : String) :
    decodeHash (hexEncode hash.bytes) field = .ok hash.bytes := by
  have hlength : hash.bytes.length = 32 := by simp [Hash.bytes]
  simp [decodeHash, hexDecode_hexEncode, hlength]

section

variable {wasmClassification priorWasmVerdicts : Bytes → Option ContractType}

theorem deploymentRow_spec {dep : ExtractedContractDeployment} {row : SorobanContractRow}
    (h : deploymentRow wasmClassification priorWasmVerdicts dep = .ok row) :
    row.contractId = dep.contractId ∧ row.wasmUploadedAtLedger = dep.deployedAtLedger.toNat ∧
      dep.wasmHash.mapM (decodeHash · "deployment.wasm_hash") = .ok row.wasmHash ∧
      row.executableOwnerId = dep.executableRef.map (fun ref => Ids.contractId ref.owner) ∧
      row.executableTag = dep.executableRef.map ExecutableRef.tag := by
  unfold deploymentRow at h
  cases hhash : dep.wasmHash.mapM (decodeHash · "deployment.wasm_hash") with
  | error error => rw [hhash] at h; cases h
  | ok wasmHash =>
      rw [hhash] at h
      obtain rfl := Except.ok.inj h
      exact ⟨rfl, rfl, rfl, rfl, rfl⟩

/-- A deployment whose hash is in hex has a row. -/
theorem deploymentRow_ok {dep : ExtractedContractDeployment}
    (h : ∀ wasmHash, dep.wasmHash = some wasmHash →
      ∃ hash : Hash, wasmHash = hexEncode hash.bytes) :
    ∃ row, deploymentRow wasmClassification priorWasmVerdicts dep = .ok row := by
  unfold deploymentRow
  cases hdep : dep.wasmHash with
  | none => exact ⟨_, rfl⟩
  | some wasmHash =>
      obtain ⟨hash, rfl⟩ := h wasmHash hdep
      simp only [Option.mapM_some, decodeHash_hexEncode]
      exact ⟨_, rfl⟩

/-- A contract not seen before has the row of its first deployment and no other. -/
theorem deploymentRows_spec {deployments : List ExtractedContractDeployment}
    (hok : ∀ dep ∈ deployments,
      ∃ row, deploymentRow wasmClassification priorWasmVerdicts dep = .ok row) :
    ∀ seen, ∃ rows,
      deploymentRows wasmClassification priorWasmVerdicts seen deployments = .ok rows ∧
      ∀ contract, List.Forall₂
        (fun dep row => deploymentRow wasmClassification priorWasmVerdicts dep = .ok row)
        (if contract ∈ seen then [] else (deployments.find? (·.contractId = contract)).toList)
        (rows.filter (·.contractId = contract)) := by
  induction deployments with
  | nil =>
      intro seen
      refine ⟨[], rfl, fun contract => ?_⟩
      split <;> exact .nil
  | cons dep rest ih =>
      intro seen
      have ih := ih fun other hother => hok other (List.mem_cons_of_mem _ hother)
      -- a later deployment of the same contract is skipped
      by_cases hseen : dep.contractId ∈ seen
      · obtain ⟨rows, hrows, hfilter⟩ := ih seen
        refine ⟨rows, by rw [deploymentRows, if_pos hseen, hrows], fun contract => ?_⟩
        have hfilter := hfilter contract
        by_cases hcontract : contract ∈ seen
        · simpa [hcontract] using hfilter
        · have hne : dep.contractId ≠ contract := fun heq => hcontract (heq ▸ hseen)
          simpa [hcontract, hne] using hfilter
      · obtain ⟨row, hrow⟩ := hok dep List.mem_cons_self
        obtain ⟨rows, hrows, hfilter⟩ := ih (dep.contractId :: seen)
        refine ⟨row :: rows, ?_, fun contract => ?_⟩
        · rw [deploymentRows, if_neg hseen, hrow, hrows]
          rfl
        · have hfilter := hfilter contract
          have hid : row.contractId = dep.contractId := (deploymentRow_spec hrow).1
          by_cases heq : dep.contractId = contract
          · subst heq
            rw [if_pos List.mem_cons_self, List.forall₂_nil_left_iff] at hfilter
            rw [if_neg hseen, List.find?_cons_of_pos (by simp),
              List.filter_cons_of_pos (by simpa using hid), hfilter]
            exact .cons hrow .nil
          · rw [List.filter_cons_of_neg (by simpa [hid] using heq),
              List.find?_cons_of_neg (by simpa using heq)]
            simpa [Ne.symm heq] using hfilter

end

/-! ## Upgrade rows -/

/-- Every executable update of a ledger's events, in order. -/
def executableUpdates (events : List (String × List ExtractedEvent)) :
    List (String × ExecutableUpdate) :=
  (events.flatMap Prod.snd).filterMap executableUpdateOf

/-- What one event makes of a contract's row. -/
def upgradedBy (prior : Table String SorobanContractRow) (ledgerSequence : ℤ) (contract : String)
    (event : ExtractedEvent) : Option SorobanContractRow :=
  (prior.lookup contract).bind fun priorRow =>
    ((executableUpdateOf event).bind fun update =>
      if update.1 = contract then some update.2 else none).map (priorRow.upgrade ledgerSequence)

theorem history_upgradeOf (prior : Table String SorobanContractRow) (ledgerSequence : ℤ)
    (contract : String) (event : ExtractedEvent) (value : Option SorobanContractRow) :
    id (history contract (upgradeOf prior ledgerSequence event).toList value) =
      (upgradedBy prior ledgerSequence contract event).or (id value) := by
  unfold upgradeOf upgradedBy
  cases hupdate : executableUpdateOf event with
  | none => simp
  | some update =>
      obtain ⟨addr, update⟩ := update
      by_cases haddr : addr = contract
      · subst haddr
        cases hrow : prior.lookup addr with
        | none => simp [hrow]
        | some row => simp [hrow, history_cons]
      · cases hrow : prior.lookup addr with
        | none => simp [hrow, haddr]
        | some row => simp [hrow, history_cons, haddr]

/-- The upgrade row of a contract is its prior row with the last update applied. -/
theorem lookup_upgrades (events : List (String × List ExtractedEvent))
    (prior : Table String SorobanContractRow) (ledgerSequence : ℤ) (contract : String) :
    (runAll ((events.flatMap Prod.snd).filterMap (upgradeOf prior ledgerSequence))
        (∅ : Table String SorobanContractRow)).lookup contract =
      (prior.lookup contract).bind fun priorRow =>
        (lastOf contract (executableUpdates events)).map (priorRow.upgrade ledgerSequence) := by
  have hrun := read_history (history_upgradeOf prior ledgerSequence contract)
    (events.flatMap Prod.snd) none
  simp only [id, Option.or_none] at hrun
  rw [lookup_runAll, AList.lookup_empty, hrun]
  cases hrow : prior.lookup contract with
  | none => simp [upgradedBy, hrow]
  | some row =>
      have hsets : (events.flatMap Prod.snd).filterMap (upgradedBy prior ledgerSequence contract) =
          ((executableUpdates events).filterMap fun update =>
            if update.1 = contract then some update.2 else none).map
              (row.upgrade ledgerSequence) := by
        rw [executableUpdates, List.filterMap_filterMap, List.map_filterMap]
        apply List.filterMap_congr
        intro event _
        rw [upgradedBy, hrow]
        rfl
      simp [hsets, lastOf]

theorem SorobanContractRow.upgrade_contractId (ledgerSequence : ℤ) (update : ExecutableUpdate)
    (row : SorobanContractRow) : (row.upgrade ledgerSequence update).contractId = row.contractId := by
  cases update <;> rfl

theorem upgradeRows_of_contract (order : DrainOrder SorobanContractRow)
    (events : List (String × List ExtractedEvent)) {prior : Table String SorobanContractRow}
    (hprior : ∀ contract row, prior.lookup contract = some row → row.contractId = contract)
    (ledgerSequence : ℤ) (contract : String) :
    (buildWasmUpgradeRows order events prior ledgerSequence).filter (·.contractId = contract) =
      ((prior.lookup contract).bind fun priorRow =>
        (lastOf contract (executableUpdates events)).map
          (priorRow.upgrade ledgerSequence)).toList := by
  rw [← lookup_upgrades]
  apply filter_drain order
  intro key row hrow
  rw [lookup_upgrades] at hrow
  obtain ⟨priorRow, hpriorRow, hupdate⟩ := Option.bind_eq_some_iff.mp hrow
  obtain ⟨update, -, rfl⟩ := Option.map_eq_some_iff.mp hupdate
  rw [priorRow.upgrade_contractId, hprior key priorRow hpriorRow]

/-- The prior row of an upgraded contract is the one stored for it. -/
theorem lookup_fetchPriorContractRows (stored : List SorobanContractRow)
    (events : List (String × List ExtractedEvent)) (contract : String) :
    (fetchPriorContractRows stored events).lookup contract =
      if contract ∈ (executableUpdates events).map Prod.fst then
        (stored.filter (·.contractId = contract)).getLast?
      else none := by
  -- the query asks for the upgraded contracts only
  have hwanted : ((stored.filter (·.contractId ∈ (executableUpdates events).map Prod.fst)).filter
      (·.contractId = contract)) =
      if contract ∈ (executableUpdates events).map Prod.fst then
        stored.filter (·.contractId = contract)
      else [] := by
    rw [List.filter_filter]
    split
    · rename_i hmem
      apply List.filter_congr
      intro row _
      by_cases heq : row.contractId = contract
      · simp [heq, hmem]
      · simp [heq]
    · rename_i hmem
      rw [List.filter_eq_nil_iff]
      intro row _ hrow
      simp only [Bool.and_eq_true, decide_eq_true_eq] at hrow
      exact hmem (hrow.1 ▸ hrow.2)
  have hid : (fun update : Update String SorobanContractRow => update.apply none) ∘
      (fun row => ⟨row.contractId, fun _ => row⟩) = id := rfl
  show (runAll ((stored.filter (·.contractId ∈ (executableUpdates events).map Prod.fst)).map
    fun row => ⟨row.contractId, fun _ => row⟩) ∅ : Table String SorobanContractRow).lookup _ = _
  rw [lookup_runAll, AList.lookup_empty, history_const]
  · rw [List.filter_map, List.getLast?_map, Option.map_map, Option.or_none, hid, Option.map_id]
    show ((stored.filter _).filter (·.contractId = contract)).getLast? = _
    rw [hwanted]
    split <;> rfl
  · intro update hupdate value
    obtain ⟨row, -, rfl⟩ := List.mem_map.mp hupdate
    rfl

end

end SorobanExplorer
