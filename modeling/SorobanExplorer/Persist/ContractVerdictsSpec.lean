import SorobanExplorer.Lib.Traverse
import SorobanExplorer.Persist.ContractVerdicts

/-!
# What a type is known from

A contract earns a type by its deployment, as an asset contract or with a program that was
uploaded (`Earned`).  Staging a ledger writes no type that was not earned, routes no row as
that of an NFT contract if no NFT program was deployed, and drops none if nothing else was
(`prepare_spec`), given the types it looked up were earned themselves (`Priors.Earned`).
-/

namespace SorobanExplorer.ContractVerdicts

open KeyedFold NftReclassify Persist Replacing Text Traverse

variable [Crates]

/-! ## Earned types -/

/-- Some ledger uploads a program of the hash whose functions give the type. -/
def Uploaded (chain : Chain) (hash : Bytes) (type : ContractType) : Prop :=
  ∃ n, ∃ program ∈ (chain.ledger n).programs, hexDecode program.wasmHash = some hash ∧
    ∃ functions, program.functions = some functions ∧
      type = (classifyContractFromWasmSpec functions).toContractType

/-- A type a contract was deployed with. -/
inductive Earned (chain : Chain) (contractId : String) : ContractType → Prop
  | sac {n : UInt32} {dep : ExtractedContractDeployment}
      (hdep : dep ∈ (chain.ledger n).deployments) (hid : dep.contractId = contractId)
      (hsac : dep.isSac = true) : Earned chain contractId .token
  | program {n : UInt32} {dep : ExtractedContractDeployment} {hash : Bytes} {type : ContractType}
      (hdep : dep ∈ (chain.ledger n).deployments) (hid : dep.contractId = contractId)
      (hsac : dep.isSac = false) (hdeployed : dep.wasmHash.bind hexDecode = some hash)
      (huploaded : Uploaded chain hash type) : Earned chain contractId type

/-- A type for which a contract's tokens are dropped. -/
def EarnedOther (chain : Chain) (contractId : String) : Prop :=
  Earned chain contractId .token ∨ Earned chain contractId .fungible

/-! ## Rows and what they need -/

/-- What a row says is known from a ledger. -/
def Vouched (chain : Chain) : (table : ContractTable) → table.Row → Prop
  | .wasmPrograms, row =>
      ∃ n, ∃ program ∈ (chain.ledger n).programs,
        hexDecode program.wasmHash = some row.wasmHash ∧ row.functions = program.functions
  | .sorobanContracts, row => ∀ type, row.contractType.bind ContractType.ofI16 = some type →
      type ≠ .other → Earned chain row.contractId type
  | .nft (kind, .hot), row =>
      ∃ contractId, kind.contractId row = Ids.contractId contractId ∧ Earned chain contractId .nft
  | .nft (_, .pending), _ => True

/-- A row is where NFT contracts have theirs, or in the quarantine. -/
def Has (rows : (table : ContractTable) → List table.Row) (kind : NftKind) (row : kind.Row) :
    Prop :=
  ∃ tier, kind.Holds (rows (.nft (kind, tier))) row

/-- The tokens and the ownership changes of a ledger are there, but for contracts that earned
another type. -/
structure Covers (chain : Chain) (inputs : LedgerInputs)
    (rows : (table : ContractTable) → List table.Row) : Prop where
  tokens : ∀ nft ∈ inputs.nfts, EarnedOther chain nft.contractId ∨ Has rows .tokens (nftRow nft)
  changes : ∀ ev ∈ inputs.nftEvents, ∀ row,
    nftOwnershipChangeRow inputs.appOrderByHash ev = some row →
      EarnedOther chain ev.contractId ∨ Has rows .ownershipChanges row

/-- A staging that may be written. -/
structure StagedRows.Faithful (chain : Chain) (staged : StagedRows) : Prop where
  vouched : ∀ table, ∀ row ∈ staged.rows table, Vouched chain table row
  covers : Covers chain (chain.ledger staged.ledgerSequence) staged.rows

/-- What was looked up is known from a ledger. -/
structure Priors.Vouched (chain : Chain) (priors : Priors) : Prop where
  wasm : ∀ hash type, priors.wasmVerdicts.lookup hash = some type → Uploaded chain hash type
  contract : ∀ contractId type, priors.contractVerdicts.lookup contractId = some type →
    Earned chain contractId type
  rows : ∀ contractId row, priors.contractRows.lookup contractId = some row →
    row.contractId = contractId ∧ ContractVerdicts.Vouched chain .sorobanContracts row

variable {chain : Chain}

omit [Crates] in
theorem Has.mono {rows rows' : (table : ContractTable) → List table.Row}
    (hrows : ∀ table, ∀ row ∈ rows table, Held table.key table.version (rows' table) row)
    {kind : NftKind} {row : kind.Row} (h : Has rows kind row) : Has rows' kind row := by
  obtain ⟨tier, hheld⟩ := h
  exact ⟨tier, hheld.trans (hrows (.nft (kind, tier)))⟩

theorem Covers.mono {inputs : LedgerInputs} {rows rows' : (table : ContractTable) → List table.Row}
    (h : Covers chain inputs rows)
    (hrows : ∀ table, ∀ row ∈ rows table, Held table.key table.version (rows' table) row) :
    Covers chain inputs rows' where
  tokens := fun nft hnft => (h.tokens nft hnft).imp_right (Has.mono hrows)
  changes := fun ev hev row hrow => (h.changes ev hev row hrow).imp_right (Has.mono hrows)

/-! ## Programs -/

theorem hexDecode_of_decodeHash {hexStr field : String} {bytes : Bytes}
    (h : decodeHash hexStr field = .ok bytes) : hexDecode hexStr = some bytes := by
  unfold decodeHash at h
  cases hdecode : hexDecode hexStr with
  | none =>
      rw [hdecode] at h
      cases h
  | some decoded =>
      rw [hdecode] at h
      dsimp only at h
      split at h
      · cases h
        rfl
      · cases h

/-- The rows of a ledger's programs. -/
theorem wasmRows_vouched {n : UInt32} {staged : StagedPrograms}
    (h : wasmRows (chain.ledger n).programs = .ok staged) :
    ∀ row ∈ staged.rows, Vouched chain .wasmPrograms row := by
  refine foldlM_keeps (P := fun staged : StagedPrograms => ∀ row ∈ staged.rows,
    Vouched chain .wasmPrograms row) ?_ ?_ h
  · intro staged program staged' hprogram hstaged hadd
    obtain ⟨row, hrow, hrest⟩ := bind_eq_ok_iff.mp hadd
    obtain ⟨wasmHash, hdecoded, hwasmHash⟩ := bind_eq_ok_iff.mp hrow
    cases hwasmHash
    dsimp only at hrest
    split at hrest
    · exact Except.ok.inj hrest ▸ hstaged
    · cases hrest
      intro row hrow
      rcases List.mem_append.mp hrow with hold | hnew
      · exact hstaged row hold
      · cases List.mem_singleton.mp hnew
        exact ⟨n, program, hprogram, hexDecode_of_decodeHash hdecoded, rfl⟩
  · intro row hrow
    cases hrow

theorem uploaded_of_row {row : WasmProgramRow} {functions : List String}
    (hrow : Vouched chain .wasmPrograms row) (hfunctions : row.functions = some functions) :
    Uploaded chain row.wasmHash (classifyContractFromWasmSpec functions).toContractType := by
  obtain ⟨n, program, hprogram, hhash, hsame⟩ := hrow
  exact ⟨n, program, hprogram, hhash, functions, hsame ▸ hfunctions, rfl⟩

theorem wasmRows_uploaded {n : UInt32} {staged : StagedPrograms}
    (h : wasmRows (chain.ledger n).programs = .ok staged) {hash : Bytes} {type : ContractType}
    (htype : staged.classification.lookup hash = some type) : Uploaded chain hash type := by
  obtain ⟨row, hrow, rfl, functions, hfunctions, rfl⟩ := backed_wasmRows h hash type htype
  exact uploaded_of_row (wasmRows_vouched h row hrow) hfunctions

/-- The types of stored programs. -/
theorem queryWasmVerdicts_uploaded {stored : List WasmProgramRow}
    (hstored : ∀ row ∈ stored, Vouched chain .wasmPrograms row) {hashes : List String}
    {hash : Bytes} {type : ContractType}
    (h : (queryWasmVerdicts stored hashes).lookup hash = some type) :
    Uploaded chain hash type := by
  unfold queryWasmVerdicts at h
  rw [lookup_collect] at h
  obtain ⟨row, hrow, hpair⟩ := List.mem_filterMap.mp (mem_of_lastOf h)
  obtain ⟨verdict, hverdict, hsame⟩ := Option.map_eq_some_iff.mp hpair
  cases hsame
  obtain ⟨functions, hfunctions, hdecisive⟩ := Option.bind_eq_some_iff.mp hverdict
  have hvouched := hstored row (List.mem_filter.mp hrow).1
  dsimp only at hdecisive
  split at hdecisive
  · cases hdecisive
    exact uploaded_of_row hvouched hfunctions
  · cases hdecisive

/-! ## Contracts -/

omit [Crates] in
theorem ofI16_toI16 (type : ContractType) : ContractType.ofI16 type.toI16 = some type := by
  cases type <;> rfl

/-- A deployment is of an asset contract or of no known type. -/
theorem deployment_contractType {ledger : ContractLedger} {dep : ExtractedContractDeployment}
    (h : dep ∈ ledger.deployments) :
    dep.contractType = if dep.isSac then .token else .other := by
  obtain ⟨tx, -, hdep⟩ := List.mem_flatMap.mp h
  obtain ⟨change, -, hchange⟩ := List.mem_filterMap.mp hdep
  simp only [contractDeployment, Option.bind_eq_bind, Option.bind_eq_some_iff,
    Option.guard_eq_some', Option.some.injEq] at hchange
  obtain ⟨_, -, data, -, _, -, _, -, rfl⟩ := hchange
  rfl

/-- Each row is that of a deployment. -/
theorem mem_deploymentRows {wasmClassification priorWasmVerdicts : Bytes → Option ContractType}
    {deployments : List ExtractedContractDeployment} {seen : List String}
    {rows : List SorobanContractRow}
    (h : deploymentRows wasmClassification priorWasmVerdicts seen deployments = .ok rows) :
    ∀ row ∈ rows, ∃ dep ∈ deployments,
      deploymentRow wasmClassification priorWasmVerdicts dep = .ok row := by
  induction deployments generalizing seen rows with
  | nil =>
      cases h
      intro row hrow
      cases hrow
  | cons dep rest ih =>
      unfold deploymentRows at h
      split at h
      · intro row hrow
        obtain ⟨other, hother, hsame⟩ := ih h row hrow
        exact ⟨other, List.mem_cons_of_mem _ hother, hsame⟩
      · obtain ⟨first, hfirst, hrest⟩ := bind_eq_ok_iff.mp h
        obtain ⟨later, hlater, hrows⟩ := bind_eq_ok_iff.mp hrest
        cases hrows
        intro row hrow
        rcases List.mem_cons.mp hrow with rfl | hrow
        · exact ⟨dep, List.mem_cons_self, hfirst⟩
        · obtain ⟨other, hother, hsame⟩ := ih hlater row hrow
          exact ⟨other, List.mem_cons_of_mem _ hother, hsame⟩

/-- A deployment's type is that of an asset contract, of its program, or none. -/
theorem deployedType_earned {wasmClassification priorWasmVerdicts : Bytes → Option ContractType}
    (hhere : ∀ hash type, wasmClassification hash = some type → Uploaded chain hash type)
    (hprior : ∀ hash type, priorWasmVerdicts hash = some type → Uploaded chain hash type)
    {n : UInt32} {dep : ExtractedContractDeployment} (hdep : dep ∈ (chain.ledger n).deployments)
    {wasmHash : Option Bytes} (hhash : ∀ hash, wasmHash = some hash →
      dep.wasmHash.bind hexDecode = some hash)
    (hother : deployedType wasmClassification priorWasmVerdicts dep wasmHash ≠ .other) :
    Earned chain dep.contractId
      (deployedType wasmClassification priorWasmVerdicts dep wasmHash) := by
  have htype := deployment_contractType hdep
  cases hsac : dep.isSac with
  | true =>
      have htoken : deployedType wasmClassification priorWasmVerdicts dep wasmHash = .token := by
        rw [hsac, if_pos rfl] at htype
        simp [deployedType, hsac, htype]
      rw [htoken]
      exact .sac hdep rfl hsac
  | false =>
      rw [hsac, if_neg Bool.false_ne_true] at htype
      -- only a decisive type of the program replaces the default
      cases hverdict : wasmHash.bind fun hash =>
          (wasmClassification hash).or (priorWasmVerdicts hash) with
      | none => simp [deployedType, hsac, hverdict, htype] at hother
      | some verdict =>
          obtain ⟨hash, hsome, hsaid⟩ := Option.bind_eq_some_iff.mp hverdict
          have huploaded : Uploaded chain hash verdict := by
            rcases Option.or_eq_some_iff.mp hsaid with hsaid | ⟨-, hsaid⟩
            · exact hhere hash verdict hsaid
            · exact hprior hash verdict hsaid
          have hearned : Earned chain dep.contractId verdict :=
            .program hdep rfl hsac (hhash hash hsome) huploaded
          cases verdict with
          | nft | fungible => simpa [deployedType, hsac, hverdict] using hearned
          | token | other => simp [deployedType, hsac, hverdict, htype] at hother

theorem deploymentRow_vouched {wasmClassification priorWasmVerdicts : Bytes → Option ContractType}
    (hhere : ∀ hash type, wasmClassification hash = some type → Uploaded chain hash type)
    (hprior : ∀ hash type, priorWasmVerdicts hash = some type → Uploaded chain hash type)
    {n : UInt32} {dep : ExtractedContractDeployment} (hdep : dep ∈ (chain.ledger n).deployments)
    {row : SorobanContractRow}
    (h : deploymentRow wasmClassification priorWasmVerdicts dep = .ok row) :
    Vouched chain .sorobanContracts row := by
  obtain ⟨wasmHash, hdecoded, hrow⟩ := bind_eq_ok_iff.mp h
  cases hrow
  intro type htype hother
  have hsame : deployedType wasmClassification priorWasmVerdicts dep wasmHash = type := by
    simpa [ofI16_toI16] using htype
  rw [← hsame] at hother ⊢
  refine deployedType_earned hhere hprior hdep (fun hash hhash => ?_) hother
  -- the row's hash is the deployment's, decoded
  cases hwasm : dep.wasmHash with
  | none =>
      rw [hwasm] at hdecoded
      cases hdecoded
      cases hhash
  | some hexStr =>
      rw [hwasm] at hdecoded
      obtain ⟨bytes, hbytes, hsome⟩ := bind_eq_ok_iff.mp hdecoded
      cases hsome
      cases hhash
      exact hexDecode_of_decodeHash hbytes

theorem upgrade_contractType (ledgerSequence : ℤ) (update : ExecutableUpdate)
    (row : SorobanContractRow) :
    (row.upgrade ledgerSequence update).contractType = row.contractType := by
  cases update <;> rfl

/-- An upgraded contract keeps the type of its stored row. -/
theorem upgradeRow_vouched {order : DrainOrder SorobanContractRow}
    {events : List (String × List ExtractedEvent)} {prior : Table String SorobanContractRow}
    (hprior : ∀ contractId row, prior.lookup contractId = some row →
      row.contractId = contractId ∧ Vouched chain .sorobanContracts row)
    {ledgerSequence : ℤ} {row : SorobanContractRow}
    (h : row ∈ buildWasmUpgradeRows order events prior ledgerSequence) :
    Vouched chain .sorobanContracts row := by
  have hmem : row ∈ (buildWasmUpgradeRows order events prior ledgerSequence).filter
      (·.contractId = row.contractId) := List.mem_filter.mpr ⟨h, by simp⟩
  rw [upgradeRows_of_contract order events fun contract row hrow => (hprior contract row hrow).1,
    Option.mem_toList] at hmem
  obtain ⟨priorRow, hpriorRow, hupdate⟩ := Option.bind_eq_some_iff.mp hmem
  obtain ⟨update, -, hrow⟩ := Option.map_eq_some_iff.mp hupdate
  obtain ⟨hid, hvouched⟩ := hprior row.contractId priorRow hpriorRow
  intro type htype hother
  rw [← hrow, upgrade_contractType] at htype
  exact hid ▸ hvouched type htype hother

/-- The decisive types a read of the contracts gives. -/
theorem queryContractVerdicts_earned {rows : List SorobanContractRow}
    (hrows : ∀ row ∈ rows, Vouched chain .sorobanContracts row) {contractIds : List String} :
    ∀ entry ∈ Warehouse.queryContractVerdicts rows contractIds,
      isDefinitive entry.2 → Earned chain entry.1 entry.2 := by
  intro entry hentry hdefinitive
  obtain ⟨row, hrow, hread⟩ := List.mem_filterMap.mp hentry
  simp only [Option.bind_eq_bind, Option.bind_eq_some_iff, Option.some.injEq] at hread
  obtain ⟨type, htype, _, -, verdict, hverdict, rfl⟩ := hread
  refine hrows row (List.mem_filter.mp hrow).1 verdict ?_ ?_
  · rw [htype]
    exact hverdict
  · rintro rfl
    cases hdefinitive

/-! ## Tokens -/

omit [Crates] in
/-- A token's row is staged as it is, or absorbed by the one of its token. -/
theorem held_stageNft (rows : List NftRow) (row : NftRow) :
    (∀ other ∈ rows, NftKind.tokens.Holds (stageNft rows row) other) ∧
      NftKind.tokens.Holds (stageNft rows row) row := by
  induction rows with
  | nil => exact ⟨fun _ h => absurd h List.not_mem_nil, held_of_mem List.mem_cons_self⟩
  | cons existing rest ih =>
      unfold stageNft
      by_cases hsame : (existing.contractId, existing.tokenId) = (row.contractId, row.tokenId)
      · rw [if_pos hsame]
        obtain ⟨hcontract, htoken⟩ := Prod.mk.inj hsame
        -- of two watermarks the later stays
        have hmark : (existing.absorb row).currentOwnerLedger =
            max existing.currentOwnerLedger row.currentOwnerLedger := by
          unfold NftRow.absorb
          dsimp only
          split <;> omega
        have hboth : ∀ other : NftRow, other.contractId = existing.contractId →
            other.tokenId = existing.tokenId →
            other.currentOwnerLedger ≤ max existing.currentOwnerLedger row.currentOwnerLedger →
            NftKind.tokens.Holds (existing.absorb row :: rest) other := by
          intro other hid hother hle
          refine ⟨existing.absorb row, List.mem_cons_self, ?_, ?_⟩
          · simp [NftKind.key, NftRow.absorb, hid, hother]
          · exact hle.trans_eq hmark.symm
        refine ⟨fun other hother => ?_, hboth row hcontract.symm htoken.symm (le_max_right ..)⟩
        rcases List.mem_cons.mp hother with rfl | hother
        · exact hboth other rfl rfl (le_max_left ..)
        · exact held_of_mem (List.mem_cons_of_mem _ hother)
      · rw [if_neg hsame]
        refine ⟨fun other hother => ?_, ih.2.mono fun _ => List.mem_cons_of_mem _⟩
        rcases List.mem_cons.mp hother with rfl | hother
        · exact held_of_mem List.mem_cons_self
        · exact (ih.1 other hother).mono fun _ => List.mem_cons_of_mem _

omit [Crates] in
/-- Every token's row is held once all are staged. -/
theorem held_foldl_stageNft (rows staged : List NftRow) {row : NftRow}
    (h : NftKind.tokens.Holds staged row ∨ row ∈ rows) :
    NftKind.tokens.Holds (rows.foldl stageNft staged) row := by
  induction rows generalizing staged with
  | nil => exact h.resolve_right List.not_mem_nil
  | cons next rows ih =>
      refine ih (stageNft staged next) ?_
      rcases h with hheld | hmem
      · exact .inl (hheld.trans (held_stageNft staged next).1)
      · rcases List.mem_cons.mp hmem with rfl | hmem
        · exact .inl (held_stageNft staged row).2
        · exact .inr hmem

omit [Crates] in
/-- Staging makes no contracts up. -/
theorem contractId_of_mem_foldl_stageNft (rows staged : List NftRow) :
    ∀ row ∈ rows.foldl stageNft staged, ∃ other ∈ staged ++ rows,
      row.contractId = other.contractId := by
  induction rows generalizing staged with
  | nil => exact fun row hrow => ⟨row, List.mem_append_left _ hrow, rfl⟩
  | cons next rows ih =>
      -- one row takes the place of another of its token, or joins at the end
      have hstage : ∀ row ∈ stageNft staged next, ∃ other ∈ staged ++ [next],
          row.contractId = other.contractId := by
        clear ih
        induction staged with
        | nil => exact fun row hrow => ⟨row, hrow, rfl⟩
        | cons existing rest ih =>
            intro row hrow
            unfold stageNft at hrow
            split at hrow
            · rcases List.mem_cons.mp hrow with rfl | hrow
              · exact ⟨existing, List.mem_cons_self, rfl⟩
              · exact ⟨row, by simp [hrow], rfl⟩
            · rcases List.mem_cons.mp hrow with rfl | hrow
              · exact ⟨row, List.mem_cons_self, rfl⟩
              · obtain ⟨other, hother, hsame⟩ := ih row hrow
                exact ⟨other, List.mem_cons_of_mem _ hother, hsame⟩
      intro row hrow
      obtain ⟨other, hother, hsame⟩ := ih (stageNft staged next) row hrow
      rcases List.mem_append.mp hother with hstaged | hlater
      · obtain ⟨first, hfirst, hsame'⟩ := hstage other hstaged
        refine ⟨first, ?_, hsame.trans hsame'⟩
        rcases List.mem_append.mp hfirst with hold | hnew
        · exact List.mem_append_left _ hold
        · exact List.mem_append_right _ (List.mem_cons.mpr (.inl (List.mem_singleton.mp hnew)))
      · exact ⟨other, List.mem_append_right _ (List.mem_cons_of_mem _ hlater), hsame⟩

section

variable {contractRows : List SorobanContractRow} {priors : String → Option ContractType}

/-- A decisive type a row is routed by is one its contract earned. -/
theorem verdict_earned (hrows : ∀ row ∈ contractRows, Vouched chain .sorobanContracts row)
    (hpriors : ∀ contractId type, priors contractId = some type → Earned chain contractId type)
    {contractId : String} {type : ContractType}
    (hsaid : (verdictByContract contractRows contractId).or (priors contractId) = some type)
    (hother : type ≠ .other) : Earned chain contractId type := by
  rcases Option.or_eq_some_iff.mp hsaid with hhere | ⟨-, hprior⟩
  · obtain ⟨row, hrow, hpair⟩ := List.mem_filterMap.mp (mem_of_lastOf hhere)
    obtain ⟨read, hread, hsame⟩ := Option.map_eq_some_iff.mp hpair
    cases hsame
    exact hrows row hrow type hread hother
  · exact hpriors contractId type hprior

/-- Rows are among those that are read for an earned type, and dropped for another one. -/
theorem routeFor_earned (hrows : ∀ row ∈ contractRows, Vouched chain .sorobanContracts row)
    (hpriors : ∀ contractId type, priors contractId = some type → Earned chain contractId type)
    (contractId : String) :
    (routeFor contractRows priors contractId = .hot → Earned chain contractId .nft) ∧
      (routeFor contractRows priors contractId = .drop → EarnedOther chain contractId) := by
  have hearned : ∀ type, (verdictByContract contractRows contractId).or (priors contractId) =
      some type → type ≠ .other → Earned chain contractId type :=
    fun type hsaid hother => verdict_earned hrows hpriors hsaid hother
  unfold routeFor
  cases hverdict : (verdictByContract contractRows contractId).or (priors contractId) with
  | none => exact ⟨NftRoute.noConfusion, NftRoute.noConfusion⟩
  | some type =>
      rw [hverdict] at hearned
      cases type with
      | token =>
          exact ⟨NftRoute.noConfusion, fun _ => .inl (hearned .token rfl ContractType.noConfusion)⟩
      | fungible =>
          exact ⟨NftRoute.noConfusion,
            fun _ => .inr (hearned .fungible rfl ContractType.noConfusion)⟩
      | nft => exact ⟨fun _ => hearned .nft rfl ContractType.noConfusion, NftRoute.noConfusion⟩
      | other => exact ⟨NftRoute.noConfusion, NftRoute.noConfusion⟩

/-- The rows of NFT contracts are of contracts that earned the type. -/
theorem nftRows_vouched {nfts : LedgerNfts}
    (hrows : ∀ row ∈ nfts.contractRows, Vouched chain .sorobanContracts row)
    (hpriors : ∀ contractId type, nfts.priorContractVerdicts contractId = some type →
      Earned chain contractId type) :
    ∀ table, ∀ row ∈ nfts.rows table, Vouched chain (.nft table) row := by
  intro table row hrow
  have hhot : ∀ contractId,
      routeFor nfts.contractRows nfts.priorContractVerdicts contractId = .hot →
        Earned chain contractId .nft :=
    fun contractId => (routeFor_earned hrows hpriors contractId).1
  obtain ⟨kind, tier⟩ := table
  cases tier with
  | pending => trivial
  | hot =>
      cases kind with
      | tokens =>
          obtain ⟨other, hother, hsame⟩ := contractId_of_mem_foldl_stageNft _ _ row hrow
          rw [List.nil_append] at hother
          obtain ⟨nft, hnft, rfl⟩ := List.mem_map.mp hother
          exact ⟨nft.contractId, hsame,
            hhot nft.contractId (of_decide_eq_true (List.mem_filter.mp hnft).2)⟩
      | ownershipChanges =>
          obtain ⟨ev, hev, hchange⟩ := List.mem_filterMap.mp hrow
          obtain ⟨applicationOrder, -, rfl⟩ := Option.map_eq_some_iff.mp hchange
          exact ⟨ev.contractId, rfl,
            hhot ev.contractId (of_decide_eq_true (List.mem_filter.mp hev).2)⟩

/-- No row is dropped but for a contract that earned another type. -/
theorem nftRows_covers {inputs : LedgerInputs}
    {rows : (table : ContractTable) → List table.Row}
    (hcontractRows : ∀ row ∈ contractRows, Vouched chain .sorobanContracts row)
    (hpriors : ∀ contractId type, priors contractId = some type → Earned chain contractId type)
    (hrows : ∀ table, rows (.nft table) =
      LedgerNfts.rows ⟨contractRows, inputs.nfts, inputs.nftEvents, priors,
        inputs.appOrderByHash⟩ table) : Covers chain inputs rows where
  tokens := by
    intro nft hnft
    have hroute := (routeFor_earned hcontractRows hpriors nft.contractId).2
    have hstaged : ∀ route, routeFor contractRows priors nft.contractId = route →
        NftKind.tokens.Holds (((inputs.nfts.filter
          (routeFor contractRows priors ·.contractId = route)).map nftRow).foldl stageNft [])
          (nftRow nft) := by
      intro route hroute
      refine held_foldl_stageNft _ _ (.inr (List.mem_map_of_mem ?_))
      exact List.mem_filter.mpr ⟨hnft, decide_eq_true hroute⟩
    -- a token goes where its contract's verdict sends it
    cases hcase : routeFor contractRows priors nft.contractId with
    | drop => exact .inl (hroute hcase)
    | hot => exact .inr ⟨.hot, hrows (.tokens, .hot) ▸ hstaged .hot hcase⟩
    | pending => exact .inr ⟨.pending, hrows (.tokens, .pending) ▸ hstaged .pending hcase⟩
  changes := by
    intro ev hev row hrow
    have hroute := (routeFor_earned hcontractRows hpriors ev.contractId).2
    have hstaged : ∀ route, routeFor contractRows priors ev.contractId = route →
        row ∈ (inputs.nftEvents.filter
          (routeFor contractRows priors ·.contractId = route)).filterMap
            (nftOwnershipChangeRow inputs.appOrderByHash) := by
      intro route hroute
      exact List.mem_filterMap.mpr ⟨ev, List.mem_filter.mpr ⟨hev, decide_eq_true hroute⟩, hrow⟩
    cases hcase : routeFor contractRows priors ev.contractId with
    | drop => exact .inl (hroute hcase)
    | hot =>
        exact .inr ⟨.hot, held_of_mem (hrows (.ownershipChanges, .hot) ▸ hstaged .hot hcase)⟩
    | pending =>
        exact .inr ⟨.pending,
          held_of_mem (hrows (.ownershipChanges, .pending) ▸ hstaged .pending hcase)⟩

end

/-! ## A whole ledger -/

/-- What is staged for a ledger may be written, if what was looked up is known. -/
theorem prepare_spec {n : UInt32} {order : DrainOrder SorobanContractRow} {priors : Priors}
    (hpriors : priors.Vouched chain) {staged : StagedRows}
    (h : (chain.ledger n).prepare order priors = .ok staged) : staged.Faithful chain := by
  obtain ⟨programs, hprograms, hrest⟩ := bind_eq_ok_iff.mp h
  obtain ⟨deployed, hdeployed, hstaged⟩ := bind_eq_ok_iff.mp hrest
  cases hstaged
  have hdeployedRows : ∀ row ∈ deployed, Vouched chain .sorobanContracts row := by
    intro row hrow
    obtain ⟨dep, hdep, hsame⟩ := mem_deploymentRows hdeployed row hrow
    exact deploymentRow_vouched (fun hash type => wasmRows_uploaded hprograms) hpriors.wasm hdep
      hsame
  constructor
  case vouched =>
    intro table row hrow
    cases table with
    | wasmPrograms => exact wasmRows_vouched hprograms row hrow
    | sorobanContracts =>
        rcases List.mem_append.mp hrow with hrow | hrow
        · exact hdeployedRows row hrow
        · exact upgradeRow_vouched hpriors.rows hrow
    | nft table => exact nftRows_vouched hdeployedRows hpriors.contract table row hrow
  case covers =>
    dsimp only
    rw [chain.sequence n]
    exact nftRows_covers hdeployedRows hpriors.contract fun _ => rfl

/-- A backfill looks nothing up. -/
theorem vouched_noPriors : Priors.Vouched chain {} where
  wasm := fun hash type h => by cases h
  contract := fun contractId type h => by cases h
  rows := fun contractId row h => by cases h

end SorobanExplorer.ContractVerdicts
