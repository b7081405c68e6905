import SorobanExplorer.Indexer.ContractMetadataRuns

/-!
# Which contracts are run, and over what

What is run is decided by `changed`: the program of the last instance that ran a Wasm
program, which is the last instance's unless the contract went on to another kind of
executable.  The run is over the last instance either way.
-/

namespace SorobanExplorer

open KeyedFold Text StatefulProgram
open Persist (ChError)

variable {host : ContractHost} {store : ProgramStore} {ledger : RunLedger}

/-! ## The last instances -/

/-- The readable instances of a contract in a ledger. -/
def instancesOf (readEntry : Bytes → Option LedgerEntryData)
    (changedInstances : List ExtractedContractInstance) (contract : ContractId) :
    List LedgerEntry :=
  (changedInstances.filter (·.contract = contract)).filterMap fun i =>
    instanceEntry readEntry i.dataXdr (.ofNat i.ledgerSequence.toNat)

/-- What one change does to the entry and the program of a contract. -/
theorem lookup_changedInstances_add (readEntry : Bytes → Option LedgerEntryData)
    (so : ChangedInstances) (i : ExtractedContractInstance) (contract : ContractId) :
    let read := if i.contract = contract then
      instanceEntry readEntry i.dataXdr (.ofNat i.ledgerSequence.toNat) else none
    (so.add readEntry i).entries.lookup (.instanceKey contract) =
        (read.map some).or (so.entries.lookup (.instanceKey contract)) ∧
      (so.add readEntry i).changed.lookup contract =
        (read.bind wasmHashOf).or (so.changed.lookup contract) := by
  intro read
  unfold ChangedInstances.add
  by_cases hown : i.contract = contract
  · subst hown
    cases hentry : instanceEntry readEntry i.dataXdr (.ofNat i.ledgerSequence.toNat) with
    | none => simp [read, hentry]
    | some entry => cases hhash : wasmHashOf entry <;> simp [read, hentry, hhash]
  · have hkey : EntryKey.instanceKey contract ≠ .instanceKey i.contract :=
      fun h => hown (EntryKey.instanceKey.inj h).symm
    cases hentry : instanceEntry readEntry i.dataXdr (.ofNat i.ledgerSequence.toNat) with
    | none => simp [read, hown]
    | some entry =>
        cases hhash : wasmHashOf entry <;>
          simp [read, hown, hhash, AList.lookup_insert_ne hkey, AList.lookup_insert_ne (Ne.symm hown)]

/-- The entry of a contract is its last instance, and its program that of the last one
that ran a Wasm program. -/
theorem lookup_changedInstances (readEntry : Bytes → Option LedgerEntryData)
    (changedInstances : List ExtractedContractInstance) (contract : ContractId) :
    let instances := changedInstances.foldl (ChangedInstances.add readEntry) {}
    instances.entries.lookup (.instanceKey contract) =
        (instancesOf readEntry changedInstances contract).getLast?.map some ∧
      instances.changed.lookup contract =
        ((instancesOf readEntry changedInstances contract).filterMap wasmHashOf).getLast? := by
  intro instances
  -- by the last change: an undecodable one is passed over
  induction changedInstances using List.reverseRecOn with
  | nil => exact ⟨rfl, rfl⟩
  | append_singleton before i ih =>
      obtain ⟨hentries, hchanged⟩ := lookup_changedInstances_add readEntry
        (before.foldl (ChangedInstances.add readEntry) {}) i contract
      obtain ⟨ih, ih'⟩ := ih
      set read := if i.contract = contract then
        instanceEntry readEntry i.dataXdr (.ofNat i.ledgerSequence.toNat) else none with hread
      have hsplit : instancesOf readEntry (before ++ [i]) contract =
          instancesOf readEntry before contract ++ read.toList := by
        rw [instancesOf, List.filter_append, List.filterMap_append, hread]
        by_cases hown : i.contract = contract
        · cases hentry : instanceEntry readEntry i.dataXdr (.ofNat i.ledgerSequence.toNat) <;>
            simp [instancesOf, hown, hentry]
        · simp [instancesOf, hown]
      have hrun : instances = (before.foldl (ChangedInstances.add readEntry) {}).add readEntry i := by
        simp only [instances, List.foldl_append, List.foldl_cons, List.foldl_nil]
      rw [hrun, hentries, hchanged, ih, ih', hsplit, List.filterMap_append, List.getLast?_append,
        List.getLast?_append]
      cases read with
      | none => exact ⟨rfl, rfl⟩
      | some entry => cases hhash : wasmHashOf entry <;> simp [hhash]

/-! ## Programs -/

/-- The functions among those read that a program of this ledger declares. -/
def uploadedFunctions (newPrograms : List ExtractedWasmProgram) (wasmHash : Hash) :
    Option (List String) :=
  ((newPrograms.filter fun p => ProgramStore.hashOfHex p.wasmHash = some wasmHash).getLast?).map
    fun p => (p.functions.getD []).filter (· ∈ metadataFunctions)

/-- The functions among those read that a stored program declares. -/
def storedFunctions (store : ProgramStore) (wasmHash : Hash) : Option (List String) :=
  (store.wasmPrograms wasmHash).map fun program =>
    ["decimals", "name", "symbol"].filter (· ∈ program.functions)

/-- The functions among those read that a program declares, uploaded in the ledger or
stored before. -/
def declaredFunctions (newPrograms : List ExtractedWasmProgram) (store : ProgramStore)
    (wasmHash : Hash) : Option (List String) :=
  (uploadedFunctions newPrograms wasmHash).or (storedFunctions store wasmHash)

theorem lookup_knownPrograms (newPrograms : List ExtractedWasmProgram) (entries : Entries) :
    let known := newPrograms.foldl KnownPrograms.add { entries }
    (∀ wasmHash, known.declares.lookup wasmHash = uploadedFunctions newPrograms wasmHash) ∧
      ∀ contract, known.entries.lookup (.instanceKey contract) =
        entries.lookup (.instanceKey contract) := by
  intro known
  induction newPrograms using List.reverseRecOn with
  | nil => exact ⟨fun _ => rfl, fun _ => rfl⟩
  | append_singleton before p ih =>
      obtain ⟨hdeclares, hentries⟩ := ih
      have hrun : known = (before.foldl KnownPrograms.add { entries }).add p := by
        simp only [known, List.foldl_append, List.foldl_cons, List.foldl_nil]
      rw [hrun, KnownPrograms.add]
      cases hhash : ProgramStore.hashOfHex p.wasmHash with
      | none =>
          have hsame : ∀ wasmHash, uploadedFunctions (before ++ [p]) wasmHash =
              uploadedFunctions before wasmHash := fun wasmHash => by
            simp [uploadedFunctions, hhash]
          exact ⟨fun wasmHash => (hdeclares wasmHash).trans (hsame wasmHash).symm, hentries⟩
      | some hash =>
          refine ⟨fun wasmHash => ?_, fun contract => ?_⟩
          · by_cases hown : hash = wasmHash
            · subst hown
              simp [uploadedFunctions, hhash]
            · rw [AList.lookup_insert_ne (Ne.symm hown), hdeclares wasmHash]
              simp [uploadedFunctions, hhash, hown]
          · exact (AList.lookup_insert_ne (by simp)).trans (hentries contract)

theorem of_mem_unknownPrograms {changed : Table ContractId Hash}
    {declares : Table Hash (List String)} {hex : String}
    (hhex : hex ∈ unknownPrograms changed declares) :
    ∃ hash : Hash, hexEncode hash.bytes = hex ∧ declares.lookup hash = none := by
  rw [unknownPrograms, List.mem_mergeSort, List.mem_dedup, List.mem_map] at hhex
  obtain ⟨⟨contract, hash⟩, hmem, rfl⟩ := hhex
  exact ⟨hash, rfl, by simpa using (List.mem_filter.mp hmem).2⟩

theorem mem_unknownPrograms {changed : Table ContractId Hash} {declares : Table Hash (List String)}
    {contract : ContractId} {wasmHash : Hash}
    (hchanged : (contract, wasmHash) ∈ inContractOrder changed) :
    hexEncode wasmHash.bytes ∈ unknownPrograms changed declares ↔
      declares.lookup wasmHash = none := by
  constructor
  · intro hhex
    obtain ⟨hash, heq, hnone⟩ := of_mem_unknownPrograms hhex
    exact Hash.hexEncode_inj.mp heq ▸ hnone
  · intro hnone
    rw [unknownPrograms, List.mem_mergeSort, List.mem_dedup, List.mem_map]
    exact ⟨(contract, wasmHash), List.mem_filter.mpr ⟨hchanged, by simp [hnone]⟩, rfl⟩

/-- A row of the answer is about a program asked for. -/
theorem mem_interfaces {wasmHashes : List String} {rows : List (Hash × List String)}
    (hrows : store.interfaces wasmHashes = .ok rows) {wasmHash : Hash} {declared : List String} :
    (wasmHash, declared) ∈ rows ↔ (∃ hex ∈ wasmHashes, ProgramStore.hashOfHex hex = some wasmHash) ∧
      storedFunctions store wasmHash = some declared := by
  unfold ProgramStore.interfaces ProgramStore.answer at hrows
  split at hrows
  · cases hrows
  · obtain rfl := Except.ok.inj hrows
    rw [List.mem_filterMap]
    constructor
    · rintro ⟨hex, hhex, hrow⟩
      obtain ⟨hash, hhash, hrow⟩ := Option.bind_eq_some_iff.mp hrow
      obtain ⟨program, hprogram, hrow⟩ := Option.bind_eq_some_iff.mp hrow
      obtain ⟨rfl, rfl⟩ := Prod.mk.inj (Option.some.inj hrow)
      exact ⟨⟨hex, hhex, hhash⟩, by rw [storedFunctions, hprogram, Option.map_some]⟩
    · rintro ⟨⟨hex, hhex, hhash⟩, hstored⟩
      obtain ⟨program, hprogram, rfl⟩ := Option.map_eq_some_iff.mp hstored
      exact ⟨hex, hhex, by simp [hhash, hprogram]⟩

/-- The interface the database has of a program asked for. -/
theorem lastOf_interfaces {wasmHashes : List String} {rows : List (Hash × List String)}
    (hrows : store.interfaces wasmHashes = .ok rows) {wasmHash : Hash}
    (hasked : hexEncode wasmHash.bytes ∈ wasmHashes) :
    lastOf wasmHash rows = storedFunctions store wasmHash := by
  cases hstored : storedFunctions store wasmHash with
  | none =>
      rw [lastOf_eq_none]
      rintro ⟨_, declared⟩ hentry rfl
      obtain ⟨-, hdeclared⟩ := (mem_interfaces hrows).mp hentry
      rw [hstored] at hdeclared
      cases hdeclared
  | some declared =>
      refine lastOf_eq_of_mem ((mem_interfaces hrows).mpr
        ⟨⟨_, hasked, ProgramStore.hashOfHex_hexEncode wasmHash⟩, hstored⟩) fun other hother => ?_
      obtain ⟨-, hdeclared⟩ := (mem_interfaces hrows).mp hother
      exact Option.some.inj (hdeclared.symm.trans hstored)

/-- The interfaces stored fill in those of the programs that are not uploaded. -/
theorem lookup_storedInterfaces {changed : Table ContractId Hash}
    {known declares : Table Hash (List String)}
    (hstored : storedInterfaces store changed known = .ok declares) {contract : ContractId}
    {wasmHash : Hash} (hchanged : (contract, wasmHash) ∈ inContractOrder changed) :
    declares.lookup wasmHash = (known.lookup wasmHash).or (storedFunctions store wasmHash) := by
  have hasked : hexEncode wasmHash.bytes ∈ unknownPrograms changed known ↔
      known.lookup wasmHash = none := mem_unknownPrograms hchanged
  unfold storedInterfaces at hstored
  dsimp only at hstored
  split_ifs at hstored with hnone
  · -- Every program is at hand.
    rw [hnone] at hasked
    cases hstored
    cases hknown : known.lookup wasmHash with
    | none => exact absurd (hasked.mpr hknown) List.not_mem_nil
    | some declared => rfl
  · cases hrows : store.interfaces (unknownPrograms changed known) with
    | error error => rw [hrows] at hstored; cases hstored
    | ok rows =>
        rw [hrows] at hstored
        obtain rfl := Except.ok.inj hstored
        refine (lookup_foldl_insert wasmHash rows known).trans ?_
        cases hknown : known.lookup wasmHash with
        | none => rw [lastOf_interfaces hrows (hasked.mpr hknown), Option.or_none, Option.none_or]
        | some declared =>
            have hnot : lastOf wasmHash rows = none := by
              rw [lastOf_eq_none]
              rintro ⟨_, other⟩ hentry rfl
              obtain ⟨⟨hex, hhex, hhash⟩, -⟩ := (mem_interfaces hrows).mp hentry
              obtain ⟨hash, rfl, hnotKnown⟩ := of_mem_unknownPrograms hhex
              rw [ProgramStore.hashOfHex_hexEncode] at hhash
              obtain rfl := Option.some.inj hhash
              rw [hknown] at hnotKnown
              cases hnotKnown
            rw [hnot, Option.none_or, Option.some_or]

/-! ## The runs of a ledger -/

/-- The program of a contract's last instance that ran a Wasm program. -/
def lastProgram (readEntry : Bytes → Option LedgerEntryData)
    (changedInstances : List ExtractedContractInstance) (contract : ContractId) : Option Hash :=
  ((instancesOf readEntry changedInstances contract).filterMap wasmHashOf).getLast?

/-- A program that has metadata, with its declared functions. -/
def HasMetadata (newPrograms : List ExtractedWasmProgram) (store : ProgramStore) (wasmHash : Hash)
    (declared : List String) : Prop :=
  declaredFunctions newPrograms store wasmHash = some declared ∧ hasMetadata declared = true

theorem mem_inContractOrder {changed : Table ContractId Hash} {contract : ContractId}
    {wasmHash : Hash} :
    (contract, wasmHash) ∈ inContractOrder changed ↔ changed.lookup contract = some wasmHash := by
  rw [inContractOrder, List.mem_mergeSort, mem_pairs]

theorem lastProgram_of_wasm {readEntry : Bytes → Option LedgerEntryData}
    {changedInstances : List ExtractedContractInstance} {contract : ContractId}
    {last : LedgerEntry} {wasmHash : Hash}
    (hlast : (instancesOf readEntry changedInstances contract).getLast? = some last)
    (hwasm : wasmHashOf last = some wasmHash) :
    lastProgram readEntry changedInstances contract = some wasmHash := by
  obtain ⟨before, hsplit⟩ := List.getLast?_eq_some_iff.mp hlast
  simp [lastProgram, hsplit, hwasm]

theorem exists_last_of_lastProgram {readEntry : Bytes → Option LedgerEntryData}
    {changedInstances : List ExtractedContractInstance} {contract : ContractId} {wasmHash : Hash}
    (hprogram : lastProgram readEntry changedInstances contract = some wasmHash) :
    ∃ last, (instancesOf readEntry changedInstances contract).getLast? = some last := by
  cases hlast : (instancesOf readEntry changedInstances contract).getLast? with
  | some last => exact ⟨last, rfl⟩
  | none =>
      rw [List.getLast?_eq_none_iff] at hlast
      simp [lastProgram, hlast] at hprogram

section

variable [Crates] {changedInstances : List ExtractedContractInstance}
  {newPrograms : List ExtractedWasmProgram} {writes : List ExtractedContractMetadata}
  {running : Running}

/-- Every call is of a contract whose last program has metadata, over its last instance, and
every such contract is called. -/
theorem ledgerMetadataWrites_calls
    (hrun : ledgerMetadataWrites host store ledger changedInstances newPrograms =
      .ok (writes, running)) :
    (∀ call ∈ running.calls, ∃ last wasmHash declared,
      (instancesOf host.readEntry changedInstances call.contract).getLast? = some last ∧
      lastProgram host.readEntry changedInstances call.contract = some wasmHash ∧
      HasMetadata newPrograms store wasmHash declared ∧
      call.entries.lookup (.instanceKey call.contract) = some (some last) ∧
      call.function ∈ declared) ∧
    ∀ contract wasmHash declared,
      lastProgram host.readEntry changedInstances contract = some wasmHash →
      HasMetadata newPrograms store wasmHash declared →
      ∃ call ∈ running.calls, call.contract = contract := by
  have hlookup := lookup_changedInstances host.readEntry changedInstances
  unfold ledgerMetadataWrites at hrun
  set instances := changedInstances.foldl (ChangedInstances.add host.readEntry) {} with hinstances
  have hchanged : ∀ contract, instances.changed.lookup contract =
      lastProgram host.readEntry changedInstances contract := fun contract => (hlookup contract).2
  dsimp only at hrun
  split_ifs at hrun with hempty
  · -- Nothing ran a Wasm program.
    obtain ⟨-, rfl⟩ := Prod.mk.inj (Except.ok.inj hrun)
    refine ⟨fun _ h => absurd h List.not_mem_nil, fun contract wasmHash _ hprogram _ => ?_⟩
    rw [← hchanged, hempty] at hprogram
    cases hprogram
  · obtain ⟨hdeclares, hentries⟩ := lookup_knownPrograms newPrograms instances.entries
    set known := newPrograms.foldl KnownPrograms.add { entries := instances.entries } with hknown
    cases hstored : storedInterfaces store instances.changed known.declares with
    | error error => rw [hstored] at hrun; cases hrun
    | ok declares =>
        rw [hstored] at hrun
        have hfunctions : ∀ contract wasmHash,
            (contract, wasmHash) ∈ inContractOrder instances.changed →
            declares.lookup wasmHash = declaredFunctions newPrograms store wasmHash := by
          intro contract wasmHash hmem
          rw [lookup_storedInterfaces hstored hmem, hdeclares wasmHash, declaredFunctions]
        have hown : ∀ contract wasmHash,
            (contract, wasmHash) ∈ inContractOrder instances.changed →
            ∀ declared, runnable declares wasmHash = some declared → ∀ function ∈ declared,
            ∃ wasmHash declared,
              lastProgram host.readEntry changedInstances contract = some wasmHash ∧
              HasMetadata newPrograms store wasmHash declared ∧ function ∈ declared := by
          intro contract wasmHash hmem declared hrunnable function hfunction
          obtain ⟨hdeclared, hhas⟩ := Option.filter_eq_some_iff.mp hrunnable
          exact ⟨wasmHash, declared, hchanged contract ▸ mem_inContractOrder.mp hmem,
            ⟨hfunctions contract wasmHash hmem ▸ hdeclared, hhas⟩, hfunction⟩
        obtain ⟨hextends, hcalled⟩ := ensures_runContracts hown _ _ _ hrun
        obtain ⟨more, hmore, hcalls⟩ := hextends.calls
        rw [List.nil_append] at hmore
        refine ⟨fun call hcall => ?_, fun contract wasmHash declared hprogram hhas => ?_⟩
        · obtain ⟨⟨wasmHash, declared, hprogram, hhas, hfunction⟩, hkeeps⟩ :=
            hcalls call (hmore ▸ hcall)
          obtain ⟨last, hlast⟩ := exists_last_of_lastProgram hprogram
          refine ⟨last, wasmHash, declared, hlast, hprogram, hhas, ?_, hfunction⟩
          -- The instance was there before the first run.
          apply hkeeps
          rw [hentries, (hlookup call.contract).1, hlast]
          rfl
        · have hmem : (contract, wasmHash) ∈ inContractOrder instances.changed :=
            mem_inContractOrder.mpr ((hchanged contract).trans hprogram)
          apply hcalled contract wasmHash hmem
          rw [runnable, hfunctions contract wasmHash hmem, hhas.1, Option.filter_some, if_pos hhas.2]
          rfl

/-- Only a failed query makes the metadata of a ledger fail. -/
theorem ledgerMetadataWrites_ok (hstore : ∀ query, store.outage query = none) :
    ∃ writes running, ledgerMetadataWrites host store ledger changedInstances newPrograms =
      .ok (writes, running) := by
  unfold ledgerMetadataWrites
  dsimp only
  split_ifs
  · exact ⟨_, _, rfl⟩
  · obtain ⟨declares, hdeclares⟩ : ∃ declares, storedInterfaces store
        (changedInstances.foldl (ChangedInstances.add host.readEntry) {}).changed
        (newPrograms.foldl KnownPrograms.add { entries :=
          (changedInstances.foldl (ChangedInstances.add host.readEntry) {}).entries }).declares =
        .ok declares := by
      unfold storedInterfaces
      dsimp only
      split_ifs
      · exact ⟨_, rfl⟩
      · rw [ProgramStore.interfaces, answer_ok hstore]
        exact ⟨_, rfl⟩
    rw [hdeclares]
    exact succeeds_runContracts hstore declares _ _

/-! ## Running the last instances -/

/-- A contract's last instance runs its own Wasm program, which has metadata. -/
def Due (host : ContractHost) (store : ProgramStore)
    (changedInstances : List ExtractedContractInstance) (newPrograms : List ExtractedWasmProgram)
    (contract : ContractId) (last : LedgerEntry) (declared : List String) : Prop :=
  (instancesOf host.readEntry changedInstances contract).getLast? = some last ∧
    ∃ wasmHash, wasmHashOf last = some wasmHash ∧ HasMetadata newPrograms store wasmHash declared

/-- The contracts called are those that are due, each over its last instance and for the
functions its program declares. -/
def RunsLastInstances (host : ContractHost) (store : ProgramStore)
    (changedInstances : List ExtractedContractInstance) (newPrograms : List ExtractedWasmProgram)
    (calls : List ViewCall) : Prop :=
  (∀ call ∈ calls, ∃ last declared,
    Due host store changedInstances newPrograms call.contract last declared ∧
    call.entries.lookup (.instanceKey call.contract) = some (some last) ∧
    call.function ∈ declared) ∧
  ∀ contract last declared, Due host store changedInstances newPrograms contract last declared →
    ∃ call ∈ calls, call.contract = contract

theorem runsLastInstances_of_run
    (hrun : ledgerMetadataWrites host store ledger changedInstances newPrograms =
      .ok (writes, running)) :
    RunsLastInstances host store changedInstances newPrograms running.calls ↔
      ∀ contract last, (instancesOf host.readEntry changedInstances contract).getLast? = some last →
        wasmHashOf last = none →
        ∀ wasmHash declared, lastProgram host.readEntry changedInstances contract = some wasmHash →
          ¬ HasMetadata newPrograms store wasmHash declared := by
  obtain ⟨hcalls, hcalled⟩ := ledgerMetadataWrites_calls hrun
  constructor
  · intro ⟨hdue, _⟩ contract last hlast hother wasmHash declared hprogram hhas
    obtain ⟨call, hcall, rfl⟩ := hcalled contract wasmHash declared hprogram hhas
    obtain ⟨last', _, ⟨hlast', wasmHash', hwasm, _⟩, _⟩ := hdue call hcall
    obtain rfl : last = last' := Option.some.inj (hlast.symm.trans hlast')
    rw [hother] at hwasm
    cases hwasm
  · intro hnone
    refine ⟨fun call hcall => ?_, fun contract last declared hdue => ?_⟩
    · obtain ⟨last, wasmHash, declared, hlast, hprogram, hhas, hentry, hfunction⟩ :=
        hcalls call hcall
      refine ⟨last, declared, ⟨hlast, wasmHash, ?_, hhas⟩, hentry, hfunction⟩
      cases hwasm : wasmHashOf last with
      | none => exact absurd hhas (hnone call.contract last hlast hwasm wasmHash declared hprogram)
      | some own => rw [← lastProgram_of_wasm hlast hwasm, hprogram]
    · obtain ⟨hlast, wasmHash, hwasm, hhas⟩ := hdue
      exact hcalled contract wasmHash declared (lastProgram_of_wasm hlast hwasm) hhas

variable (host store ledger changedInstances newPrograms) in
/-- The last instances are run exactly when no contract ends the ledger on another kind of
executable after it ran a Wasm program that has metadata; and the runs are made whenever
the database answers. -/
theorem runsLastInstances_iff :
    (∀ writes running,
      ledgerMetadataWrites host store ledger changedInstances newPrograms = .ok (writes, running) →
      (RunsLastInstances host store changedInstances newPrograms running.calls ↔
        ∀ contract last,
          (instancesOf host.readEntry changedInstances contract).getLast? = some last →
          wasmHashOf last = none →
          ∀ wasmHash declared,
            lastProgram host.readEntry changedInstances contract = some wasmHash →
            ¬ HasMetadata newPrograms store wasmHash declared)) ∧
    ((∀ query, store.outage query = none) → ∃ writes running,
      ledgerMetadataWrites host store ledger changedInstances newPrograms = .ok (writes, running)) :=
  ⟨fun _ _ => runsLastInstances_of_run, ledgerMetadataWrites_ok⟩

end

/-! ## A contract that goes on to another contract's program -/

/-- A contract, a program that declares `name` and `symbol`, a contract that owns one, and
another that runs the owner's. -/
def nftContract : ContractId := Hash.ofBytes (List.replicate 32 0x06)

def nftProgram : Hash := Hash.ofBytes (List.replicate 32 0xDD)

def fleetOwner : ContractId := Hash.ofBytes (List.replicate 32 0x11)

def fleetContract : ContractId := Hash.ofBytes (List.replicate 32 0x07)

/-- The XDR of an executable: the Wasm program, or the owner's. -/
def wasmXdr : Bytes := [0, 0, 0, 0] ++ List.replicate 32 0xDD

def externalRefXdr : Bytes :=
  [0, 0, 0, 2, 0, 0, 0, 1] ++ List.replicate 32 0x11 ++ [0, 0, 0, 2, 0x76, 0x32, 0, 0]

/-- The XDR of a contract's instance, without storage. -/
def instanceXdr (contract : UInt8) (executable : Bytes) : Bytes :=
  [0, 0, 0, 6, 0, 0, 0, 0, 0, 0, 0, 1] ++ List.replicate 32 contract ++
    [0, 0, 0, 20, 0, 0, 0, 1, 0, 0, 0, 19] ++ executable ++ [0, 0, 0, 0]

def instanceData (contract : ContractId) (executable : ContractExecutable) : LedgerEntryData :=
  .contractData { contract := .contract contract, key := .ledgerKeyContractInstance
                  durability := .persistent, val := .contractInstance executable none }

def ownersProgram : ContractExecutable := .externalRef (.contract fleetOwner) [0x76, 0x32]

/-- A host under which every program traps once its instance and code are there. -/
def trappingHost : ContractHost where
  readEntry bytes :=
    if bytes = instanceXdr 0x06 wasmXdr then some (instanceData nftContract (.wasm nftProgram))
    else if bytes = instanceXdr 0x06 externalRefXdr then
      some (instanceData nftContract ownersProgram)
    else if bytes = instanceXdr 0x07 externalRefXdr then
      some (instanceData fleetContract ownersProgram)
    else none
  invoke entries _ contract _ :=
    (.contractData (.contract contract) .ledgerKeyContractInstance .persistent ::
      (((entries.lookup (.instanceKey contract)).join.bind wasmHashOf).map .contractCode).toList,
      .error "Error(WasmVm, InvalidAction)")
  persistent := by
    intro entries ledger contract function owner durability h
    rcases List.mem_cons.mp h with heq | hcode
    · exact (LedgerKey.contractData.inj heq).2.2
    · obtain ⟨hash, -, hne⟩ := Option.map_eq_some_iff.mp (Option.mem_toList.mp hcode)
      cases hne

def nftStore : ProgramStore where
  wasmPrograms hash :=
    if hash = nftProgram then some { functions := ["name", "symbol"], code := asBytes "asm" } else none
  contractInstances _ := none
  outage _ := none

def nftLedger : RunLedger := { sequence := 64818615, timestamp := 1791380000, networkId := 0 }

def nftChange (executable : Bytes) : ExtractedContractInstance where
  contract := nftContract
  dataXdr := instanceXdr 0x06 executable
  ledgerSequence := 64818615

def fleetChange : ExtractedContractInstance where
  contract := fleetContract
  dataXdr := instanceXdr 0x07 externalRefXdr
  ledgerSequence := 64818615

theorem hasMetadata_nftProgram : HasMetadata [] nftStore nftProgram ["name", "symbol"] := by
  constructor <;> decide

/-- One contract leaves the owner's program for its own, another runs the owner's throughout:
the first is called. -/
theorem runsLastInstances_iff_ownProgram : ∃ writes running,
    @ledgerMetadataWrites Crates.pinned trappingHost nftStore nftLedger
      [nftChange externalRefXdr, fleetChange, nftChange wasmXdr] [] = .ok (writes, running) ∧
    RunsLastInstances trappingHost nftStore
      [nftChange externalRefXdr, fleetChange, nftChange wasmXdr] [] running.calls ∧
    ∃ call ∈ running.calls, call.contract = nftContract := by
  let _ : Crates := Crates.pinned
  set changes := [nftChange externalRefXdr, fleetChange, nftChange wasmXdr] with hchanges
  obtain ⟨hiff, hok⟩ := runsLastInstances_iff trappingHost nftStore nftLedger changes []
  obtain ⟨writes, running, hrun⟩ := hok fun _ => rfl
  have hnft : instancesOf trappingHost.readEntry changes nftContract =
      [⟨64818615, instanceData nftContract ownersProgram⟩,
        ⟨64818615, instanceData nftContract (.wasm nftProgram)⟩] := rfl
  have hfleet : instancesOf trappingHost.readEntry changes fleetContract =
      [⟨64818615, instanceData fleetContract ownersProgram⟩] := rfl
  have hruns : RunsLastInstances trappingHost nftStore changes [] running.calls := by
    refine (hiff writes running hrun).mpr ?_
    intro contract last hlast hother wasmHash declared hprogram
    -- only these two contracts changed
    by_cases hown : nftContract = contract
    · subst hown
      rw [hnft] at hlast
      obtain rfl := Option.some.inj hlast
      cases hother
    · by_cases hmember : fleetContract = contract
      · subst hmember
        rw [lastProgram, hfleet] at hprogram
        cases hprogram
      · have hnone : instancesOf trappingHost.readEntry changes contract = [] := by
          simp [instancesOf, hchanges, nftChange, fleetChange, hown, hmember]
        rw [hnone] at hlast
        cases hlast
  have hlast : (instancesOf trappingHost.readEntry changes nftContract).getLast? =
      some ⟨64818615, instanceData nftContract (.wasm nftProgram)⟩ := by
    rw [hnft]
    rfl
  exact ⟨writes, running, hrun, hruns,
    hruns.2 nftContract _ _ ⟨hlast, nftProgram, rfl, hasMetadata_nftProgram⟩⟩

/-- The contract ends on the owner's program, and its own is run for it. -/
theorem not_runsLastInstances_externalRef : ∃ writes running,
    @ledgerMetadataWrites Crates.pinned trappingHost nftStore nftLedger
      [nftChange wasmXdr, nftChange externalRefXdr] [] = .ok (writes, running) ∧
    ¬ RunsLastInstances trappingHost nftStore [nftChange wasmXdr, nftChange externalRefXdr] []
      running.calls := by
  let _ : Crates := Crates.pinned
  obtain ⟨writes, running, hrun⟩ : ∃ writes running, ledgerMetadataWrites trappingHost nftStore
      nftLedger [nftChange wasmXdr, nftChange externalRefXdr] [] = .ok (writes, running) :=
    ledgerMetadataWrites_ok fun _ => rfl
  refine ⟨writes, running, hrun, fun hruns => ?_⟩
  have hlast : (instancesOf trappingHost.readEntry [nftChange wasmXdr, nftChange externalRefXdr]
      nftContract).getLast? = some
        { lastModifiedLedgerSeq := 64818615
          data := instanceData nftContract ownersProgram } := rfl
  exact (runsLastInstances_of_run hrun).mp hruns nftContract _ hlast rfl nftProgram
    ["name", "symbol"] rfl hasMetadata_nftProgram

end SorobanExplorer
