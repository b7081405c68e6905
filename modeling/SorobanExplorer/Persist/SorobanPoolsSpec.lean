import SorobanExplorer.Persist.SorobanPools

/-!
# Whose word a registry row rests on

Every row rests on the pool's own entries (`registryRows_backed`): what a gate lets
through is traced to the changes of the ledger that say so.  The gates are independent
of each other, and the one for routers takes every announcement a pool does not
contradict; `oneAttribution_iff` says exactly when the rows of each pool still agree.

* `lookup_declared_word`, `created_of_declared`: what a declaration table holds is the
  last write's word, and a creation is one of the writes;
* `mem_routerRows`, `mem_pairRows`, `mem_configRows`: each family's rows are those of
  its admitted announcements.
-/

namespace SorobanExplorer

open KeyedFold Persist Text

/-! ## Declarations -/

section

variable {α β : Type} {keyOf : α → String} {word : Option β → α → β} {created : α → Bool}
  {writes : List α} {key : String} {held : β}

theorem lookup_declared (key : String) :
    (declared keyOf word created writes).lookup key =
      (writes.filter (keyOf · = key)).foldl (fun held write => some
        (word (held.map Prod.fst) write, (held.map Prod.snd).getD false || created write)) none := by
  rw [declared, lookup_runAll, history, List.filter_map, List.foldl_map]
  rfl

/-- A creation is one of the contract's writes. -/
theorem created_of_declared
    (h : (declared keyOf word created writes).lookup key = some (held, true)) :
    ∃ write ∈ writes, keyOf write = key ∧ created write := by
  rw [declared, lookup_runAll] at h
  have hcreated := @history_induction _ _ _
    (fun word : β × Bool => word.2 → ∃ write ∈ writes, keyOf write = key ∧ created write) key _
    (fun update hupdate hkey value hvalue htrue => ?_) _ (by simp) _ h
  · exact hcreated rfl
  obtain ⟨write, hwrite, rfl⟩ := List.mem_map.mp hupdate
  rcases Bool.or_eq_true_iff.mp htrue with hearlier | hnow
  · cases value with
    | none => cases hearlier
    | some word => exact hvalue word rfl hearlier
  · exact ⟨write, hwrite, hkey, hnow⟩

/-- A word that overwrites is the last write's. -/
theorem lookup_declared_word (hword : ∀ held write, word held write = word none write)
    {flag : Bool} (h : (declared keyOf word created writes).lookup key = some (held, flag)) :
    ∃ write, (writes.filter (keyOf · = key)).getLast? = some write ∧ held = word none write := by
  rw [lookup_declared] at h
  rcases List.eq_nil_or_concat (writes.filter (keyOf · = key)) with hnil | ⟨earlier, last, hsplit⟩
  · rw [hnil] at h
    cases h
  · rw [hsplit, List.concat_eq_append, List.foldl_append] at h
    have hheld := congrArg Prod.fst (Option.some.inj h)
    refine ⟨last, ?_, hheld.symm.trans (hword _ last)⟩
    rw [hsplit, List.concat_eq_append, List.getLast?_append, List.getLast?_singleton, Option.some_or]

end

/-- A configuration comes from one of the pool's writes. -/
theorem config_of_declared {configPools : List ExtractedConfigPool} {pool : String}
    {config : PoolConfig} {flag : Bool}
    (h : (declaredConfig configPools).lookup pool = some (some config, flag)) :
    ∃ write ∈ configPools, write.state.pool = pool ∧ write.state.config = some config := by
  rw [declaredConfig, declared, lookup_runAll] at h
  refine @history_induction _ _ _ (fun word : Option PoolConfig × Bool => word.1 = some config →
    ∃ write ∈ configPools, write.state.pool = pool ∧ write.state.config = some config) pool _
    (fun update hupdate hkey value hvalue hword => ?_) _ (by simp) _ h rfl
  obtain ⟨write, hwrite, rfl⟩ := List.mem_map.mp hupdate
  rcases Option.or_eq_some_iff.mp hword with hnow | ⟨-, hearlier⟩
  · exact ⟨write, hwrite, hkey, hnow⟩
  · cases value with
    | none => cases hearlier
    | some word => exact hvalue word rfl hearlier

namespace PoolLedger

variable {ledger : PoolLedger}

/-! ## The transactions the writes come from -/

theorem poolInstances_eq : ledger.poolInstances = ledger.changes.flatMap extractPoolInstances := by
  simp [poolInstances, writes, List.filterMap_flatMap, extractPoolFamilyWrites,
    List.filterMap_map, PoolFamilyWrite.poolInstance?]

theorem factoryPairs_eq : ledger.factoryPairs = ledger.changes.flatMap extractFactoryPairs := by
  simp [factoryPairs, writes, List.filterMap_flatMap, extractPoolFamilyWrites,
    List.filterMap_map, PoolFamilyWrite.factoryPair?]

theorem configPools_eq : ledger.configPools = ledger.changes.flatMap extractConfigPools := by
  simp [configPools, writes, List.filterMap_flatMap, extractPoolFamilyWrites,
    List.filterMap_map, PoolFamilyWrite.configPool?]

theorem addressLists_eq :
    ledger.addressLists = ledger.changes.flatMap extractAddressListWrites := by
  simp [addressLists, writes, List.filterMap_flatMap, extractPoolFamilyWrites,
    List.filterMap_map, PoolFamilyWrite.addressList?]

def allChanges (ledger : PoolLedger) : List ExtractedLedgerEntryChange :=
  ledger.changes.flatten

theorem mem_allChanges {changes : List ExtractedLedgerEntryChange}
    {change : ExtractedLedgerEntryChange} (hchanges : changes ∈ ledger.changes)
    (hchange : change ∈ changes) : change ∈ ledger.allChanges :=
  List.mem_flatten.mpr ⟨changes, hchanges, hchange⟩

/-! ## The evidence -/

section

variable (ledger : PoolLedger)

/-- The newest image of a pool's instance in the ledger. -/
def newestInstance (pool : String) : Option ExtractedPoolInstance :=
  (ledger.poolInstances.filter (·.state.pool = pool)).getLast?

/-- The newest image of a pair's instance in the ledger. -/
def newestPair (pair : String) : Option ExtractedFactoryPair :=
  (ledger.factoryPairs.filter (·.state.pair = pair)).getLast?

/-- The ledger created a contract's instance. -/
def Created (contract : String) : Prop :=
  ∃ change ∈ ledger.allChanges, InstanceCreated change contract

/-- The ledger wrote a contract's configuration among the contract's entries. -/
def WroteConfig (contract : String) : Prop :=
  ∃ change ∈ ledger.allChanges, ∃ config, ConfigWrite change contract config

/-- The newest image of the pool's instance names the router. -/
structure NamesRouter (pool router : String) : Prop where
  newest : ∃ image, ledger.newestInstance pool = some image ∧ image.state.router = some router
  written : ∃ change ∈ ledger.allChanges, ∃ entries, InstanceWrite change pool entries ∧
    (instanceGet entries "Router").bind addressOf = some router

/-- The newest image of the pool's instance names no router. -/
def Routerless (pool : String) : Prop :=
  ∃ image, ledger.newestInstance pool = some image ∧ image.state.router = none

/-- The newest image of the pair's instance names the factory and has the legs
announced. -/
def NamesFactory (reg : PairRegistration) : Prop :=
  ∃ image, ledger.newestPair reg.event.pair = some image ∧
    image.state.factory = reg.factory ∧ image.state.token0 = reg.event.token0 ∧
    image.state.token1 = reg.event.token1 ∧
    ∃ change ∈ ledger.allChanges, ∃ entries, InstanceWrite change reg.event.pair entries ∧
      PairEntries entries image.state

/-- Of those that announce the pool, this one alone lists it. -/
structure ListedAlone (reg : ConfigPoolRegistration) : Prop where
  listed : ∃ change ∈ ledger.allChanges, ∃ write, addressListWrite change = some write ∧
    write.owner = reg.factory ∧ reg.pool ∈ write.members
  alone : ∀ other ∈ detectConfigPoolRegistrations ledger.events, other.pool = reg.pool →
    ledger.lists other.factory reg.pool → other.factory = reg.factory

/-- What must stand behind a row of `pool` under `deployment`; `carries` is what a
pool must show of its configuration. -/
inductive Backing (carries : String → Prop) (pool deployment : String) : Prop
  | router (reg : PoolRegistration) (announced : reg ∈ detectPoolRegistrations ledger.events)
      (hpool : reg.event.pool = pool) (hrouter : reg.router = deployment)
      (named : ledger.NamesRouter pool deployment)
  | routerless (reg : PoolRegistration) (announced : reg ∈ detectPoolRegistrations ledger.events)
      (hpool : reg.event.pool = pool) (hrouter : reg.router = deployment)
      (unnamed : ledger.Routerless pool) (created : ledger.Created pool)
  | pair (reg : PairRegistration) (announced : reg ∈ detectPairRegistrations ledger.events)
      (hpool : reg.event.pair = pool) (hfactory : reg.factory = deployment)
      (named : ledger.NamesFactory reg) (created : ledger.Created pool)
  | config (reg : ConfigPoolRegistration)
      (announced : reg ∈ detectConfigPoolRegistrations ledger.events)
      (hpool : reg.pool = pool) (hfactory : reg.factory = deployment)
      (listed : ledger.ListedAlone reg) (created : ledger.Created pool) (configured : carries pool)

end

theorem newestInstance_spec {pool : String} {router : Option String} {created : Bool}
    (h : (declaredRouter ledger.poolInstances).lookup pool = some (router, created)) :
    ∃ image, ledger.newestInstance pool = some image ∧ image.state.router = router := by
  obtain ⟨image, hlast, rfl⟩ := lookup_declared_word (fun _ _ => rfl) h
  exact ⟨image, hlast, rfl⟩

theorem mem_of_newestInstance {pool : String} {image : ExtractedPoolInstance}
    (h : ledger.newestInstance pool = some image) :
    image.state.pool = pool ∧ ∃ change ∈ ledger.allChanges, ∃ entries,
      InstanceWrite change pool entries ∧
      image.state.router = (instanceGet entries "Router").bind addressOf := by
  obtain ⟨himage, hpool⟩ := List.mem_filter.mp (List.mem_of_getLast? h)
  obtain rfl := of_decide_eq_true hpool
  rw [poolInstances_eq] at himage
  obtain ⟨changes, hchanges, hextracted⟩ := List.mem_flatMap.mp himage
  obtain ⟨change, hchange, entries, hwrite, hrouter, -⟩ := mem_extractPoolInstancesFrom hextracted
  exact ⟨rfl, change, mem_allChanges hchanges hchange, entries, hwrite, hrouter⟩

theorem created_of_poolInstance {image : ExtractedPoolInstance}
    (himage : image ∈ ledger.poolInstances) (hcreated : image.created) :
    ledger.Created image.state.pool := by
  rw [poolInstances_eq] at himage
  obtain ⟨changes, hchanges, hextracted⟩ := List.mem_flatMap.mp himage
  obtain ⟨change, hchange, entries, hwrite, -, hkind⟩ := mem_extractPoolInstancesFrom hextracted
  exact ⟨change, mem_allChanges hchanges hchange,
    hwrite.created (of_decide_eq_true (hkind.symm.trans hcreated))⟩

/-- What the router gate lets through. -/
theorem admitsRouter_iff {reg : PoolRegistration} :
    ledger.admitsRouter reg ↔
      (∃ created, (declaredRouter ledger.poolInstances).lookup reg.event.pool =
        some (some reg.router, created)) ∨
      (declaredRouter ledger.poolInstances).lookup reg.event.pool = some (none, true) := by
  unfold admitsRouter
  split
  · rename_i router created hlookup
    rw [hlookup]
    simp
  · rename_i created hlookup
    rw [hlookup]
    simp
  · rename_i hlookup
    rw [hlookup]
    simp

theorem backing_of_admitsRouter {carries : String → Prop} {reg : PoolRegistration}
    (hreg : reg ∈ detectPoolRegistrations ledger.events) (hadmits : ledger.admitsRouter reg) :
    ledger.Backing carries reg.event.pool reg.router := by
  rcases admitsRouter_iff.mp hadmits with ⟨created, hnamed⟩ | hunnamed
  · obtain ⟨image, hnewest, hrouter⟩ := newestInstance_spec hnamed
    obtain ⟨-, change, hchange, entries, hwrite, hread⟩ := mem_of_newestInstance hnewest
    exact .router reg hreg rfl rfl
      ⟨⟨image, hnewest, hrouter⟩, change, hchange, entries, hwrite, hread.symm.trans hrouter⟩
  · obtain ⟨image, himage, hpool, hcreated⟩ := created_of_declared hunnamed
    exact .routerless reg hreg rfl rfl (newestInstance_spec hunnamed)
      (hpool ▸ created_of_poolInstance himage hcreated)

/-- What the pair gate lets through. -/
theorem admitsPair_iff {reg : PairRegistration} :
    ledger.admitsPair reg ↔ (declaredFactory ledger.factoryPairs).lookup reg.event.pair =
      some ((reg.factory, reg.event.token0, reg.event.token1), true) := by
  unfold admitsPair
  split
  · rename_i factory token0 token1 created hlookup
    rw [hlookup]
    simp only [Bool.and_eq_true, decide_eq_true_eq, Option.some.injEq, Prod.mk.injEq]
    tauto
  · rename_i hlookup
    rw [hlookup]
    simp

theorem backing_of_admitsPair {carries : String → Prop} {reg : PairRegistration}
    (hreg : reg ∈ detectPairRegistrations ledger.events) (hadmits : ledger.admitsPair reg) :
    ledger.Backing carries reg.event.pair reg.factory := by
  have hlookup := admitsPair_iff.mp hadmits
  obtain ⟨image, hnewest, hword⟩ := lookup_declared_word (fun _ _ => rfl) hlookup
  obtain ⟨hfactory, htoken0, htoken1⟩ :
      reg.factory = image.state.factory ∧ reg.event.token0 = image.state.token0 ∧
        reg.event.token1 = image.state.token1 := by simpa using hword
  have written : ∀ image ∈ ledger.factoryPairs, ∃ change ∈ ledger.allChanges, ∃ entries,
      InstanceWrite change image.state.pair entries ∧ PairEntries entries image.state ∧
        image.created = decide (change.changeType = "created") := by
    intro image himage
    rw [factoryPairs_eq] at himage
    obtain ⟨changes, hchanges, hextracted⟩ := List.mem_flatMap.mp himage
    obtain ⟨change, hchange, hwrite⟩ := mem_extractFactoryPairs hextracted
    exact ⟨change, mem_allChanges hchanges hchange, hwrite⟩
  refine .pair reg hreg rfl rfl ⟨image, hnewest, hfactory.symm, htoken0.symm, htoken1.symm, ?_⟩ ?_
  · obtain ⟨himage, hpair⟩ := List.mem_filter.mp (List.mem_of_getLast? hnewest)
    obtain ⟨change, hchange, entries, hwrite, hstates, -⟩ := written image himage
    exact ⟨change, hchange, entries, of_decide_eq_true hpair ▸ hwrite, hstates⟩
  · obtain ⟨creation, hcreation, hpair, hcreated⟩ := created_of_declared hlookup
    obtain ⟨change, hchange, entries, hwrite, -, hkind⟩ := written creation hcreation
    exact ⟨change, hchange,
      hpair ▸ hwrite.created (of_decide_eq_true (hkind.symm.trans hcreated))⟩

theorem createdConfig_eq_some {pool : String} {config : PoolConfig} :
    ledger.createdConfig pool = some config ↔
      (declaredConfig ledger.configPools).lookup pool = some (some config, true) := by
  unfold createdConfig
  split
  · rename_i held hlookup
    rw [hlookup]
    simp
  · rename_i hother
    constructor
    · exact nofun
    · exact fun hlookup => absurd hlookup (hother config)

theorem backing_of_createdConfig {reg : ConfigPoolRegistration} (hreg : reg ∈ ledger.configRegs)
    (halone : ledger.uncontested reg) {config : PoolConfig}
    (hconfig : ledger.createdConfig reg.pool = some config) :
    ledger.Backing ledger.WroteConfig reg.pool reg.factory := by
  have hlookup := createdConfig_eq_some.mp hconfig
  obtain ⟨hannounced, hlists⟩ := List.mem_filter.mp hreg
  -- every image of the ledger is a write of one of its changes
  have written : ∀ image ∈ ledger.configPools, ∃ changes ∈ ledger.changes,
      image ∈ extractConfigPools changes := by
    intro image himage
    rw [configPools_eq] at himage
    exact List.mem_flatMap.mp himage
  refine .config reg hannounced rfl rfl ⟨?_, ?_⟩ ?_ ?_
  · obtain ⟨write, hwrite, hholds⟩ := List.any_eq_true.mp hlists
    obtain ⟨howner, hmember⟩ := of_decide_eq_true hholds
    rw [addressLists_eq] at hwrite
    obtain ⟨changes, hchanges, hextracted⟩ := List.mem_flatMap.mp hwrite
    obtain ⟨change, hchange, hread⟩ := List.mem_filterMap.mp hextracted
    exact ⟨change, mem_allChanges hchanges hchange, write, hread, howner, hmember⟩
  · intro other hother hpool hlisted
    have hcounts : other ∈ ledger.configRegs :=
      List.mem_filter.mpr ⟨hother, hpool.symm ▸ hlisted⟩
    exact of_decide_eq_true (List.all_eq_true.mp halone other hcounts) hpool
  · obtain ⟨creation, hcreation, hpool, hcreated⟩ := created_of_declared hlookup
    obtain ⟨changes, hchanges, hextracted⟩ := written creation hcreation
    obtain ⟨change, hchange, hcreation⟩ := (mem_extractConfigPools hextracted).2 hcreated
    exact ⟨change, mem_allChanges hchanges hchange, hpool ▸ hcreation⟩
  · obtain ⟨image, himage, hpool, himageConfig⟩ := config_of_declared hlookup
    obtain ⟨changes, hchanges, hextracted⟩ := written image himage
    obtain ⟨change, hchange, hwrite⟩ := (mem_extractConfigPools hextracted).1 config himageConfig
    exact ⟨change, mem_allChanges hchanges hchange, config, hpool ▸ hwrite⟩

/-! ## The rows of the admitted announcements -/

end PoolLedger

/-- The fee an `add_pool` event carries. -/
def PoolRegistration.feeBps (reg : PoolRegistration) : Option Int32 :=
  reg.event.initArgs.head?.bind parseI32

section

variable [Crates]

def PoolRegistration.legs (reg : PoolRegistration) (sacMap : Table Int64 Int64) : List Int64 :=
  reg.event.tokens.map (contractTokenAssetId · sacMap)

def PairRegistration.legs (reg : PairRegistration) (sacMap : Table Int64 Int64) : List Int64 :=
  [contractTokenAssetId reg.event.token0 sacMap, contractTokenAssetId reg.event.token1 sacMap]

def PoolConfig.legs (config : PoolConfig) (sacMap : Table Int64 Int64) : List Int64 :=
  [contractTokenAssetId config.tokenA sacMap, contractTokenAssetId config.tokenB sacMap]

theorem poolRegistryRow_eq_some {reg : PoolRegistration} {ledgerSequence : ℤ}
    {sacMap : Table Int64 Int64} {row : LiquidityPoolRow} :
    (poolRegistryRow reg.event reg.router ledgerSequence sacMap).toOption = some row ↔
      ∃ poolId fee, Ids.contractPayload reg.event.pool = some poolId ∧ reg.feeBps = some fee ∧
        row = sorobanPoolRow poolId fee ledgerSequence (reg.legs sacMap)
          (Ids.contractId reg.router) reg.event.poolType := by
  have hread : (poolRegistryRow reg.event reg.router ledgerSequence sacMap).toOption =
      (Ids.contractPayload reg.event.pool).bind fun poolId => reg.feeBps.bind fun fee =>
        some (sorobanPoolRow poolId fee ledgerSequence (reg.legs sacMap)
          (Ids.contractId reg.router) reg.event.poolType) := by
    simp only [poolRegistryRow, toOption_okOr_bind]
    rfl
  simp only [hread, Option.bind_eq_some_iff]
  constructor
  · rintro ⟨poolId, hpool, fee, hfee, hrow⟩
    exact ⟨poolId, fee, hpool, hfee, (Option.some.inj hrow).symm⟩
  · rintro ⟨poolId, fee, hpool, hfee, rfl⟩
    exact ⟨poolId, hpool, fee, hfee, rfl⟩

theorem factoryPairRegistryRow_eq_some {reg : PairRegistration} {ledgerSequence : ℤ}
    {sacMap : Table Int64 Int64} {row : LiquidityPoolRow} :
    (factoryPairRegistryRow reg ledgerSequence sacMap).toOption = some row ↔
      ∃ poolId, Ids.contractPayload reg.event.pair = some poolId ∧
        row = sorobanPoolRow poolId 30 ledgerSequence (reg.legs sacMap)
          (Ids.contractId reg.factory) "" := by
  simp only [factoryPairRegistryRow, toOption_okOr_bind, Option.bind_eq_some_iff]
  constructor
  · rintro ⟨poolId, hpool, hrow⟩
    exact ⟨poolId, hpool, (Option.some.inj hrow).symm⟩
  · rintro ⟨poolId, hpool, rfl⟩
    exact ⟨poolId, hpool, rfl⟩

theorem configPoolRegistryRow_eq_some {reg : ConfigPoolRegistration} {config : PoolConfig}
    {ledgerSequence : ℤ} {sacMap : Table Int64 Int64} {row : LiquidityPoolRow} :
    (configPoolRegistryRow reg config ledgerSequence sacMap).toOption = some row ↔
      ∃ poolId fee, Ids.contractPayload reg.pool = some poolId ∧
        i32TryFrom config.totalFeeBps = some fee ∧
        row = sorobanPoolRow poolId fee ledgerSequence (config.legs sacMap)
          (Ids.contractId reg.factory) (toString config.poolType) := by
  simp only [configPoolRegistryRow, toOption_okOr_bind, Option.bind_eq_some_iff]
  constructor
  · rintro ⟨poolId, hpool, fee, hfee, hrow⟩
    exact ⟨poolId, fee, hpool, hfee, (Option.some.inj hrow).symm⟩
  · rintro ⟨poolId, fee, hpool, hfee, rfl⟩
    exact ⟨poolId, hpool, fee, hfee, rfl⟩

namespace PoolLedger

variable {ledger : PoolLedger}

theorem mem_routerRows {row : LiquidityPoolRow} :
    row ∈ ledger.routerRows ↔ ∃ reg ∈ detectPoolRegistrations ledger.events,
      ledger.admitsRouter reg ∧ ∃ poolId fee,
        Ids.contractPayload reg.event.pool = some poolId ∧ reg.feeBps = some fee ∧
        row = sorobanPoolRow poolId fee ledger.ledgerSequence.toNat (reg.legs ledger.sacMap)
          (Ids.contractId reg.router) reg.event.poolType := by
  simp only [routerRows, List.mem_filterMap, List.mem_filter, poolRegistryRow_eq_some, and_assoc]

theorem mem_pairRows {row : LiquidityPoolRow} :
    row ∈ ledger.pairRows ↔ ∃ reg ∈ detectPairRegistrations ledger.events,
      ledger.admitsPair reg ∧ ∃ poolId, Ids.contractPayload reg.event.pair = some poolId ∧
        row = sorobanPoolRow poolId 30 ledger.ledgerSequence.toNat (reg.legs ledger.sacMap)
          (Ids.contractId reg.factory) "" := by
  simp only [pairRows, List.mem_filterMap, List.mem_filter, factoryPairRegistryRow_eq_some,
    and_assoc]

/-- The row of a pool whose announcer alone lists it. -/
def IsConfigRow (ledger : PoolLedger) (reg : ConfigPoolRegistration)
    (row : LiquidityPoolRow) : Prop :=
  ∃ config, ledger.createdConfig reg.pool = some config ∧ ∃ poolId fee,
    Ids.contractPayload reg.pool = some poolId ∧ i32TryFrom config.totalFeeBps = some fee ∧
    row = sorobanPoolRow poolId fee ledger.ledgerSequence.toNat (config.legs ledger.sacMap)
      (Ids.contractId reg.factory) (toString config.poolType)

theorem IsConfigRow.congr {reg other : ConfigPoolRegistration} {row : LiquidityPoolRow}
    (h : ledger.IsConfigRow reg row) (hpool : other.pool = reg.pool)
    (hfactory : other.factory = reg.factory) : ledger.IsConfigRow other row := by
  obtain ⟨config, hconfig, poolId, fee, hpayload, hfee, hrow⟩ := h
  exact ⟨config, hpool ▸ hconfig, poolId, fee, hpool ▸ hpayload, hfee, hfactory ▸ hrow⟩

/-- Leaving later announcements of a pool out leaves out no row: they come from the
same announcer. -/
theorem mem_configRowsFrom {regs : List ConfigPoolRegistration} {row : LiquidityPoolRow}
    (hregs : ∀ reg ∈ regs, reg ∈ ledger.configRegs) (staged : List String) :
    row ∈ ledger.configRowsFrom staged regs ↔
      ∃ reg ∈ regs, ledger.uncontested reg ∧ reg.pool ∉ staged ∧ ledger.IsConfigRow reg row := by
  induction regs generalizing staged with
  | nil => simp [configRowsFrom]
  | cons reg rest ih =>
      have ih := ih fun other hother => hregs other (List.mem_cons_of_mem _ hother)
      unfold configRowsFrom
      by_cases hskip : ¬ ledger.uncontested reg ∨ reg.pool ∈ staged
      · rw [if_pos hskip, ih]
        constructor
        · rintro ⟨other, hother, hrow⟩
          exact ⟨other, List.mem_cons_of_mem _ hother, hrow⟩
        · rintro ⟨other, hother, halone, hfresh, hrow⟩
          rcases List.mem_cons.mp hother with rfl | hother
          · exact absurd hskip (by simp [halone, hfresh])
          · exact ⟨other, hother, halone, hfresh, hrow⟩
      · have hread : row ∈ ((do
            let config ← ledger.createdConfig reg.pool
            (configPoolRegistryRow reg config ledger.ledgerSequence.toNat
              ledger.sacMap).toOption).toList) ↔ ledger.IsConfigRow reg row := by
          simp only [Option.mem_toList, Option.bind_eq_bind, Option.bind_eq_some_iff,
            configPoolRegistryRow_eq_some]
          rfl
        push Not at hskip
        rw [if_neg (by simpa using hskip), List.mem_append, hread, ih]
        constructor
        · rintro (hrow | ⟨other, hother, halone, hfresh, hrow⟩)
          · exact ⟨reg, List.mem_cons_self, hskip.1, hskip.2, hrow⟩
          · exact ⟨other, List.mem_cons_of_mem _ hother, halone,
              fun hmem => hfresh (List.mem_cons_of_mem _ hmem), hrow⟩
        · rintro ⟨other, hother, halone, hfresh, hrow⟩
          by_cases hpool : other.pool = reg.pool
          · -- an announcement that is alone shares its announcer with the others
            have hfactory : reg.factory = other.factory :=
              of_decide_eq_true (List.all_eq_true.mp halone reg (hregs reg List.mem_cons_self))
                hpool.symm
            exact .inl (hrow.congr hpool.symm hfactory)
          · rcases List.mem_cons.mp hother with rfl | hother
            · exact absurd rfl hpool
            · exact .inr ⟨other, hother, halone, by simp [hpool, hfresh], hrow⟩

theorem mem_configRows {row : LiquidityPoolRow} :
    row ∈ ledger.configRows ↔
      ∃ reg ∈ ledger.configRegs, ledger.uncontested reg ∧ ledger.IsConfigRow reg row := by
  simp [configRows, mem_configRowsFrom (fun _ => id)]

/-- A row of pool P under deployment D stands on P's own entries of the ledger. -/
theorem registryRows_backed (ledger : PoolLedger) {row : LiquidityPoolRow}
    (h : row ∈ ledger.registryRows) :
    ∃ pool deployment poolId, Ids.contractPayload pool = some poolId ∧
      row.poolId = poolId.bytes ∧ row.deploymentId = Ids.contractId deployment ∧
      ledger.Backing ledger.WroteConfig pool deployment := by
  unfold registryRows at h
  rcases List.mem_append.mp h with h | h
  · rcases List.mem_append.mp h with h | h
    · obtain ⟨reg, hreg, hadmits, poolId, fee, hpayload, -, rfl⟩ := mem_routerRows.mp h
      exact ⟨_, _, poolId, hpayload, rfl, rfl, backing_of_admitsRouter hreg hadmits⟩
    · obtain ⟨reg, hreg, hadmits, poolId, hpayload, rfl⟩ := mem_pairRows.mp h
      exact ⟨_, _, poolId, hpayload, rfl, rfl, backing_of_admitsPair hreg hadmits⟩
  · obtain ⟨reg, hreg, halone, config, hconfig, poolId, fee, hpayload, -, rfl⟩ :=
      mem_configRows.mp h
    exact ⟨_, _, poolId, hpayload, rfl, rfl, backing_of_createdConfig hreg halone hconfig⟩

/-! ### A ledger that creates a pool without a word on its factory -/

end PoolLedger

end

section

open Crates (pinned)

def pinnedFactory : String := "CCSNFZ5RA2EHTSMK2A5ZDXRCAQBYBVFAPJFNWP5BJECLIL4J5UBLLUQG"

def pinnedPool : String := "CA4QICK4VJWTAEFPBLUIHFO7PYIPHX7RCP53YR2OJXJHC7SQ74F62IF6"

def addressJson (strkey : String) : Json := typedJson "address" (.str strkey)

def symJson (name : String) : Json := typedJson "sym" (.str name)

def entryJson (key value : Json) : Json := .obj [("key", key), ("value", value)]

/-- A created entry of a contract. -/
def createdEntry (owner : String) (key val : Json) : ExtractedLedgerEntryChange where
  transactionHash := ""
  changeType := "created"
  entryType := "contract_data"
  key := .obj [("contract", .str owner), ("key", key)]
  data := some (.obj [("val", val)])
  changeIndex := 0
  operationIndex := none
  ledgerSequence := 64030567
  createdAt := 0

def createdInstance (owner : String) (storage : Json) : ExtractedLedgerEntryChange :=
  createdEntry owner (typedJson "ledger_key_contract_instance" .null)
    (typedJson "contract_instance" (.obj [("storage", storage)]))

def emittedEvent (emitter : String) (topics : List Json) (data : Json) : ExtractedEvent where
  transactionHash := ""
  eventId := ⟨64030567, 1, 0, 0⟩
  origin := .operation 0
  body := ⟨.contract, some emitter, .arr topics, data⟩
  createdAt := 0

/-- The factory announces the pool and lists it; the pool's configuration is an entry
of its own, and its instance holds nothing. -/
def configPoolCreation : PoolLedger where
  ledgerSequence := 64030567
  events := [("", [emittedEvent pinnedFactory
    [typedJson "string" (.str "create"), typedJson "string" (.str "liquidity_pool")]
    (addressJson pinnedPool)])]
  changes := [[
    createdInstance pinnedPool .null,
    createdEntry pinnedPool (symJson "CONFIG") (typedJson "map" (.arr [
      entryJson (symJson "token_a") (addressJson pinnedFactory),
      entryJson (symJson "token_b") (addressJson pinnedFactory),
      entryJson (symJson "share_token") (addressJson pinnedFactory),
      entryJson (symJson "pool_type") (typedJson "u32" (.num 0)),
      entryJson (symJson "total_fee_bps") (typedJson "i64" (.num 30))])),
    createdEntry pinnedFactory (typedJson "u32" (.num 2))
      (typedJson "vec" (.arr [addressJson pinnedPool]))]]
  sacMap := ∅

namespace PoolLedger

theorem registryRows_backed_config :
    let _ : Crates := pinned
    ∃ row ∈ configPoolCreation.registryRows,
      ∃ pool deployment poolId, Ids.contractPayload pool = some poolId ∧
        row.poolId = poolId.bytes ∧ row.deploymentId = Ids.contractId deployment ∧
        configPoolCreation.Backing configPoolCreation.WroteConfig pool deployment := by
  intro _
  obtain ⟨row, hrow⟩ := List.exists_mem_of_ne_nil configPoolCreation.registryRows (by decide +kernel)
  exact ⟨row, hrow, registryRows_backed configPoolCreation hrow⟩

/-- The storage of a contract's instance carries a configuration. -/
def InstanceCarriesConfig (ledger : PoolLedger) (contract : String) : Prop :=
  ∃ change ∈ ledger.allChanges, ∃ entries, InstanceWrite change contract entries ∧
    ∃ entry ∈ entries, ∃ value, entry.get? "value" = some value ∧ (parsePoolConfig value).isSome

/-- The instance of a pool that is registered by its configuration carries none. -/
theorem not_registryRows_instanceCarriesConfig :
    ¬ ∀ (_ : Crates) (ledger : PoolLedger), ∀ row ∈ ledger.registryRows,
      ∃ pool deployment poolId, Ids.contractPayload pool = some poolId ∧
        row.poolId = poolId.bytes ∧ row.deploymentId = Ids.contractId deployment ∧
        ledger.Backing ledger.InstanceCarriesConfig pool deployment := by
  intro hclaim
  let _ : Crates := pinned
  obtain ⟨row, hrow⟩ := List.exists_mem_of_ne_nil configPoolCreation.registryRows (by decide +kernel)
  obtain ⟨pool, deployment, -, -, -, -, hbacking⟩ := hclaim pinned configPoolCreation row hrow
  have hempty : ∀ change ∈ configPoolCreation.allChanges,
      (instanceStorage change).bind (·.2.asArray) = none := by decide
  -- no change of the ledger writes an instance
  have hno : ∀ change ∈ configPoolCreation.allChanges, ∀ contract entries,
      ¬ InstanceWrite change contract entries := by
    intro change hchange contract entries hwrite
    obtain ⟨storage, hstorage, harray⟩ := hwrite.storage
    have hnone := hempty change hchange
    rw [hstorage, Option.bind_some, harray] at hnone
    cases hnone
  cases hbacking with
  | router reg _ _ _ named =>
      obtain ⟨change, hchange, entries, hwrite, -⟩ := named.written
      exact hno change hchange _ _ hwrite
  | routerless reg _ _ _ unnamed _ =>
      obtain ⟨image, hnewest, -⟩ := unnamed
      obtain ⟨-, change, hchange, entries, hwrite, -⟩ := mem_of_newestInstance hnewest
      exact hno change hchange _ _ hwrite
  | pair reg _ _ _ named _ =>
      obtain ⟨image, -, -, -, -, change, hchange, entries, hwrite, -⟩ := named
      exact hno change hchange _ _ hwrite
  | config reg _ _ _ _ _ configured =>
      obtain ⟨change, hchange, entries, hwrite, -⟩ := configured
      exact hno change hchange _ _ hwrite

end PoolLedger

end

section

variable [Crates]

namespace PoolLedger

variable {ledger : PoolLedger}

/-! ## One attribution a pool -/

/-- Two rows say the same of their pool. -/
structure SameAttribution (row other : LiquidityPoolRow) : Prop where
  deploymentId : row.deploymentId = other.deploymentId
  legs : row.legs = other.legs
  feeBps : row.feeBps = other.feeBps
  poolTypeRaw : row.poolTypeRaw = other.poolTypeRaw

omit [Crates] in
theorem SameAttribution.symm {row other : LiquidityPoolRow} (h : SameAttribution row other) :
    SameAttribution other row :=
  ⟨h.deploymentId.symm, h.legs.symm, h.feeBps.symm, h.poolTypeRaw.symm⟩

/-- All rows of one pool say the same of it. -/
def OneAttribution (ledger : PoolLedger) : Prop :=
  ∀ row ∈ ledger.registryRows, ∀ other ∈ ledger.registryRows, row.poolId = other.poolId →
    SameAttribution row other

section

variable (ledger : PoolLedger)

/-- The `add_pool` announcements that their pool does not contradict and that carry a
pool address and a fee. -/
def routerRegs : List PoolRegistration :=
  (detectPoolRegistrations ledger.events).filter fun reg => ledger.admitsRouter reg ∧
    (Ids.contractPayload reg.event.pool).isSome ∧ reg.feeBps.isSome

/-- The `new_pair` announcements their pair bears out. -/
def pairRegs : List PairRegistration :=
  (detectPairRegistrations ledger.events).filter fun reg => ledger.admitsPair reg ∧
    (Ids.contractPayload reg.event.pair).isSome

/-- The pools without a word on their factory that one announcer lists, with the
configuration they were created with. -/
def configuredRegs : List (ConfigPoolRegistration × PoolConfig) :=
  (ledger.configRegs.filter fun reg => ledger.uncontested reg ∧
    (Ids.contractPayload reg.pool).isSome).filterMap fun reg => do
      let config ← ledger.createdConfig reg.pool
      guard (i32TryFrom config.totalFeeBps).isSome
      return (reg, config)

/-- The router a pool's instance names. -/
def namedRouter (pool : String) : Option String :=
  ((declaredRouter ledger.poolInstances).lookup pool).bind Prod.fst

/-- No two announcements that count contradict each other on a pool. -/
structure Undisputed : Prop where
  router : ∀ reg ∈ ledger.routerRegs, ∀ other ∈ ledger.routerRegs,
    reg.event.pool = other.event.pool →
      reg.event.poolType = other.event.poolType ∧ reg.feeBps = other.feeBps ∧
        reg.legs ledger.sacMap = other.legs ledger.sacMap ∧
        (ledger.namedRouter reg.event.pool = none →
          Ids.contractId reg.router = Ids.contractId other.router)
  pair : ∀ reg ∈ ledger.pairRegs,
    (∀ other ∈ ledger.routerRegs, other.event.pool ≠ reg.event.pair) ∧
      ∀ other ∈ ledger.configuredRegs, other.1.pool ≠ reg.event.pair
  config : ∀ reg ∈ ledger.routerRegs, ∀ other ∈ ledger.configuredRegs,
    reg.event.pool = other.1.pool →
      reg.event.poolType = toString other.2.poolType ∧
        reg.feeBps = i32TryFrom other.2.totalFeeBps ∧
        reg.legs ledger.sacMap = other.2.legs ledger.sacMap ∧
        Ids.contractId reg.router = Ids.contractId other.1.factory

end

/-- A row of a router's announcement. -/
def IsRouterRow (ledger : PoolLedger) (reg : PoolRegistration) (row : LiquidityPoolRow) : Prop :=
  ∃ poolId fee, Ids.contractPayload reg.event.pool = some poolId ∧ reg.feeBps = some fee ∧
    row = sorobanPoolRow poolId fee ledger.ledgerSequence.toNat (reg.legs ledger.sacMap)
      (Ids.contractId reg.router) reg.event.poolType

/-- A row of a pair. -/
def IsPairRow (ledger : PoolLedger) (reg : PairRegistration) (row : LiquidityPoolRow) : Prop :=
  ∃ poolId, Ids.contractPayload reg.event.pair = some poolId ∧
    row = sorobanPoolRow poolId 30 ledger.ledgerSequence.toNat (reg.legs ledger.sacMap)
      (Ids.contractId reg.factory) ""

/-- A row of a pool with this configuration. -/
def IsConfiguredRow (ledger : PoolLedger) (reg : ConfigPoolRegistration × PoolConfig)
    (row : LiquidityPoolRow) : Prop :=
  ∃ poolId fee, Ids.contractPayload reg.1.pool = some poolId ∧
    i32TryFrom reg.2.totalFeeBps = some fee ∧
    row = sorobanPoolRow poolId fee ledger.ledgerSequence.toNat (reg.2.legs ledger.sacMap)
      (Ids.contractId reg.1.factory) (toString reg.2.poolType)

theorem mem_routerRegs {reg : PoolRegistration} :
    reg ∈ ledger.routerRegs ↔ (reg ∈ detectPoolRegistrations ledger.events ∧
      ledger.admitsRouter reg) ∧ ∃ row, ledger.IsRouterRow reg row := by
  rw [routerRegs, List.mem_filter, decide_eq_true_eq, and_assoc]
  refine and_congr_right fun _ => and_congr_right fun _ => ?_
  rw [Option.isSome_iff_exists, Option.isSome_iff_exists]
  constructor
  · rintro ⟨⟨poolId, hpool⟩, fee, hfee⟩
    exact ⟨_, poolId, fee, hpool, hfee, rfl⟩
  · rintro ⟨row, poolId, fee, hpool, hfee, -⟩
    exact ⟨⟨poolId, hpool⟩, fee, hfee⟩

theorem mem_pairRegs {reg : PairRegistration} :
    reg ∈ ledger.pairRegs ↔ (reg ∈ detectPairRegistrations ledger.events ∧
      ledger.admitsPair reg) ∧ ∃ row, ledger.IsPairRow reg row := by
  rw [pairRegs, List.mem_filter, decide_eq_true_eq, and_assoc]
  refine and_congr_right fun _ => and_congr_right fun _ => ?_
  rw [Option.isSome_iff_exists]
  constructor
  · rintro ⟨poolId, hpool⟩
    exact ⟨_, poolId, hpool, rfl⟩
  · rintro ⟨row, poolId, hpool, -⟩
    exact ⟨poolId, hpool⟩

theorem mem_configuredRegs {reg : ConfigPoolRegistration} {config : PoolConfig} :
    (reg, config) ∈ ledger.configuredRegs ↔ (reg ∈ ledger.configRegs ∧ ledger.uncontested reg ∧
      ledger.createdConfig reg.pool = some config) ∧
      ∃ row, ledger.IsConfiguredRow (reg, config) row := by
  simp only [configuredRegs, List.mem_filterMap, List.mem_filter, decide_eq_true_eq,
    Option.bind_eq_bind, Option.bind_eq_some_iff, Option.guard_eq_some', Option.pure_def,
    Option.some.injEq, Prod.mk.injEq, Option.isSome_iff_exists]
  constructor
  · rintro ⟨_, ⟨hreg, halone, poolId, hpool⟩, _, hconfig, -, ⟨fee, hfee⟩, rfl, rfl⟩
    exact ⟨⟨hreg, halone, hconfig⟩, _, poolId, fee, hpool, hfee, rfl⟩
  · rintro ⟨⟨hreg, halone, hconfig⟩, row, poolId, fee, hpool, hfee, -⟩
    exact ⟨reg, ⟨hreg, halone, poolId, hpool⟩, config, hconfig, (), ⟨fee, hfee⟩, rfl, rfl⟩

/-- A registry row is a row of an announcement that counts. -/
theorem mem_registryRows {row : LiquidityPoolRow} :
    row ∈ ledger.registryRows ↔ (∃ reg ∈ ledger.routerRegs, ledger.IsRouterRow reg row) ∨
      (∃ reg ∈ ledger.pairRegs, ledger.IsPairRow reg row) ∨
      ∃ reg ∈ ledger.configuredRegs, ledger.IsConfiguredRow reg row := by
  rw [registryRows, List.append_assoc, List.mem_append, List.mem_append, mem_routerRows,
    mem_pairRows, mem_configRows]
  refine or_congr ?_ (or_congr ?_ ?_)
  · constructor
    · rintro ⟨reg, hreg, hadmits, hrow⟩
      exact ⟨reg, mem_routerRegs.mpr ⟨⟨hreg, hadmits⟩, row, hrow⟩, hrow⟩
    · rintro ⟨reg, hreg, hrow⟩
      obtain ⟨⟨hreg, hadmits⟩, -⟩ := mem_routerRegs.mp hreg
      exact ⟨reg, hreg, hadmits, hrow⟩
  · constructor
    · rintro ⟨reg, hreg, hadmits, hrow⟩
      exact ⟨reg, mem_pairRegs.mpr ⟨⟨hreg, hadmits⟩, row, hrow⟩, hrow⟩
    · rintro ⟨reg, hreg, hrow⟩
      obtain ⟨⟨hreg, hadmits⟩, -⟩ := mem_pairRegs.mp hreg
      exact ⟨reg, hreg, hadmits, hrow⟩
  · constructor
    · rintro ⟨reg, hreg, halone, config, hconfig, hrow⟩
      exact ⟨(reg, config), mem_configuredRegs.mpr ⟨⟨hreg, halone, hconfig⟩, row, hrow⟩, hrow⟩
    · rintro ⟨⟨reg, config⟩, hreg, hrow⟩
      obtain ⟨⟨hreg, halone, hconfig⟩, -⟩ := mem_configuredRegs.mp hreg
      exact ⟨reg, hreg, halone, config, hconfig, hrow⟩

/-- A router's pool has a type, and a pair none. -/
theorem poolType_ne_empty {reg : PoolRegistration} (h : reg ∈ ledger.routerRegs) :
    reg.event.poolType ≠ "" := by
  obtain ⟨⟨hreg, -⟩, -⟩ := mem_routerRegs.mp h
  obtain ⟨transaction, -, hevents⟩ := List.mem_flatMap.mp hreg
  obtain ⟨event, -, hread⟩ := List.mem_filterMap.mp hevents
  simp only [Option.bind_eq_bind, Option.bind_eq_some_iff, Option.pure_def,
    Option.some.injEq] at hread
  obtain ⟨emitter, -, parsed, hparse, rfl⟩ := hread
  exact parseAddPool_poolType hparse

omit [Crates] in
theorem toString_poolType_ne_empty (poolType : ℕ) : toString poolType ≠ "" := by
  intro h
  have hlist := congrArg String.toList h
  simp only [Nat.toString_eq_repr, Nat.toList_repr] at hlist
  exact Nat.toDigits_ne_nil hlist

/-- Two announcements of one pool that its instance does not contradict come from one
router, if the instance names one. -/
theorem router_eq_of_named {reg other : PoolRegistration} (hreg : reg ∈ ledger.routerRegs)
    (hother : other ∈ ledger.routerRegs) (hpool : reg.event.pool = other.event.pool)
    (hnamed : ledger.namedRouter reg.event.pool ≠ none) : reg.router = other.router := by
  have named : ∀ reg ∈ ledger.routerRegs, ledger.namedRouter reg.event.pool ≠ none →
      ledger.namedRouter reg.event.pool = some reg.router := by
    intro reg hreg hnamed
    obtain ⟨⟨-, hadmits⟩, -⟩ := mem_routerRegs.mp hreg
    unfold namedRouter at hnamed ⊢
    rcases admitsRouter_iff.mp hadmits with ⟨created, hlookup⟩ | hlookup
    · rw [hlookup]
      rfl
    · rw [hlookup] at hnamed
      exact absurd rfl hnamed
  have hrouter := (named reg hreg hnamed).symm.trans (hpool ▸ named other hother (hpool ▸ hnamed))
  exact Option.some.inj hrouter

/-- Two admitted announcements of one pair are the same but for the factory's count. -/
theorem eq_of_pairRegs {reg other : PairRegistration} (hreg : reg ∈ ledger.pairRegs)
    (hother : other ∈ ledger.pairRegs) (hpair : reg.event.pair = other.event.pair) :
    reg.factory = other.factory ∧ reg.event.token0 = other.event.token0 ∧
      reg.event.token1 = other.event.token1 := by
  obtain ⟨⟨-, hadmits⟩, -⟩ := mem_pairRegs.mp hreg
  obtain ⟨⟨-, hadmits'⟩, -⟩ := mem_pairRegs.mp hother
  have hword := (admitsPair_iff.mp hadmits).symm.trans
    (hpair ▸ admitsPair_iff.mp hadmits')
  simpa using hword

/-- One announcer alone lists a pool, and its configuration is the last one written. -/
theorem eq_of_configuredRegs {reg other : ConfigPoolRegistration × PoolConfig}
    (hreg : reg ∈ ledger.configuredRegs) (hother : other ∈ ledger.configuredRegs)
    (hpool : reg.1.pool = other.1.pool) :
    reg.1.factory = other.1.factory ∧ reg.2 = other.2 := by
  obtain ⟨⟨-, -, hconfig⟩, -⟩ := mem_configuredRegs.mp hreg
  obtain ⟨⟨hcounts, halone, hconfig'⟩, -⟩ := mem_configuredRegs.mp hother
  obtain ⟨⟨hcounts, -, -⟩, -⟩ := mem_configuredRegs.mp hreg
  have hfactory := of_decide_eq_true (List.all_eq_true.mp halone reg.1 hcounts) hpool
  exact ⟨hfactory, Option.some.inj (hconfig.symm.trans (hpool ▸ hconfig'))⟩

/-- Rows that agree contradict no announcement they are rows of. -/
theorem Undisputed.of_oneAttribution (h : ledger.OneAttribution) : ledger.Undisputed where
  router := by
    intro reg hreg other hother hpool
    obtain ⟨-, row, hrow⟩ := mem_routerRegs.mp hreg
    obtain ⟨-, row', hrow'⟩ := mem_routerRegs.mp hother
    have hmem := mem_registryRows.mpr (.inl ⟨reg, hreg, hrow⟩)
    have hmem' := mem_registryRows.mpr (.inl ⟨other, hother, hrow'⟩)
    obtain ⟨poolId, fee, hpayload, hfee, rfl⟩ := hrow
    obtain ⟨poolId', fee', hpayload', hfee', rfl⟩ := hrow'
    obtain rfl := Option.some.inj ((hpool ▸ hpayload).symm.trans hpayload')
    -- both announcements are staged, so their rows agree
    have hsame := h _ hmem _ hmem' rfl
    refine ⟨hsame.poolTypeRaw, ?_, hsame.legs, fun _ => hsame.deploymentId⟩
    rw [hfee, hfee']
    exact congrArg some hsame.feeBps
  pair := by
    intro reg hreg
    obtain ⟨-, row, hrow⟩ := mem_pairRegs.mp hreg
    have hmem := mem_registryRows.mpr (.inr (.inl ⟨reg, hreg, hrow⟩))
    obtain ⟨poolId, hpayload, rfl⟩ := hrow
    constructor
    · intro other hother hpool
      obtain ⟨-, row', hrow'⟩ := mem_routerRegs.mp hother
      have hmem' := mem_registryRows.mpr (.inl ⟨other, hother, hrow'⟩)
      obtain ⟨poolId', fee', hpayload', -, rfl⟩ := hrow'
      obtain rfl := Option.some.inj ((hpool ▸ hpayload').symm.trans hpayload)
      exact poolType_ne_empty hother (h _ hmem' _ hmem rfl).poolTypeRaw
    · intro other hother hpool
      obtain ⟨-, row', hrow'⟩ := mem_configuredRegs.mp hother
      have hmem' := mem_registryRows.mpr (.inr (.inr ⟨other, hother, hrow'⟩))
      obtain ⟨poolId', fee', hpayload', -, rfl⟩ := hrow'
      obtain rfl := Option.some.inj ((hpool ▸ hpayload').symm.trans hpayload)
      exact toString_poolType_ne_empty _ (h _ hmem' _ hmem rfl).poolTypeRaw
  config := by
    intro reg hreg other hother hpool
    obtain ⟨-, row, hrow⟩ := mem_routerRegs.mp hreg
    obtain ⟨-, row', hrow'⟩ := mem_configuredRegs.mp hother
    have hmem := mem_registryRows.mpr (.inl ⟨reg, hreg, hrow⟩)
    have hmem' := mem_registryRows.mpr (.inr (.inr ⟨other, hother, hrow'⟩))
    obtain ⟨poolId, fee, hpayload, hfee, rfl⟩ := hrow
    obtain ⟨poolId', fee', hpayload', hfee', rfl⟩ := hrow'
    obtain rfl := Option.some.inj ((hpool ▸ hpayload).symm.trans hpayload')
    have hsame := h _ hmem _ hmem' rfl
    refine ⟨hsame.poolTypeRaw, ?_, hsame.legs, hsame.deploymentId⟩
    rw [hfee, hfee']
    exact congrArg some hsame.feeBps

section

-- an address is read in one spelling
variable (hstrkey : ∀ (strkey other : String) (id : Hash),
  Ids.contractPayload strkey = some id → Ids.contractPayload other = some id → strkey = other)

include hstrkey in
theorem Undisputed.sameAttribution_router (h : ledger.Undisputed)
    {reg : PoolRegistration} (hreg : reg ∈ ledger.routerRegs) {row : LiquidityPoolRow}
    (hrow : ledger.IsRouterRow reg row) {other : LiquidityPoolRow}
    (hother : other ∈ ledger.registryRows) (hpool : row.poolId = other.poolId) :
    SameAttribution row other := by
  obtain ⟨poolId, fee, hpayload, hfee, rfl⟩ := hrow
  rcases mem_registryRows.mp hother with ⟨reg', hreg', hrow'⟩ | ⟨reg', hreg', hrow'⟩ |
    ⟨reg', hreg', hrow'⟩
  · obtain ⟨poolId', fee', hpayload', hfee', rfl⟩ := hrow'
    obtain rfl := Hash.bytes_injective hpool
    have hsame := hstrkey _ _ _ hpayload hpayload'
    obtain ⟨htype, hfees, hlegs, hunnamed⟩ := h.router reg hreg reg' hreg' hsame
    have hdeployment : Ids.contractId reg.router = Ids.contractId reg'.router := by
      by_cases hnamed : ledger.namedRouter reg.event.pool = none
      · exact hunnamed hnamed
      · rw [router_eq_of_named hreg hreg' hsame hnamed]
    rw [hfee, hfee'] at hfees
    exact ⟨hdeployment, hlegs, Option.some.inj hfees, htype⟩
  · obtain ⟨poolId', hpayload', rfl⟩ := hrow'
    obtain rfl := Hash.bytes_injective hpool
    exact absurd (hstrkey _ _ _ hpayload hpayload') ((h.pair reg' hreg').1 reg hreg)
  · obtain ⟨poolId', fee', hpayload', hfee', rfl⟩ := hrow'
    obtain rfl := Hash.bytes_injective hpool
    have hsame := hstrkey _ _ _ hpayload hpayload'
    obtain ⟨htype, hfees, hlegs, hdeployment⟩ := h.config reg hreg reg' hreg' hsame
    rw [hfee, hfee'] at hfees
    exact ⟨hdeployment, hlegs, Option.some.inj hfees, htype⟩

include hstrkey in
/-- Announcements that do not contradict each other leave rows that agree. -/
theorem Undisputed.oneAttribution (h : ledger.Undisputed) : ledger.OneAttribution := by
  intro row hrow other hother hpool
  rcases mem_registryRows.mp hrow with ⟨reg, hreg, hreads⟩ | hrow
  · exact h.sameAttribution_router hstrkey hreg hreads hother hpool
  rcases mem_registryRows.mp hother with ⟨reg', hreg', hreads'⟩ | hother
  · exact (h.sameAttribution_router hstrkey hreg' hreads'
      (mem_registryRows.mpr (.inr hrow)) hpool.symm).symm
  -- neither is a router's: the pair and the configuration gates settle their own pools
  rcases hrow with ⟨reg, hreg, poolId, hpayload, rfl⟩ | ⟨reg, hreg, poolId, fee, hpayload, hfee, rfl⟩
  · rcases hother with ⟨reg', hreg', poolId', hpayload', rfl⟩ |
      ⟨reg', hreg', poolId', fee', hpayload', hfee', rfl⟩
    · obtain rfl := Hash.bytes_injective hpool
      obtain ⟨hfactory, htoken0, htoken1⟩ :=
        eq_of_pairRegs hreg hreg' (hstrkey _ _ _ hpayload hpayload')
      refine ⟨congrArg Ids.contractId hfactory, ?_, rfl, rfl⟩
      show reg.legs ledger.sacMap = reg'.legs ledger.sacMap
      unfold PairRegistration.legs
      rw [htoken0, htoken1]
    · obtain rfl := Hash.bytes_injective hpool
      exact absurd (hstrkey _ _ _ hpayload' hpayload) ((h.pair reg hreg).2 reg' hreg')
  · rcases hother with ⟨reg', hreg', poolId', hpayload', rfl⟩ |
      ⟨reg', hreg', poolId', fee', hpayload', hfee', rfl⟩
    · obtain rfl := Hash.bytes_injective hpool
      exact absurd (hstrkey _ _ _ hpayload hpayload') ((h.pair reg' hreg').2 reg hreg)
    · obtain rfl := Hash.bytes_injective hpool
      obtain ⟨hfactory, hconfig⟩ :=
        eq_of_configuredRegs hreg hreg' (hstrkey _ _ _ hpayload hpayload')
      rw [hconfig] at hfee
      obtain rfl := Option.some.inj (hfee.symm.trans hfee')
      refine ⟨congrArg Ids.contractId hfactory, ?_, rfl, ?_⟩
      · exact congrArg (PoolConfig.legs · ledger.sacMap) hconfig
      · exact congrArg (toString ∘ PoolConfig.poolType) hconfig

end

/-- The rows of every pool agree exactly in the ledgers whose announcements do. -/
theorem oneAttribution_iff (hstrkey : ∀ (strkey other : String) (id : Hash),
      Ids.contractPayload strkey = some id → Ids.contractPayload other = some id → strkey = other)
    (ledger : PoolLedger) : ledger.OneAttribution ↔ ledger.Undisputed :=
  ⟨Undisputed.of_oneAttribution, Undisputed.oneAttribution hstrkey⟩

end PoolLedger

end

/-! ### A ledger whose router announces its pool at two fees -/

section

open Crates (pinned)

def addPool (fee : ℤ) : ExtractedEvent :=
  emittedEvent pinnedFactory
    [symJson "add_pool", typedJson "vec" (.arr [addressJson pinnedFactory])]
    (typedJson "vec" (.arr [addressJson pinnedPool, symJson "constant",
      typedJson "bytes" (.str ""), typedJson "vec" (.arr [typedJson "u32" (.num fee)])]))

/-- A router creates a pool that names it, and announces the pool once for each fee. -/
def routerPoolCreation (fees : List ℤ) : PoolLedger where
  ledgerSequence := 64030567
  events := [("", fees.map addPool)]
  changes := [[createdInstance pinnedPool (.arr [
    entryJson (typedJson "vec" (.arr [symJson "Plane"])) (addressJson pinnedFactory),
    entryJson (typedJson "vec" (.arr [symJson "Router"])) (addressJson pinnedFactory)])]]
  sacMap := ∅

theorem pinned_contractPayload {strkey : String} {id : Hash} :
    let _ : Crates := pinned
    Ids.contractPayload strkey = some id → (id, strkey) ∈ Crates.pinnedContractStrkeys := by
  intro _ h
  unfold Ids.contractPayload at h
  split at h
  · rename_i key hkey
    obtain rfl := Option.some.inj h
    have hread : (if strkey = Crates.pinnedAccountStrkey then
          some (Strkey.publicKeyEd25519 Crates.pinnedAccount)
        else (Crates.pinnedContractStrkeys.find? (·.2 = strkey)).map fun entry =>
          .contract entry.1) = some (.contract key) := hkey
    split at hread
    · cases hread
    · obtain ⟨entry, hentry, hcontract⟩ := Option.map_eq_some_iff.mp hread
      have hstrkey : entry.2 = strkey := by simpa using List.find?_some hentry
      have hmem := List.mem_of_find?_eq_some hentry
      rw [← Strkey.contract.inj hcontract, ← hstrkey]
      exact hmem
  · cases h

theorem pinned_contractPayload_inj :
    let _ : Crates := pinned
    ∀ (strkey other : String) (id : Hash), Ids.contractPayload strkey = some id →
      Ids.contractPayload other = some id → strkey = other := by
  intro _ strkey other id h hother
  have hspelled : ∀ entry ∈ Crates.pinnedContractStrkeys, ∀ entry' ∈ Crates.pinnedContractStrkeys,
      entry.1 = entry'.1 → entry.2 = entry'.2 := by decide
  exact hspelled _ (pinned_contractPayload h) _ (pinned_contractPayload hother) rfl

namespace PoolLedger

/-- The pool is announced twice, for the same fee: both rows say the same of it. -/
theorem oneAttribution_iff_twiceAnnounced :
    let _ : Crates := pinned
    (routerPoolCreation [30, 30]).registryRows.length = 2 ∧
      (routerPoolCreation [30, 30]).OneAttribution := by
  intro _
  refine ⟨by decide +kernel, (oneAttribution_iff pinned_contractPayload_inj _).mpr ?_⟩
  have hpairs : (routerPoolCreation [30, 30]).pairRegs = [] := by decide +kernel
  have hconfigured : (routerPoolCreation [30, 30]).configuredRegs = [] := by decide +kernel
  constructor
  · decide +kernel
  · rw [hpairs]
    exact fun reg hreg => absurd hreg List.not_mem_nil
  · rw [hconfigured]
    exact fun reg _ other hother => absurd hother List.not_mem_nil

/-- Both announcements pass, and their rows differ in the fee. -/
theorem not_oneAttribution_twoFees :
    ¬ ∀ (_ : Crates) (ledger : PoolLedger), ledger.OneAttribution := by
  intro hclaim
  let _ : Crates := pinned
  have hsame := hclaim pinned (routerPoolCreation [10, 30])
  have hfees : ∃ row ∈ (routerPoolCreation [10, 30]).registryRows,
      ∃ other ∈ (routerPoolCreation [10, 30]).registryRows,
        row.poolId = other.poolId ∧ row.feeBps ≠ other.feeBps := by decide +kernel
  obtain ⟨row, hrow, other, hother, hpool, hfee⟩ := hfees
  exact hfee (hsame row hrow other hother hpool).feeBps

end PoolLedger

end

end SorobanExplorer
