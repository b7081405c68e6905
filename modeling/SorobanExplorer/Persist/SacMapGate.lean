import SorobanExplorer.Persist.PoolMovementsSpec
import SorobanExplorer.Persist.SacStaging

/-!
# The gate of the map query

A write that the gate lets off the query persists the same rows with every map
(`persisted_of_sacClassicMapNeeded`).  Each table has an arm of the gate: without token
balances no balance row is keyed on the map, without an announcement there is no registry
row, and without an event of an amount's name nothing is decoded, whatever the pools.
-/

namespace SorobanExplorer

open KeepLast KeyedFold Persist StableSort

/-! ## Events without the name of an amount -/

/-- An event whose first topic is no name of an amount. -/
def NamesNoAmount (topics : List Json) : Prop :=
  ∀ name ∈ topics.head?.bind strValue, name ∉ poolAmountNames

theorem phoenixFieldEventName_mem {topics : List Json} {name : String}
    (h : phoenixFieldEventName topics = some name) :
    topics.head?.bind strValue = some name ∧ name ∈ poolAmountNames := by
  unfold phoenixFieldEventName at h
  split at h
  · split_ifs at h
    obtain ⟨hname, hknown⟩ := Option.filter_eq_some_iff.mp h
    refine ⟨hname, ?_⟩
    simp only [List.contains_iff_mem, List.mem_cons, List.not_mem_nil, or_false] at hknown
    rcases hknown with rfl | rfl | rfl <;> decide
  · cases h

theorem phoenixFieldEventName_of_namesNoAmount {topics : List Json} (h : NamesNoAmount topics) :
    phoenixFieldEventName topics = none := by
  by_contra hname
  obtain ⟨name, hname⟩ := Option.ne_none_iff_exists'.mp hname
  obtain ⟨hhead, hmem⟩ := phoenixFieldEventName_mem hname
  exact h name hhead hmem

section

variable [Crates]

theorem decodeWhole_of_namesNoAmount {topics : List Json} (h : NamesNoAmount topics) (data : Json)
    (pool : SorobanPool) (op : Int16 × UInt16) (sac : Table Int64 Int64) :
    decodeWhole topics data pool op sac = none := by
  have hname : ∀ name ∈ poolAmountNames, (topicNames topics).1 ≠ some name :=
    fun name hmem hname => h name hname hmem
  simp only [poolAmountNames, List.forall_mem_cons, List.not_mem_nil, false_imp_iff,
    implies_true, and_true] at hname
  obtain ⟨htrade, hswap, hdeposit, hwithdraw, hprovide, hpair⟩ := hname
  simp [decodeWhole, htrade, hswap, hdeposit, hwithdraw, hprovide, hpair]

/-- Nothing is decoded from events without the name of an amount. -/
theorem sorobanPoolAmountRows_of_namesNoAmount {events : List SorobanEventRow}
    (h : ∀ ev ∈ events, NamesNoAmount ev.topics) (pools : Table Int64 SorobanPool)
    (sac : Table Int64 Int64) : sorobanPoolAmountRows events pools sac = [] := by
  have hgrouping := steps_grouping (poolEvents events pools)
  have hquiet : ∀ step ∈ steps (poolEvents events pools), NamesNoAmount step.first.1.topics :=
    fun step hstep => h _ (first_of_mem_steps hstep).1
  refine List.flatMap_eq_nil_iff.mpr fun step hstep => ?_
  have hnone : step.decoded sac = none := by
    cases step with
    | passed ev => rfl
    | group name opener members =>
        -- A group is opened by the name of an amount.
        have hopened := (hgrouping.opened name opener members hstep).1
        have hclosed := phoenixFieldEventName_of_namesNoAmount (hquiet _ hstep)
        exact absurd (hopened.symm.trans hclosed) (Option.some_ne_none _)
    | whole ev data => exact decodeWhole_of_namesNoAmount (hquiet _ hstep) data _ _ sac
  rw [Step.push, Step.written, hnone]
  rfl

/-! ## The rows of a ledger's events -/

omit [Crates] in
theorem reread_eq_some {value read : Json} (h : value.reread = some read) : value = read := by
  unfold Json.reread at h
  split_ifs at h
  exact Option.some.inj h

/-- A row has the topics of an event, or none that can be read. -/
theorem topics_of_mem_eventRowsFrom {ledgerSequence : ℤ} {seenIds : List EventId}
    {placed : List (Int16 × String × ExtractedEvent)} {rows : List SorobanEventRow}
    (h : eventRowsFrom ledgerSequence seenIds placed = .ok rows) {row : SorobanEventRow}
    (hrow : row ∈ rows) :
    ∃ entry ∈ placed, row.topicsXdr = entry.2.2.body.topics.reread := by
  induction placed generalizing seenIds rows with
  | nil =>
      cases h
      cases hrow
  | cons entry rest ih =>
      unfold eventRowsFrom at h
      split_ifs at h
      obtain ⟨rows', hrest, h⟩ := Traverse.bind_eq_ok_iff.mp h
      cases h
      rcases List.mem_append.mp hrow with hrow | hrow
      · obtain ⟨contract, -, rfl⟩ := Option.map_eq_some_iff.mp (Option.mem_toList.mp hrow)
        exact ⟨entry, List.mem_cons_self, rfl⟩
      · obtain ⟨other, hother, htopics⟩ := ih hrest hrow
        exact ⟨other, List.mem_cons_of_mem _ hother, htopics⟩

theorem namesNoAmount_of_carriesPoolAmounts {ledgerSequence : ℤ} {orders : Table String Int16}
    {events : List (String × List ExtractedEvent)} {rows : List SorobanEventRow}
    (hcarries : carriesPoolAmounts events = false)
    (h : stagedEventRows ledgerSequence orders events = .ok rows) :
    ∀ row ∈ rows, NamesNoAmount row.topics := by
  intro row hrow name hname hmem
  obtain ⟨⟨order, hash, ev⟩, hplaced, htopics⟩ := topics_of_mem_eventRowsFrom h hrow
  obtain ⟨transaction, htransaction, hev⟩ := List.mem_flatMap.mp hplaced
  have hev : ev ∈ transaction.2 := by
    simp only at hev
    cases horder : orders.lookup transaction.1 with
    | none => simp [horder] at hev
    | some order =>
        simp only [horder, List.mem_map, Prod.mk.injEq] at hev
        obtain ⟨ev, hev, -, -, rfl⟩ := hev
        exact hev
  -- the stored topics are read back as the gate reads the event's
  have hread : (ev.body.topics.asArray.bind List.head?).bind strValue = some name := by
    unfold SorobanEventRow.topics at hname
    cases hreread : ev.body.topics.reread with
    | none =>
        rw [htopics, hreread] at hname
        cases hname
    | some topics =>
        rw [htopics, hreread, ← reread_eq_some hreread] at hname
        cases helements : ev.body.topics.asArray with
        | none => simp [helements] at hname
        | some elements => simpa [helements] using hname
  refine absurd hcarries (ne_false_of_eq_true (List.any_eq_true.mpr ⟨transaction, htransaction,
    List.any_eq_true.mpr ⟨ev, hev, ?_⟩⟩))
  rw [hread]
  exact List.contains_iff_mem.mpr hmem

/-! ## Ledgers without announcements -/

theorem registryRows_of_registersSorobanPools {ledger : PoolLedger}
    (h : registersSorobanPools ledger.events = false) : ledger.registryRows = [] := by
  simp only [registersSorobanPools, Bool.or_eq_false_iff, Bool.not_eq_false',
    List.isEmpty_iff] at h
  obtain ⟨⟨hrouter, hpair⟩, hconfig⟩ := h
  simp [PoolLedger.registryRows, PoolLedger.routerRows, PoolLedger.pairRows,
    PoolLedger.configRows, PoolLedger.configRegs, PoolLedger.configRowsFrom, hrouter, hpair,
    hconfig]

/-! ## The gate -/

namespace StageInputs

/-- The tables a write persists are the same with every map, unless the gate asks for
the map. -/
theorem persisted_stagedTables {inputs : StageInputs} {persists : StreamTable → Bool}
    (hgate : sacClassicMapNeeded inputs.sorobanTokenBalances inputs.events (persists .balances)
      (persists .poolMovements) = false) {parts : StagedParts}
    (hparts : inputs.stagedParts = .ok parts) (sacClassic sacClassic' : Table Int64 Int64) :
    (inputs.stagedTables parts sacClassic).persisted persists =
      (inputs.stagedTables parts sacClassic').persisted persists := by
  simp only [sacClassicMapNeeded, Bool.or_eq_false_iff] at hgate
  obtain ⟨⟨hbalances, hregisters⟩, hmovements⟩ := hgate
  -- a table that is written has no row to key
  have hbalanceRows : ∀ sacMap : Table Int64 Int64, persists .balances →
      buildBalanceRows inputs.sorobanTokenBalances sacMap = [] := by
    intro sacMap hwrites
    rw [hwrites, Bool.true_and, Bool.not_eq_false', List.isEmpty_iff] at hbalances
    rw [hbalances]
    rfl
  have hregistryRows : ∀ sacMap : Table Int64 Int64,
      (inputs.poolLedger sacMap).registryRows = [] :=
    fun sacMap => registryRows_of_registersSorobanPools hregisters
  have hmovementRows : ∀ pools sac, persists .poolMovements →
      sorobanPoolAmountRows parts.eventRows pools sac = [] := by
    intro pools sac hwrites
    rw [hwrites, Bool.true_and] at hmovements
    obtain ⟨-, ⟨orders, hrows⟩, -⟩ := stagedParts_eq_ok hparts
    exact sorobanPoolAmountRows_of_namesNoAmount
      (namesNoAmount_of_carriesPoolAmounts hmovements hrows) pools sac
  simp only [StagedTables.persisted, stagedTables, StagedTables.mk.injEq]
  refine ⟨?_, ?_, ?_⟩
  · split_ifs with hwrites
    · rw [hbalanceRows _ hwrites, hbalanceRows _ hwrites]
    · rfl
  · rw [hregistryRows, hregistryRows]
  · split_ifs with hwrites
    · rw [hmovementRows _ _ hwrites, hmovementRows _ _ hwrites]
    · rfl

/-- A write the gate lets off persists the same rows with every map.  In particular the
query that is left out changes no row of any write. -/
theorem persisted_of_sacClassicMapNeeded (inputs : StageInputs) (persists : StreamTable → Bool) :
    let needed := sacClassicMapNeeded inputs.sorobanTokenBalances inputs.events
      (persists .balances) (persists .poolMovements)
    let written (sacClassic : Table Int64 Int64) :=
      (inputs.prepareWithSacOverrides sacClassic).map (·.persisted persists)
    (needed = false → ∀ sacClassic sacClassic', written sacClassic = written sacClassic') ∧
      ∀ query, written (fetchSacClassicMap needed query) = written query := by
  intro needed written
  have hsame : needed = false →
      ∀ sacClassic sacClassic', written sacClassic = written sacClassic' := by
    intro hgate sacClassic sacClassic'
    cases hparts : inputs.stagedParts with
    | error reason => simp only [written, prepareWithSacOverrides, hparts]; rfl
    | ok parts =>
        have htables := persisted_stagedTables hgate hparts sacClassic sacClassic'
        simp only [written, prepareWithSacOverrides, hparts]
        exact congrArg Except.ok htables
  refine ⟨hsame, fun query => ?_⟩
  cases hneeded : needed with
  | true => rfl
  | false => exact hsame hneeded _ _

end StageInputs

end

/-- A ledger in which a holder's balance of an asset contract changed, and nothing else. -/
def heldLedger : StageInputs where
  ledgerSequence := 60000000
  transactions := []
  events := [("aa", [{
    transactionHash := "aa"
    eventId := ⟨60000000, 1, 0, 0⟩
    origin := .operation 0
    body := {
      eventType := .contract
      contractId := some "CA4QICK4VJWTAEFPBLUIHFO7PYIPHX7RCP53YR2OJXJHC7SQ74F62IF6"
      topics := .arr [typedJson "sym" (.str "mint")]
      data := typedJson "i128" (.str "5") }
    createdAt := 0 }])]
  changes := []
  accountStates := []
  liquidityPools := []
  assets := []
  sorobanTokenBalances := [{
    contractId := "CA4QICK4VJWTAEFPBLUIHFO7PYIPHX7RCP53YR2OJXJHC7SQ74F62IF6"
    holder := "CDCN6G3FWWDP7I75YXQCUNJLZ34WO2C2ZNTX55ZUXZUWYJ6XV7DMMP7M"
    balance := 5
    ledger := 60000000
    closed := false }]
  assetTransfers := []

/-- The map says what the asset contract wraps; a write of the movements alone does not
need it. -/
theorem persisted_of_sacClassicMapNeeded_movements :
    let _ : Crates := Crates.pinned
    let onlyMovements (table : StreamTable) : Bool := table = .poolMovements
    let written (sacClassic : Table Int64 Int64) :=
      (heldLedger.prepareWithSacOverrides sacClassic).map (·.persisted onlyMovements)
    written (AList.insert 0 (-5142557507226545233) ∅) = written ∅ := by
  let _ : Crates := Crates.pinned
  exact (StageInputs.persisted_of_sacClassicMapNeeded heldLedger
    (fun table => table = .poolMovements)).1 (by decide +kernel) _ _

end SorobanExplorer
