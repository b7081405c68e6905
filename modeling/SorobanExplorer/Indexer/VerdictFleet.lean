import SorobanExplorer.Persist.ContractVerdictsSpec
import SorobanExplorer.Persist.ContractWrites

/-!
# Writers that classify contracts, side by side

Any number of writers persist ledgers at the same time, each with a cache that outlives a
ledger, in any order, and with requests that fail; ledgers are written again, and the rows of
a failed one may land later.  No type is stored or remembered that its contract did not earn
(`types_earned`), and once the marker of a ledger is there, its tokens are kept
(`nfts_kept`).
-/

namespace SorobanExplorer.ContractVerdicts

open Interaction KeyedFold NftReclassify Persist Relation Replacing Versioned

variable [Crates] {chain : Chain} {α : Type}

/-! ## Invariants -/

/-- Everything stored and everything sent is known from a ledger, and the tokens of every
ledger that has its marker are kept. -/
structure Warehouse.Sound (chain : Chain) (s : Warehouse) : Prop where
  rows : ∀ table, ∀ row ∈ s.rows table, Vouched chain table row
  sent : ∀ staged ∈ s.sent, staged.Faithful chain
  committed : ∀ n ∈ s.committed, Covers chain (chain.ledger n) s.rows

/-- A cache remembers earned types. -/
def Remembers (chain : Chain) (known : ClassificationCache) : Prop :=
  ∀ contractId type, known.lookup contractId = some type → Earned chain contractId type

open Warehouse

/-- One table changes: its rows are still held, and the new ones are known. -/
theorem Warehouse.Sound.withRows {s : Warehouse} (hs : s.Sound chain) {table : ContractTable}
    {rows : List table.Row} (hvouched : ∀ row ∈ rows, Vouched chain table row)
    (hheld : ∀ row ∈ s.rows table, Held table.key table.version rows row) :
    (s.withRows table rows).Sound chain where
  rows := by
    intro other row hrow
    by_cases hother : other = table
    · subst hother
      rw [rows_withRows_self] at hrow
      exact hvouched row hrow
    · rw [rows_withRows_of_ne hother] at hrow
      exact hs.rows other row hrow
  sent := hs.sent
  committed := by
    intro n hn
    refine (hs.committed n hn).mono fun other row hrow => ?_
    by_cases hother : other = table
    · subst hother
      rw [rows_withRows_self]
      exact hheld row hrow
    · rw [rows_withRows_of_ne hother]
      exact held_of_mem hrow

theorem stable_sound : Stable warehouse (Warehouse.Sound chain) := by
  intro s s' hs hdrift
  cases hdrift with
  | @land staged table row hsent hrow =>
      refine hs.withRows (fun other hother => ?_) fun other hother => (held_of_mem hother).append _
      rcases List.mem_append.mp hother with hold | hnew
      · exact hs.rows table other hold
      · exact List.mem_singleton.mp hnew ▸ (hs.sent staged hsent).vouched table row hrow
  | @merge table rows hmerges =>
      exact hs.withRows (fun row hrow => hs.rows table row (hmerges.mem row hrow)) hmerges.held

/-- A ledger is written: its tokens are there with its marker. -/
theorem Warehouse.Sound.write {s : Warehouse} (hs : s.Sound chain) {staged : StagedRows}
    (hstaged : staged.Faithful chain) : (s.write staged).Sound chain where
  rows := by
    intro table row hrow
    rcases List.mem_append.mp hrow with hold | hnew
    · exact hs.rows table row hold
    · exact hstaged.vouched table row hnew
  sent := by
    intro other hother
    rcases List.mem_cons.mp hother with rfl | hold
    · exact hstaged
    · exact hs.sent other hold
  committed := by
    intro n hn
    rcases List.mem_cons.mp hn with rfl | hold
    · exact hstaged.covers.mono fun table row hrow =>
        held_of_mem (List.mem_append_right _ hrow)
    · exact (hs.committed n hold).mono fun table row hrow =>
        held_of_mem (List.mem_append_left _ hrow)

/-- The same of the store of the writer's requests: what is in it was streamed from stagings,
and each marker is that of one of them. -/
theorem sound_ofStore {prior : LedgerRow → Store ContractTable.AnyRow → Prop}
    {s : Store ContractTable.AnyRow} (hs : s.Consistent prior) {sent : List StagedRows}
    (hsent : ∀ staged ∈ sent, staged.Faithful chain)
    (hrows : ∀ row ∈ s.rows, ∃ staged ∈ sent, row.2 ∈ staged.streamed row.1)
    (hmarkers : ∀ marker ∈ s.ledgers, ∃ staged ∈ sent,
      staged.ledgerSequence = UInt32.ofNat marker.row.sequence.toNat ∧
      s.stagings[marker.staging]? = some { ledgerRows := [marker], rows := staged.streamed }) :
    (ofStore sent s).Sound chain where
  rows := by
    intro table row hrow
    obtain ⟨stream, hstored⟩ := mem_rows_ofStore.mp hrow
    obtain ⟨staged, hstaged, hstreamed⟩ := hrows _ hstored
    exact (hsent staged hstaged).vouched table row (StagedRows.mem_of_streamed hstreamed)
  sent := hsent
  committed := by
    intro n hn
    obtain ⟨marker, hmarker, rfl⟩ := List.mem_map.mp hn
    obtain ⟨staged, hstaged, hsequence, hstaging⟩ := hmarkers marker hmarker
    rw [← hsequence]
    refine (hsent staged hstaged).covers.mono fun table row hrow => held_of_mem ?_
    -- a write in one step would add the row, so it is there
    exact (mem_write_ofStore hs hmarker hstaging sent table row).mp
      (List.mem_append_right _ hrow)

/-- Only decisive types are remembered. -/
theorem Remembers.extend {known : ClassificationCache} (h : Remembers chain known)
    {entries : List (String × ContractType)}
    (hentries : ∀ entry ∈ entries, isDefinitive entry.2 → Earned chain entry.1 entry.2) :
    Remembers chain (known.extendDefinitive entries) := by
  intro contractId type hlookup
  rw [ClassificationCache.extendDefinitive, lookup_foldl_insert] at hlookup
  rcases Option.or_eq_some_iff.mp hlookup with hnew | ⟨-, hold⟩
  · obtain ⟨hmem, hdefinitive⟩ := List.mem_filter.mp (mem_of_lastOf hnew)
    exact hentries (contractId, type) hmem hdefinitive
  · exact h contractId type hold

theorem Remembers.snapshot {known : ClassificationCache} (h : Remembers chain known)
    (ids : List String) : Remembers chain (known.snapshotFor ids) := by
  intro contractId type hlookup
  rw [ClassificationCache.snapshotFor, lookup_collect] at hlookup
  obtain ⟨id, -, hpair⟩ := List.mem_filterMap.mp (mem_of_lastOf hlookup)
  obtain ⟨remembered, hremembered, hsame⟩ := Option.map_eq_some_iff.mp hpair
  cases hsame
  exact h contractId type hremembered

/-! ## Requests -/

/-- What a writer keeps beside the warehouse. -/
abbrev RemembersEarned (chain : Chain) (s : Warehouse × ClassificationCache) : Prop :=
  Remembers chain s.2

abbrev anyMove (_ _ : Warehouse) : Prop := True

theorem moves_warehouse : Moves warehouse anyMove where
  answers := fun _ _ _ _ _ => trivial
  drift := fun _ _ _ => trivial

theorem kept_remembers :
    Kept (warehouse.under (keeping (Warehouse.Sound chain) anyMove)) (RemembersEarned chain) :=
  fun _ _ _ h _ => h

/-- A program among the other writers keeps the invariants and returns a value of `R`. -/
abbrev WriterGives (chain : Chain) (p : Prog writing α) (R : α → Prop) : Prop :=
  Gives ((writer chain).worldUnder (keeping (Warehouse.Sound chain) anyMove))
    (fun s => s.1.Sound chain ∧ RemembersEarned chain s) p R

theorem stable_world :
    Stable ((writer chain).worldUnder (keeping (Warehouse.Sound chain) anyMove))
      fun s => s.1.Sound chain ∧ RemembersEarned chain s :=
  stable_worldUnder stable_sound kept_remembers

theorem request_gives {op : Request} {R : requests.Ans op → Prop}
    (hanswers : ∀ s answer s', Warehouse.Sound chain s → s.Answers op answer s' →
      s'.Sound chain ∧ R answer) : WriterGives chain (request op) R := by
  refine gives_perform stable_world ?_
  rintro s answer s' ⟨hsound, hkept⟩ ⟨hanswer, hsame⟩
  obtain ⟨hsound', hR⟩ := hanswers s.1 answer s'.1 hsound hanswer
  exact ⟨⟨hsound', show Remembers chain s'.2 from hsame ▸ hkept⟩, hR⟩

theorem cache_gives {op : CacheCall} {R : caching.Ans op → Prop}
    (hanswers : ∀ known answer known', Remembers chain known →
      CacheAnswers known op answer known' → Remembers chain known' ∧ R answer) :
    WriterGives chain (cache op) R := by
  refine gives_perform stable_world ?_
  rintro s answer s' ⟨hsound, hkept⟩ ⟨hanswer, hsame⟩
  obtain ⟨hkept', hR⟩ := hanswers s.2 answer s'.2 hkept hanswer
  exact ⟨⟨by rwa [hsame], hkept'⟩, hR⟩

/-! ## Lookups -/

/-- What a failed question leaves unknown does no harm. -/
theorem fetchPriorWasmVerdicts_gives (inputs : LedgerInputs) :
    WriterGives chain (fetchPriorWasmVerdicts inputs) fun verdicts =>
      ∀ hash type, verdicts.lookup hash = some type → Uploaded chain hash type := by
  unfold fetchPriorWasmVerdicts
  refine gives_ite (fun _ => ?_) fun _ => ?_
  · exact gives_pure stable_world fun hash type h => by cases h
  · refine gives_bind (R := fun answer => ∀ verdicts, answer = .ok verdicts →
      ∀ hash type, verdicts.lookup hash = some type → Uploaded chain hash type)
      (request_gives fun s answer s' hs hanswer => ?_) fun answer hanswer => ?_
    · cases answer with
      | error error => exact ⟨hanswer ▸ hs, fun verdicts h => by cases h⟩
      | ok verdicts =>
          obtain ⟨rfl, rfl⟩ := hanswer
          refine ⟨hs, fun verdicts hsame hash type hlookup => ?_⟩
          cases hsame
          exact queryWasmVerdicts_uploaded (hs.rows .wasmPrograms) hlookup
    · cases answer with
      | error error => exact gives_pure stable_world fun hash type h => by cases h
      | ok verdicts => exact gives_pure stable_world (hanswer verdicts rfl)

theorem queryContractVerdicts_gives (ids : List String) :
    WriterGives chain (request (.queryContractVerdicts ids)) fun answer =>
      ∀ fetched, answer = .ok fetched → ∀ entry ∈ fetched, isDefinitive entry.2 →
        Earned chain entry.1 entry.2 := by
  refine request_gives fun s answer s' hs hanswer => ?_
  cases answer with
  | error error => exact ⟨hanswer ▸ hs, fun fetched h => by cases h⟩
  | ok fetched =>
      obtain ⟨⟨rows, hrows, rfl⟩, rfl⟩ := hanswer
      refine ⟨hs, fun fetched hsame => ?_⟩
      cases hsame
      exact queryContractVerdicts_earned fun row hrow =>
        hs.rows .sorobanContracts row (hrows.survives row hrow).1

theorem fetchPriorContractVerdicts_gives (inputs : LedgerInputs) :
    WriterGives chain (fetchPriorContractVerdicts inputs) (Remembers chain) := by
  have hsnapshot : ∀ ids, WriterGives chain (cache (.snapshotFor ids)) (Remembers chain) := by
    intro ids
    refine cache_gives fun known answer known' hknown hanswer => ?_
    obtain ⟨rfl, rfl⟩ := hanswer
    exact ⟨hknown, hknown.snapshot ids⟩
  unfold fetchPriorContractVerdicts
  refine gives_ite (fun _ => ?_) fun _ => ?_
  · exact gives_pure stable_world fun contractId type h => by cases h
  · refine gives_bind (R := fun _ => True)
      (cache_gives fun known answer known' hknown hanswer => ⟨hanswer.2 ▸ hknown, trivial⟩) ?_
    intro missing _
    refine gives_ite (fun _ => hsnapshot _) fun _ => ?_
    refine gives_bind (queryContractVerdicts_gives missing) fun answer hanswer => ?_
    cases answer with
    | error error => exact hsnapshot _
    | ok fetched =>
        refine gives_bind (R := fun _ => True) ?_ fun _ _ => hsnapshot _
        refine cache_gives fun known answer known' hknown hextended => ⟨?_, trivial⟩
        cases hextended
        exact hknown.extend (hanswer fetched rfl)

theorem fetchPriorContractRows_gives (inputs : LedgerInputs) :
    WriterGives chain (fetchPriorContractRows inputs) fun answer =>
      ∀ rows, answer = .ok rows → ∀ contractId row, rows.lookup contractId = some row →
        row.contractId = contractId ∧ Vouched chain .sorobanContracts row := by
  unfold fetchPriorContractRows
  refine gives_ite (fun _ => ?_) fun _ => ?_
  · refine gives_pure stable_world fun rows hrows contractId row h => ?_
    cases hrows
    cases h
  · refine request_gives fun s answer s' hs hanswer => ?_
    cases answer with
    | error error => exact ⟨hanswer ▸ hs, fun rows h => by cases h⟩
    | ok rows =>
        obtain ⟨⟨stored, hstored, rfl⟩, rfl⟩ := hanswer
        refine ⟨hs, fun rows hsame contractId row hlookup => ?_⟩
        cases hsame
        obtain ⟨hrow, hid⟩ := ContractLedger.contractId_of_lookup_fetch contractId row hlookup
        exact ⟨hid, hs.rows .sorobanContracts row (hstored.survives row hrow).1⟩

/-! ## Programs -/

theorem writeLedger_gives {staged : StagedRows} (hstaged : staged.Faithful chain) :
    WriterGives chain (request (.writeLedger staged)) fun _ => True := by
  refine request_gives fun s answer s' hs hanswer => ⟨?_, trivial⟩
  cases answer with
  | error error =>
      cases hanswer
      refine ⟨hs.rows, fun other hother => ?_, hs.committed⟩
      rcases List.mem_cons.mp hother with rfl | hold
      · exact hstaged
      · exact hs.sent other hold
  | ok _ =>
      cases hanswer
      exact hs.write hstaged

theorem persistLedgerClickhouse_gives (n : UInt32) (order : DrainOrder SorobanContractRow) :
    WriterGives chain (persistLedgerClickhouse (chain.ledger n) order) fun _ => True := by
  unfold persistLedgerClickhouse
  refine gives_bind (fetchPriorWasmVerdicts_gives _) fun wasmVerdicts hwasm => ?_
  refine gives_bind (fetchPriorContractVerdicts_gives _) fun contractVerdicts hcontract => ?_
  refine gives_bind (fetchPriorContractRows_gives _) fun answer hrows => ?_
  have hpriors : ∀ rows, answer = .ok rows →
      Priors.Vouched chain ⟨wasmVerdicts, contractVerdicts, rows⟩ :=
    fun rows h => ⟨hwasm, fun contractId type => hcontract contractId type, hrows rows h⟩
  cases answer with
  | error error => exact gives_pure stable_world trivial
  | ok contractRows =>
      dsimp only
      cases hstaged : (chain.ledger n).prepare order ⟨wasmVerdicts, contractVerdicts, contractRows⟩
        with
      | error error => exact gives_pure stable_world trivial
      | ok staged =>
          exact writeLedger_gives (prepare_spec (hpriors contractRows rfl) hstaged)

theorem writeLedgerBlind_gives (n : UInt32) (order : DrainOrder SorobanContractRow) :
    WriterGives chain (writeLedgerBlind (chain.ledger n) order) fun _ => True := by
  unfold writeLedgerBlind
  cases hstaged : (chain.ledger n).prepare order {} with
  | error error => exact gives_pure stable_world trivial
  | ok staged => exact writeLedger_gives (prepare_spec vouched_noPriors hstaged)

theorem start_gives : WriterGives chain start fun _ => True := by
  refine gives_bind (R := fun _ => True) (cache_gives fun known answer known' _ hanswer => ?_)
    fun _ _ => gives_pure stable_world trivial
  cases hanswer
  refine ⟨fun contractId type h => ?_, trivial⟩
  cases h

theorem writes_gives {p : Prog writing (Except SchemaError Unit)} (hp : Writes chain p) :
    WriterGives chain p fun _ => True := by
  rcases hp with rfl | ⟨n, order, rfl | rfl⟩
  · exact start_gives
  · exact persistLedgerClickhouse_gives n order
  · exact writeLedgerBlind_gives n order

/-! ## Any number of writers -/

/-- Writers side by side, each with its cache. -/
abbrev Writers (ι : Type) (chain : Chain) : Type := Fleet fun _ : ι => writer chain

section

variable {ι : Type} [DecidableEq ι] {shared : Warehouse} {own : ι → ClassificationCache}
  {f : Writers ι chain}

theorem safe_writers (hshared : shared.Sound chain) (hown : ∀ i, Remembers chain (own i))
    (hreach : Fleet.Reachable shared own f) :
    f.Safe (Warehouse.Sound chain) anyMove (fun _ => RemembersEarned chain)
      fun _ _ _ => True := by
  refine Fleet.safe_of_reachable moves_warehouse stable_sound (fun _ => kept_remembers) ?_ hshared
    hown hreach
  intro i p hp s hsound hkept
  exact writes_gives hp s ⟨hsound, hkept⟩

/-- **No type is made up.**  Whatever the writers have done in whatever order, the decisive
types of the stored contracts and those remembered were earned, and the rows among those of
NFT contracts are of contracts that earned to be there. -/
theorem types_earned (hshared : shared.Sound chain) (hown : ∀ i, Remembers chain (own i))
    (hreach : Fleet.Reachable shared own f) :
    (∀ row ∈ f.shared.rows .sorobanContracts, ∀ type,
      row.contractType.bind ContractType.ofI16 = some type → type ≠ .other →
        Earned chain row.contractId type) ∧
    (∀ i contractId type, (f.own i).lookup contractId = some type →
      Earned chain contractId type) ∧
    ∀ kind : NftKind, ∀ row ∈ f.shared.rows (.nft (kind, .hot)), ∃ contractId,
      kind.contractId row = Ids.contractId contractId ∧ Earned chain contractId .nft := by
  have hsafe := safe_writers hshared hown hreach
  refine ⟨fun row hrow => ?_, fun i contractId type => ?_, fun kind row hrow => ?_⟩
  · exact hsafe.inv.rows .sorobanContracts row hrow
  · exact hsafe.kept i contractId type
  · exact hsafe.inv.rows (.nft (kind, .hot)) row hrow

/-- **No token is lost.**  Once a ledger has its marker, each of its tokens and ownership
changes is among those of NFT contracts or in the quarantine, unless its contract earned
another type. -/
theorem nfts_kept (hshared : shared.Sound chain) (hown : ∀ i, Remembers chain (own i))
    (hreach : Fleet.Reachable shared own f) {n : UInt32} (hn : n ∈ f.shared.committed) :
    (∀ nft ∈ (chain.ledger n).nfts, ¬ EarnedOther chain nft.contractId →
      Has f.shared.rows .tokens (nftRow nft)) ∧
    ∀ ev ∈ (chain.ledger n).nftEvents, ¬ EarnedOther chain ev.contractId → ∀ row,
      nftOwnershipChangeRow (chain.ledger n).appOrderByHash ev = some row →
        Has f.shared.rows .ownershipChanges row := by
  have hcovers := (safe_writers hshared hown hreach).inv.committed n hn
  refine ⟨fun nft hnft hother => ?_, fun ev hev hother row hrow => ?_⟩
  · exact (hcovers.tokens nft hnft).resolve_left hother
  · exact (hcovers.changes ev hev row hrow).resolve_left hother

end

/-! ## What a writer leaves -/

section

variable {n : UInt32} {order : DrainOrder SorobanContractRow} {s s' : Warehouse}
  {known known' : ClassificationCache} {staged : StagedRows}
  {c : Config (writer chain).world (Except SchemaError Unit)}
  {p : Prog writing (Except SchemaError Unit)}

/-- The steps of one writer, while no other takes one. -/
abbrev WriterSteps (chain : Chain) :
    (c c' : Config (writer chain).world (Except SchemaError Unit)) → Prop :=
  Steps (writer chain).world (Writes chain)

theorem WriterSteps.request (h : WriterSteps chain c ⟨(s, known), some p⟩) (op : Request)
    (answer : requests.Ans op) {rest : requests.Ans op → Prog writing (Except SchemaError Unit)}
    (hp : p = .ask (I := writing) (.inl op) rest) (hanswer : s.Answers op answer s') :
    WriterSteps chain c ⟨(s', known), some (rest answer)⟩ :=
  steps_answer (E := (writer chain).world) h hp ⟨hanswer, rfl⟩

theorem WriterSteps.cache (h : WriterSteps chain c ⟨(s, known), some p⟩) (op : CacheCall)
    (answer : caching.Ans op) {rest : caching.Ans op → Prog writing (Except SchemaError Unit)}
    (hp : p = .ask (I := writing) (.inr op) rest) (hanswer : CacheAnswers known op answer known') :
    WriterSteps chain c ⟨(s, known'), some (rest answer)⟩ :=
  steps_answer (E := (writer chain).world) h hp ⟨hanswer, rfl⟩

/-- A backfill writes a ledger. -/
theorem steps_writeLedgerBlind (hstaged : (chain.ledger n).prepare order {} = .ok staged) :
    WriterSteps chain ⟨(s, known), none⟩ ⟨(s.write staged, known), none⟩ := by
  have hprogram : writeLedgerBlind (chain.ledger n) order =
      request (.writeLedger staged) := by
    unfold writeLedgerBlind
    rw [hstaged]
  have hwake : WriterSteps chain ⟨(s, known), none⟩
      ⟨(s, known), some (request (.writeLedger staged))⟩ :=
    ReflTransGen.refl.tail (.wake (.inr ⟨n, order, .inr hprogram.symm⟩))
  have hwritten := WriterSteps.request hwake (.writeLedger staged)
    (.ok () : Except SchemaError Unit) rfl rfl
  exact hwritten.tail .done

/-- What a cache knows once it was told the answer. -/
def learned (known : ClassificationCache) :
    Except ChError (List (String × ContractType)) → ClassificationCache
  | .ok fetched => known.extendDefinitive fetched
  | .error _ => known

/-- What a live writer does once it has an answer. -/
private def remember (ids : List String) :
    Except ChError (List (String × ContractType)) → Prog writing (Table String ContractType)
  | .ok fetched => do
      cache (.extendDefinitive fetched)
      cache (.snapshotFor ids)
  | .error _ => cache (.snapshotFor ids)

/-- What it does once it has the types. -/
private def stageAndWrite (inputs : LedgerInputs) (order : DrainOrder SorobanContractRow)
    (contractVerdicts : Table String ContractType) : Prog writing (Except SchemaError Unit) :=
  match inputs.prepare order ⟨∅, contractVerdicts, ∅⟩ with
  | .error error => return .error error
  | .ok staged => request (.writeLedger staged)

/-- A live writer writes a ledger that deploys and upgrades nothing, whether it learned the
types of the contracts or not. -/
theorem steps_persistLedgerClickhouse
    (hhashes : deployedHashes (chain.ledger n).deployments (chain.ledger n).programs = [])
    (hevents : ((chain.ledger n).events.flatMap Prod.snd).filterMap executableUpdateOf = [])
    {ids : List String} (hids : (chain.ledger n).contractsBefore = ids) (hne : ids ≠ [])
    (hmissing : known.missing ids = ids)
    {answer : Except ChError (List (String × ContractType))}
    (hanswer : s.Answers (.queryContractVerdicts ids) answer s)
    (hstaged : (chain.ledger n).prepare order
      ⟨∅, (learned known answer).snapshotFor ids, ∅⟩ = .ok staged) :
    WriterSteps chain ⟨(s, known), none⟩ ⟨(s.write staged, learned known answer), none⟩ := by
  have hempty : ¬ ids.isEmpty = true := by simpa using hne
  have hwasm : fetchPriorWasmVerdicts (chain.ledger n) = .ret ∅ := by
    unfold fetchPriorWasmVerdicts
    exact if_pos (List.isEmpty_iff.mpr hhashes)
  have hverdicts : fetchPriorContractVerdicts (chain.ledger n) =
      (cache (.missing ids) >>= fun missing : List String =>
        if missing.isEmpty then cache (.snapshotFor ids)
        else request (.queryContractVerdicts missing) >>= remember ids) := by
    unfold fetchPriorContractVerdicts
    rw [hids]
    refine (if_neg hempty).trans ?_
    refine congrArg (cache (.missing ids) >>= ·) (funext fun missing => ?_)
    split_ifs
    · rfl
    · refine congrArg (request (.queryContractVerdicts missing) >>= ·) (funext fun answer => ?_)
      cases answer <;> rfl
  have hrows : fetchPriorContractRows (chain.ledger n) = .ret (.ok ∅) := by
    unfold fetchPriorContractRows
    exact if_pos (List.isEmpty_iff.mpr hevents)
  have hwake : WriterSteps chain ⟨(s, known), none⟩
      ⟨(s, known), some (persistLedgerClickhouse (chain.ledger n) order)⟩ :=
    ReflTransGen.refl.tail (.wake (.inr ⟨n, order, .inl rfl⟩))
  unfold persistLedgerClickhouse at hwake
  rw [hwasm, hverdicts, hrows] at hwake
  have hasked := WriterSteps.cache hwake (.missing ids) ids rfl ⟨hmissing.symm, rfl⟩
  change WriterSteps chain _ ⟨(s, known), some ((if ids.isEmpty then cache (.snapshotFor ids)
    else request (.queryContractVerdicts ids) >>= remember ids) >>=
      stageAndWrite (chain.ledger n) order)⟩ at hasked
  rw [if_neg hempty] at hasked
  have hanswered := WriterSteps.request hasked (.queryContractVerdicts ids) answer rfl hanswer
  -- the answer, if there is one, is remembered
  have hlearned : WriterSteps chain ⟨(s, known), none⟩ ⟨(s, learned known answer),
      some (cache (.snapshotFor ids) >>= stageAndWrite (chain.ledger n) order)⟩ := by
    cases answer with
    | error error => exact hanswered
    | ok fetched => exact WriterSteps.cache hanswered (.extendDefinitive fetched) () rfl rfl
  have hsnapshot := WriterSteps.cache hlearned (.snapshotFor ids)
    ((learned known answer).snapshotFor ids) rfl ⟨rfl, rfl⟩
  change WriterSteps chain _ ⟨_, some (stageAndWrite (chain.ledger n) order
    ((learned known answer).snapshotFor ids))⟩ at hsnapshot
  rw [stageAndWrite, hstaged] at hsnapshot
  have hwritten := WriterSteps.request hsnapshot (.writeLedger staged)
    (.ok () : Except SchemaError Unit) rfl rfl
  exact hwritten.tail .done

end

/-! ## A backfill and a live writer -/

/-- A ledger that mints a token of the pinned contract, uploads the program and makes the
transactions. -/
private def minting (txs : List ContractTx) (n : UInt32) : LedgerInputs where
  ledgerSequence := n
  createdAt := 0
  networkId := Crates.pinnedNetwork
  deployerByContract := ∅
  txs
  programs := [⟨Text.hexEncode (List.replicate 32 1), some ["owner_of"], []⟩]
  nfts := [⟨storedContract.contractId, "1", none, none, none, none, none, n⟩]
  nftEvents := []
  appOrderByHash := fun _ => none

/-- The transaction that creates the pinned contract with the program. -/
private def creating : List ContractTx := [⟨"aa", "", createsContract, []⟩]

/-- The contract is created in ledger 7. -/
private def mintingChain : Chain :=
  ⟨fun n => minting (if n = 7 then creating else []) n, fun _ => rfl⟩

private def emptyWarehouse : Warehouse := ⟨fun _ => [], [], []⟩

private theorem sound_empty : emptyWarehouse.Sound chain where
  rows := fun table row hrow => by cases hrow
  sent := fun staged hstaged => by cases hstaged
  committed := fun n hn => by cases hn

private theorem remembers_nothing : Remembers chain ∅ :=
  fun contractId type h => by cases h

private theorem exists_prepared {α : Type} {inputs : LedgerInputs} {priors : Priors}
    (read : StagedRows → α) {value : α}
    (h : (inputs.prepare .stored priors).toOption.map read = some value) :
    ∃ staged, inputs.prepare .stored priors = .ok staged ∧ read staged = value := by
  cases hstaged : inputs.prepare .stored priors with
  | error error =>
      rw [hstaged] at h
      cases h
  | ok staged =>
      rw [hstaged] at h
      exact ⟨staged, rfl, Option.some.inj h⟩

/-- The ledger of a staging, its contracts, and how many of its tokens are among those of NFT
contracts. -/
private def outline (staged : StagedRows) : UInt32 × List (String × Option Int16) × ℕ :=
  (staged.ledgerSequence, (staged.rows .sorobanContracts).map fun row : SorobanContractRow =>
    (row.contractId, row.contractType), (staged.rows (.nft (.tokens, .hot))).length)

omit [Crates] in
private theorem prepare_creating : let _ := Crates.pinned
    ∃ staged, (mintingChain.ledger 7).prepare .stored {} = .ok staged ∧
      outline staged = (7, [(storedContract.contractId, some 2)], 1) := by
  let _ := Crates.pinned
  exact exists_prepared outline (by decide)

omit [Crates] in
private theorem prepare_unknown : let _ := Crates.pinned
    ∃ staged, (mintingChain.ledger 8).prepare .stored
      ⟨∅, (learned ∅ (.error .other)).snapshotFor [storedContract.contractId], ∅⟩ = .ok staged ∧
      outline staged = (8, [], 0) := by
  let _ := Crates.pinned
  exact exists_prepared outline (by decide)

omit [Crates] in
private theorem prepare_known : let _ := Crates.pinned
    ∃ staged, (mintingChain.ledger 9).prepare .stored
      ⟨∅, (learned ∅ (.ok [(storedContract.contractId, .nft)])).snapshotFor
        [storedContract.contractId], ∅⟩ = .ok staged ∧ outline staged = (9, [], 1) := by
  let _ := Crates.pinned
  exact exists_prepared outline (by decide)

private def noCaches : Bool → ClassificationCache := fun _ => ∅

omit [Crates] in
/-- A backfill writes the ledger that creates the contract.  A live writer writes a token of
the contract, after a lookup that failed, and another one after a lookup that did not. -/
private theorem reachable_minted : let _ := Crates.pinned
    ∃ f : Writers Bool mintingChain, Fleet.Reachable emptyWarehouse noCaches f ∧
      f.shared.committed = [9, 8, 7] ∧
      (∃ row ∈ f.shared.rows .sorobanContracts, row.contractId = storedContract.contractId ∧
        row.contractType = some 2) ∧
      (f.own true).lookup storedContract.contractId = some .nft ∧
      (f.shared.rows (.nft (.tokens, .hot))).length = 2 := by
  let _ := Crates.pinned
  obtain ⟨staged₇, hstaged₇, houtline₇⟩ := prepare_creating
  obtain ⟨staged₈, hstaged₈, houtline₈⟩ := prepare_unknown
  obtain ⟨staged₉, hstaged₉, houtline₉⟩ := prepare_known
  let s₇ := emptyWarehouse.write staged₇
  let s₈ := s₇.write staged₈
  -- the one contract that is stored
  obtain ⟨row, hrow, hcolumns⟩ :=
    List.map_eq_singleton_iff.mp (congrArg (fun outlined => outlined.2.1) houtline₇)
  obtain ⟨hid, htype⟩ := Prod.mk.inj hcolumns
  have hnone : staged₈.rows .sorobanContracts = [] :=
    List.map_eq_nil_iff.mp (congrArg (fun outlined => outlined.2.1) houtline₈)
  have hstored : s₈.rows .sorobanContracts = [row] := by
    change ([] ++ staged₇.rows .sorobanContracts) ++ staged₈.rows .sorobanContracts = [row]
    rw [hrow, hnone]
    rfl
  have hread : queryContractVerdicts [row] [storedContract.contractId] =
      [(storedContract.contractId, .nft)] := by
    simp [queryContractVerdicts, hid, htype, ContractType.ofI16]
  have hblind : WriterSteps mintingChain ⟨(emptyWarehouse, ∅), none⟩ ⟨(s₇, ∅), none⟩ :=
    steps_writeLedgerBlind hstaged₇
  have hrefused : s₇.Answers (.queryContractVerdicts [storedContract.contractId])
      (.error .other) s₇ := rfl
  have hfailed : WriterSteps mintingChain ⟨(s₇, ∅), none⟩ ⟨(s₈, ∅), none⟩ :=
    steps_persistLedgerClickhouse (by decide) (by decide) (by decide) (by decide) (by decide)
      hrefused hstaged₈
  have hanswer : s₈.Answers (.queryContractVerdicts [storedContract.contractId])
      (.ok [(storedContract.contractId, .nft)]) s₈ := by
    refine ⟨⟨[row], ?_, hread.symm⟩, rfl⟩
    rw [ReadsContracts, hstored]
    exact isFinal_of_nodup (List.nodup_singleton _)
  have hlearned : WriterSteps mintingChain ⟨(s₈, ∅), none⟩
      ⟨(s₈.write staged₉, learned ∅ (.ok [(storedContract.contractId, .nft)])), none⟩ :=
    steps_persistLedgerClickhouse (by decide) (by decide) (by decide) (by decide) (by decide)
      hanswer hstaged₉
  -- the backfill first, then the live writer
  let f₀ : Writers Bool mintingChain := Fleet.idle emptyWarehouse noCaches
  obtain ⟨f₁, hsteps₁, hshared₁, -, -, hothers₁⟩ :=
    @Fleet.exists_of_steps _ _ Bool (fun _ => writer mintingChain) _ f₀ false none _ rfl hblind
  obtain ⟨hown₁, hidle₁⟩ := hothers₁ true Bool.noConfusion
  have hlive : WriterSteps mintingChain ⟨(f₁.shared, f₁.own true), none⟩
      ⟨(s₈.write staged₉, learned ∅ (.ok [(storedContract.contractId, .nft)])), none⟩ := by
    rw [hshared₁, hown₁]
    exact hfailed.trans hlearned
  obtain ⟨f, hsteps, hshared, hown, -, -⟩ :=
    @Fleet.exists_of_steps _ _ Bool (fun _ => writer mintingChain) _ f₁ true none _ hidle₁ hlive
  refine ⟨f, hsteps₁.trans hsteps, ?_, ⟨row, ?_, hid, htype⟩, ?_, ?_⟩
  · rw [hshared]
    have hseq₇ : staged₇.ledgerSequence = 7 := congrArg Prod.fst houtline₇
    have hseq₈ : staged₈.ledgerSequence = 8 := congrArg Prod.fst houtline₈
    have hseq₉ : staged₉.ledgerSequence = 9 := congrArg Prod.fst houtline₉
    change [staged₉.ledgerSequence, staged₈.ledgerSequence, staged₇.ledgerSequence] = [9, 8, 7]
    rw [hseq₇, hseq₈, hseq₉]
  · rw [hshared]
    refine List.mem_append_left _ ?_
    rw [hstored]
    exact List.mem_cons_self
  · rw [hown]
    change (learned ∅ (.ok [(storedContract.contractId, .nft)])).lookup _ = some ContractType.nft
    decide
  · rw [hshared]
    have hhot₇ : (staged₇.rows (.nft (.tokens, .hot))).length = 1 :=
      congrArg (fun outlined => outlined.2.2) houtline₇
    have hhot₈ : (staged₈.rows (.nft (.tokens, .hot))).length = 0 :=
      congrArg (fun outlined => outlined.2.2) houtline₈
    have hhot₉ : (staged₉.rows (.nft (.tokens, .hot))).length = 1 :=
      congrArg (fun outlined => outlined.2.2) houtline₉
    change ((([] ++ staged₇.rows (.nft (.tokens, .hot))) ++ staged₈.rows (.nft (.tokens, .hot))) ++
      staged₉.rows (.nft (.tokens, .hot))).length = 2
    simp only [List.length_append, List.length_nil, hhot₇, hhot₈, hhot₉]

omit [Crates] in
/-- The type is stored with the contract and remembered by the live writer, and two of the
three tokens are among those of NFT contracts. -/
theorem types_earned_creating : let _ := Crates.pinned
    ∃ f : Writers Bool mintingChain,
      (f.own true).lookup storedContract.contractId = some .nft ∧
      (f.shared.rows (.nft (.tokens, .hot))).length = 2 ∧
      Earned mintingChain storedContract.contractId .nft ∧
      ∀ row ∈ f.shared.rows (.nft (.tokens, .hot)), ∃ contractId,
        NftKind.tokens.contractId row = Ids.contractId contractId ∧
          Earned mintingChain contractId .nft := by
  let _ := Crates.pinned
  obtain ⟨f, hreach, -, -, hremembered, hhot⟩ := reachable_minted
  obtain ⟨-, hcaches, hrouted⟩ :=
    types_earned sound_empty (fun _ => remembers_nothing) hreach
  exact ⟨f, hremembered, hhot, hcaches true _ _ hremembered, hrouted .tokens⟩

omit [Crates] in
/-- No ledger has the contract earn a type for which its tokens are dropped. -/
private theorem not_earnedOther_minting :
    ¬ @EarnedOther Crates.pinned mintingChain storedContract.contractId := by
  let _ := Crates.pinned
  have hdeployments : ∀ n, ∀ dep ∈ (mintingChain.ledger n).deployments, dep.isSac = false := by
    intro n dep hdep
    by_cases hn : n = 7
    · subst hn
      revert dep
      decide
    · have hnone : (mintingChain.ledger n).txs = [] := if_neg hn
      rw [ContractLedger.deployments, hnone] at hdep
      cases hdep
  have huploads : ∀ {hash type}, Uploaded mintingChain hash type → type = .nft := by
    rintro hash type ⟨n, program, hprogram, -, functions, hfunctions, rfl⟩
    obtain rfl := List.mem_singleton.mp hprogram
    cases hfunctions
    decide
  rintro (hearned | hearned)
  · cases hearned with
    | sac hdep _ hsac => exact absurd ((hdeployments _ _ hdep).symm.trans hsac) (by decide)
    | program _ _ _ _ huploaded => exact absurd (huploads huploaded) (by decide)
  · cases hearned with
    | program _ _ _ _ huploaded => exact absurd (huploads huploaded) (by decide)

omit [Crates] in
/-- The token that was written after the failed lookup is kept. -/
theorem nfts_kept_minting : let _ := Crates.pinned
    ∃ f : Writers Bool mintingChain, f.shared.committed = [9, 8, 7] ∧
      Has f.shared.rows .tokens
        (nftRow ⟨storedContract.contractId, "1", none, none, none, none, none, 8⟩) := by
  let _ := Crates.pinned
  obtain ⟨f, hreach, hcommitted, -, -, -⟩ := reachable_minted
  have hkept := (nfts_kept sound_empty (fun _ => remembers_nothing) hreach (n := 8)
    (by rw [hcommitted]; decide)).1
  exact ⟨f, hcommitted, hkept _ List.mem_cons_self not_earnedOther_minting⟩

end SorobanExplorer.ContractVerdicts
