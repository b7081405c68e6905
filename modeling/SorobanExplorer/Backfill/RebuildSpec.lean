import SorobanExplorer.Backfill.Rebuild

/-!
# What a rebuild keeps

A pass that fails or is killed at any point leaves each live table whole: as it was, or
rebuilt.  The order of the statements carries this (`execute_spec`): only the exchange
touches a live table, and it comes after an insert that came through into a table made by
the same pass.  What may happen to the tables is a parameter (`Terms`), so that one
invariant serves passes that change rows, dry runs, and what a pass that ended has done.
-/

namespace SorobanExplorer

/-- A row with the type its program gives, unless it is that of a SAC. -/
def SorobanContractRow.withVerdict (row : SorobanContractRow) :
    Option ContractType → SorobanContractRow
  | some verdict => if row.isSac then row else { row with contractType := some verdict.toI16 }
  | none => row

@[simp] theorem SorobanContractRow.withVerdict_withVerdict (row : SorobanContractRow)
    (first second : Option ContractType) :
    (row.withVerdict first).withVerdict second = row.withVerdict (second.or first) := by
  cases second with
  | none => rfl
  | some verdict =>
      cases first with
      | none => rfl
      | some _ => by_cases hsac : row.isSac = true <;> simp [withVerdict, hsac]

/-- Nothing else of the row changes. -/
theorem SorobanContractRow.withVerdict_fields (row : SorobanContractRow)
    (verdict : Option ContractType) :
    row.withVerdict verdict =
      { row with contractType := (row.withVerdict verdict).contractType } := by
  cases verdict with
  | none => rfl
  | some verdict =>
      by_cases hsac : row.isSac = true
      · have hsame : row.withVerdict (some verdict) = row := if_pos hsac
        rw [hsame]
      · have hnew : row.withVerdict (some verdict) =
            { row with contractType := some verdict.toI16 } := if_neg hsac
        rw [hnew]

end SorobanExplorer

namespace SorobanExplorer.Rebuild

open AssetFacets (AssetRow)
open Interaction Relation Replacing StagedSwap Text Versioned

/-! ## What a row becomes -/

/-- What the stored programs say of a contract's program: the type one of them gives, or
nothing. -/
def VerdictFor (programs : List WasmProgramRow) (wasmHash : Option Bytes)
    (verdict : Option ContractType) : Prop :=
  (∃ program ∈ programs, wasmHash = some program.wasmHash ∧
      classifyWasmMetadataJson program = verdict) ∨
    verdict = none ∧ ∀ program ∈ programs, wasmHash ≠ some program.wasmHash

/-- A contract's row with a type that the stored programs give it. -/
def Retyped (programs : List WasmProgramRow) (row row' : SorobanContractRow) : Prop :=
  ∃ verdict, VerdictFor programs row.wasmHash verdict ∧ row' = row.withVerdict verdict

section

variable {programs programs' : List WasmProgramRow} {row row' row'' : SorobanContractRow}

theorem Retyped.fields (h : Retyped programs row row') :
    row' = { row with contractType := row'.contractType } := by
  obtain ⟨verdict, -, rfl⟩ := h
  exact row.withVerdict_fields verdict

theorem Retyped.same (h : Retyped programs row row') :
    row'.contractId = row.contractId ∧ row'.id = row.id ∧ row'.isSac = row.isSac ∧
      row'.wasmHash = row.wasmHash := by
  rw [h.fields]
  exact ⟨rfl, rfl, rfl, rfl⟩

/-- A row rebuilt twice is rebuilt. -/
theorem Retyped.trans (h : Retyped programs row row') (h' : Retyped programs row' row'') :
    Retyped programs row row'' := by
  obtain ⟨first, hfirst, rfl⟩ := h
  obtain ⟨second, hsecond, rfl⟩ := h'
  rw [row.withVerdict_fields first] at hsecond
  refine ⟨second.or first, ?_, row.withVerdict_withVerdict first second⟩
  cases second with
  | none => exact hfirst
  | some _ => exact hsecond

/-- Programs that were merged say nothing new. -/
theorem VerdictFor.of_merges
    (hmerges : Merges WasmProgramRow.wasmHash unversioned programs programs')
    {wasmHash : Option Bytes} {verdict : Option ContractType}
    (h : VerdictFor programs' wasmHash verdict) : VerdictFor programs wasmHash verdict := by
  rcases h with ⟨program, hprogram, hsaid⟩ | ⟨hnone, habsent⟩
  · exact .inl ⟨program, hmerges.mem program hprogram, hsaid⟩
  · refine .inr ⟨hnone, fun program hprogram => ?_⟩
    obtain ⟨other, hother, hhash, -⟩ := hmerges.held program hprogram
    exact hhash ▸ habsent other hother

/-- The types make of a row what the programs make of it. -/
def Faithful (programs : List WasmProgramRow) (verdicts : List VerdictRow) : Prop :=
  ∀ row row', row' ∈ rebuilt verdicts row → Retyped programs row row'

/-- The rows that are staged are typed by the programs. -/
theorem faithful_verdictsOf (hperm : ∀ program, program ∈ programs' ↔ program ∈ programs) :
    Faithful programs (verdictsOf programs') := by
  intro row row' h
  have hverdicts : ∀ verdict, verdict ∈ verdictsOf programs' ↔ ∃ program ∈ programs, ∃ type,
      classifyWasmMetadataJson program = some type ∧
        verdict = ⟨program.wasmHash, type.toI16⟩ := by
    intro verdict
    simp only [verdictsOf, List.mem_filterMap, Option.map_eq_some_iff, hperm, @eq_comm _ verdict]
  unfold rebuilt at h
  split at h
  case h_1 hnone =>
    -- no program of the hash is decisive
    cases List.mem_singleton.mp h
    refine ⟨none, ?_, rfl⟩
    by_cases hprogram : ∃ program ∈ programs, row.wasmHash = some program.wasmHash
    · obtain ⟨program, hprogram, hhash⟩ := hprogram
      refine .inl ⟨program, hprogram, hhash, ?_⟩
      by_contra hdecisive
      obtain ⟨type, htype⟩ := Option.ne_none_iff_exists'.mp hdecisive
      have hmem : (⟨program.wasmHash, type.toI16⟩ : VerdictRow) ∈
          (verdictsOf programs').filter fun verdict => row.wasmHash = some verdict.wasmHash :=
        List.mem_filter.mpr ⟨(hverdicts _).mpr ⟨program, hprogram, type, htype, rfl⟩,
          decide_eq_true hhash⟩
      rw [hnone] at hmem
      cases hmem
    · exact .inr ⟨rfl, fun program hmem hhash => hprogram ⟨program, hmem, hhash⟩⟩
  case h_2 =>
    obtain ⟨verdict, hverdict, rfl⟩ := List.mem_map.mp h
    obtain ⟨hmem, hhash⟩ := List.mem_filter.mp hverdict
    obtain ⟨program, hprogram, type, htype, rfl⟩ := (hverdicts verdict).mp hmem
    refine ⟨some type, .inl ⟨program, hprogram, of_decide_eq_true hhash, htype⟩, ?_⟩
    rcases classifyWasmMetadataJson_eq_some htype with rfl | rfl <;>
      cases hsac : row.isSac <;>
        simp [retyped, SorobanContractRow.withVerdict, ContractType.toI16, hsac]

theorem rebuilt_ne_nil (verdicts : List VerdictRow) (row : SorobanContractRow) :
    rebuilt verdicts row ≠ [] := by
  unfold rebuilt
  split
  · exact List.cons_ne_nil _ _
  case h_2 hne => exact fun hnil => hne (List.map_eq_nil_iff.mp hnil)

end

/-- The first ledger is that of the participants, however often they are stored. -/
theorem firstLedger_congr {participants participants' : List TransactionParticipantRow}
    (h : ∀ participant, participant ∈ participants' ↔ participant ∈ participants)
    (account : Int64) : firstLedger participants' account = firstLedger participants account := by
  let ledgers (all : List TransactionParticipantRow) : List ℤ :=
    (all.filter (·.accountId = account)).map (·.ledgerSequence)
  have hmem : ∀ ledger, ledger ∈ ledgers participants' ↔ ledger ∈ ledgers participants := by
    intro ledger
    simp only [ledgers, List.mem_map, List.mem_filter, h]
  have hmin : (ledgers participants').min? = (ledgers participants).min? := by
    cases hledgers : (ledgers participants).min? with
    | none =>
        rw [List.min?_eq_none_iff] at hledgers ⊢
        exact List.eq_nil_iff_forall_not_mem.mpr fun ledger hledger =>
          List.not_mem_nil (hledgers ▸ (hmem ledger).mp hledger)
    | some first =>
        rw [List.min?_eq_some_iff] at hledgers ⊢
        exact ⟨(hmem first).mpr hledgers.1,
          fun ledger hledger => hledgers.2 ledger ((hmem ledger).mp hledger)⟩
  exact congrArg (fun first : Option ℤ => first.getD 0) hmin

/-- What a pass makes of a row of a table. -/
def Rebuilt (s : Warehouse) : (table : LiveTable) → table.Row → table.Row → Prop
  | .accounts, row, row' => row' = repaired s.transactionParticipants row
  | .sorobanContracts, row, row' => Retyped s.wasmPrograms row row'

theorem Rebuilt.trans {s : Warehouse} {table : LiveTable} {row row' row'' : table.Row}
    (h : Rebuilt s table row row') (h' : Rebuilt s table row' row'') :
    Rebuilt s table row row'' := by
  cases table with
  | accounts =>
      obtain rfl : row' = repaired s.transactionParticipants row := h
      exact h'
  | sorobanContracts => exact Retyped.trans h h'

/-! ## What every pass keeps -/

namespace Warehouse

@[simp] theorem withTable_self (s : Warehouse) (table : LiveTable) (swap : Swap table.Row) :
    (s.withTable table swap).tables table = swap :=
  Function.update_self ..

theorem withTable_of_ne (s : Warehouse) {table other : LiveTable} (h : other ≠ table)
    (swap : Swap table.Row) : (s.withTable table swap).tables other = s.tables other :=
  Function.update_of_ne h ..

/-- The tables a pass reads and does not write, as they were before it. -/
structure SourcesOf (original s : Warehouse) : Prop where
  programs : Merges WasmProgramRow.wasmHash unversioned original.wasmPrograms s.wasmPrograms
  participants : Merges id unversioned original.transactionParticipants s.transactionParticipants

/-- What a pass makes of a row does not depend on when it reads its sources. -/
theorem SourcesOf.rebuilt {original s : Warehouse} (h : SourcesOf original s)
    {table : LiveTable} {row row' : table.Row} (hrow : Rebuilt s table row row') :
    Rebuilt original table row row' := by
  cases table with
  | accounts =>
      have hsame : ∀ participant, participant ∈ s.transactionParticipants ↔
          participant ∈ original.transactionParticipants := by
        refine fun participant => ⟨h.participants.mem participant, fun hmem => ?_⟩
        obtain ⟨other, hother, rfl, -⟩ := h.participants.held participant hmem
        exact hother
      obtain rfl : row' = repaired s.transactionParticipants row := hrow
      exact congrArg (fun first => { row with firstSeenLedger := first })
        (firstLedger_congr hsame row.id)
  | sorobanContracts =>
      obtain ⟨verdict, hverdict, rfl⟩ := hrow
      exact ⟨verdict, hverdict.of_merges h.programs, rfl⟩

/-- An asset that a pass adds: that of a fungible token, no SAC, which had none.  Its
surrogate is not set. -/
structure Added (changes : SorobanContractRow → SorobanContractRow → Prop)
    (original : Warehouse) (asset : AssetRow) : Prop where
  contract : ∃ before after : SorobanContractRow,
    Survives SorobanContractRow.contractId SorobanContractRow.wasmUploadedAtLedger
      (original.tables .sorobanContracts).live.rows before ∧
    changes before after ∧ after.contractType = some 3 ∧ after.isSac = false ∧
    asset = type3Asset after
  lacking : ∀ other ∈ original.assets.rows, other.contractId = asset.contractId →
    other.assetType ≠ 2 ∧ other.assetType ≠ 3

/-- A contract is among the assets. -/
def HasAsset (s : Warehouse) (contractId : Int64) : Prop :=
  ∃ asset ∈ s.assets.rows, asset.contractId = contractId ∧
    (asset.assetType = 2 ∨ asset.assetType = 3)

theorem HasAsset.mono {s s' : Warehouse} {contractId : Int64} (h : s.HasAsset contractId)
    (hheld : ∀ asset ∈ s.assets.rows, Held assetKey unversioned s'.assets.rows asset) :
    s'.HasAsset contractId := by
  obtain ⟨asset, hasset, hcontract, htype⟩ := h
  obtain ⟨other, hother, hkey, -⟩ := hheld asset hasset
  obtain ⟨hkeyType, -, -, hkeyContract⟩ : other.assetType = asset.assetType ∧
      other.assetCode = asset.assetCode ∧ other.issuerId = asset.issuerId ∧
      other.contractId = asset.contractId := by
    simpa only [assetKey, Prod.mk.injEq] using hkey
  exact ⟨other, hother, hkeyContract.trans hcontract, by rwa [hkeyType]⟩

/-- What may happen to the rows of the tables, which assets may be added, and the contracts
that are to be among the assets. -/
structure Terms where
  changes : (table : LiveTable) → table.Row → table.Row → Prop
  adds : AssetRow → Prop
  required : Int64 → Prop

/-- Each live table is what it was before the passes, with the changes that are allowed to
its rows, and no asset was lost. -/
structure Kept (terms : Terms) (original s : Warehouse) : Prop where
  tables : ∀ table, (s.tables table).live.Sound (terms.changes table) table.key table.version
    (original.tables table).live.rows
  sources : SourcesOf original s
  held : ∀ asset ∈ original.assets.rows, Held assetKey unversioned s.assets.rows asset
  added : ∀ asset, asset ∈ s.assets.rows ∨ asset ∈ s.assets.late →
    asset ∈ original.assets.rows ∨ terms.adds asset
  required : ∀ contractId, terms.required contractId → s.HasAsset contractId

section

variable {terms : Terms} {original s s' : Warehouse}

/-- Changing what is beside a live table. -/
theorem Kept.withTable (h : Kept terms original s) {table : LiveTable} {swap : Swap table.Row}
    (hlive : swap.live.Sound (terms.changes table) table.key table.version
      (original.tables table).live.rows) :
    Kept terms original (s.withTable table swap) where
  tables := by
    intro other
    by_cases hother : other = table
    · subst hother
      rw [withTable_self]
      exact hlive
    · rw [withTable_of_ne s hother]
      exact h.tables other
  sources := ⟨h.sources.programs, h.sources.participants⟩
  held := h.held
  added := h.added
  required := h.required

theorem Kept.withStaging (h : Kept terms original s) (table : LiveTable) (copy : Copy table.Row) :
    Kept terms original (s.withStaging table copy) :=
  h.withTable (h.tables table)

/-- More assets, all of them allowed. -/
theorem Kept.withAssets (h : Kept terms original s) {copy : Copy AssetRow}
    (hheld : ∀ asset ∈ s.assets.rows, Held assetKey unversioned copy.rows asset)
    (hadded : ∀ asset, asset ∈ copy.rows ∨ asset ∈ copy.late →
      (asset ∈ s.assets.rows ∨ asset ∈ s.assets.late) ∨ terms.adds asset) :
    Kept terms original { s with assets := copy } where
  tables := h.tables
  sources := ⟨h.sources.programs, h.sources.participants⟩
  held := fun asset hasset => (h.held asset hasset).trans hheld
  added := fun asset hasset => (hadded asset hasset).elim (h.added asset) .inr
  required := fun contractId hrequired => (h.required contractId hrequired).mono hheld

theorem Kept.drift (h : Kept terms original s) (hdrift : s.Drift s') :
    Kept terms original s' := by
  cases hdrift with
  | table table hdrift => exact h.withTable (hdrift.live_sound (h.tables table))
  | verdictLands hverdicts hrow =>
      exact ⟨h.tables, ⟨h.sources.1, h.sources.2⟩, h.held, h.added, h.required⟩
  | wasmPrograms hmerges =>
      exact ⟨h.tables, ⟨h.sources.programs.trans hmerges, h.sources.participants⟩, h.held,
        h.added, h.required⟩
  | transactionParticipants hmerges =>
      exact ⟨h.tables, ⟨h.sources.programs, h.sources.participants.trans hmerges⟩, h.held,
        h.added, h.required⟩
  | assets hdrift =>
      cases hdrift with
      | merge hmerges =>
          exact h.withAssets hmerges.held fun asset hasset =>
            .inl (hasset.imp_left (hmerges.mem asset))
      | land hrow =>
          refine h.withAssets (fun asset hasset => (held_of_mem hasset).append _) ?_
          intro asset hasset
          rcases hasset with hasset | hlate
          · rcases List.mem_append.mp hasset with hold | hnew
            · exact .inl (.inl hold)
            · cases List.mem_singleton.mp hnew
              exact .inl (.inr hrow)
          · exact .inl (.inr hlate)

end

/-! ## What a pass knows -/

section

variable {s s' : Warehouse}

/-- A fact that the tables do not change by themselves. -/
def Lasting (P : Warehouse → Prop) : Prop :=
  ∀ s s', P s → s.Drift s' → P s'

theorem lasting_true : Lasting fun _ => True :=
  fun _ _ _ _ => trivial

theorem Lasting.and {P Q : Warehouse → Prop} (hP : Lasting P) (hQ : Lasting Q) :
    Lasting fun s => P s ∧ Q s :=
  fun s s' h hdrift => ⟨hP s s' h.1 hdrift, hQ s s' h.2 hdrift⟩

theorem Lasting.imp {p : Prop} {P : Warehouse → Prop} (hP : Lasting P) :
    Lasting fun s => p → P s :=
  fun s s' h hdrift hp => hP s s' (h hp) hdrift

/-- The table of the types has these rows, and none is late. -/
def VerdictsAre (verdicts : List VerdictRow) (s : Warehouse) : Prop :=
  s.verdicts = some ⟨verdicts, []⟩

theorem lasting_verdictsAre (verdicts : List VerdictRow) : Lasting (VerdictsAre verdicts) := by
  intro s s' h hdrift
  cases hdrift with
  | verdictLands hverdicts hrow =>
      rw [VerdictsAre, hverdicts] at h
      cases h
      cases hrow
  | table | assets | wasmPrograms | transactionParticipants => exact h

/-- The staging table of a table is new. -/
def Fresh (table : LiveTable) (s : Warehouse) : Prop :=
  (s.tables table).staging = some .empty

/-- What a table and the one beside it keep when they drift, they keep whatever drifts. -/
theorem lasting_table {table : LiveTable} {P : Swap table.Row → Prop}
    (h : ∀ swap swap', P swap → swap.Drift table.key table.version swap' → P swap') :
    Lasting fun s => P (s.tables table) := by
  intro s s' hs hdrift
  cases hdrift with
  | table other hdrift =>
      by_cases hother : table = other
      · subst hother
        rw [withTable_self]
        exact h _ _ hs hdrift
      · rw [withTable_of_ne s hother]
        exact hs
  | verdictLands | assets | wasmPrograms | transactionParticipants => exact hs

theorem lasting_fresh (table : LiveTable) : Lasting (Fresh table) := by
  refine lasting_table (P := fun swap => swap.staging = some .empty) fun swap swap' h hdrift => ?_
  cases hdrift with
  | live => exact h
  | staging hstaging hdrift =>
      rw [hstaging] at h
      cases h
      cases hdrift with
      | merge hmerges =>
          have hnil := List.eq_nil_iff_forall_not_mem.mpr fun row hrow =>
            List.not_mem_nil (hmerges.mem row hrow)
          rw [hnil]
          rfl
      | land hrow => cases hrow

/-- The staging table derives from the original of its table. -/
def Staged (original : Warehouse) (table : LiveTable) (R : table.Row → table.Row → Prop)
    (s : Warehouse) : Prop :=
  (s.tables table).Ready R table.key table.version (original.tables table).live.rows

theorem lasting_staged (original : Warehouse) (table : LiveTable)
    (R : table.Row → table.Row → Prop) : Lasting (Staged original table R) :=
  lasting_table (P := fun swap => swap.Ready R _ _ _) fun _ _ h hdrift => hdrift.ready h

/-- The live table derives from the original. -/
def Live (original : Warehouse) (table : LiveTable) (R : table.Row → table.Row → Prop)
    (s : Warehouse) : Prop :=
  (s.tables table).live.Sound R table.key table.version (original.tables table).live.rows

theorem lasting_live (original : Warehouse) (table : LiveTable)
    (R : table.Row → table.Row → Prop) : Lasting (Live original table R) :=
  lasting_table (P := fun swap => swap.live.Sound R _ _ _) fun _ _ h hdrift =>
    hdrift.live_sound h

theorem lasting_hasAsset (contractId : Int64) : Lasting (HasAsset · contractId) := by
  intro s s' h hdrift
  cases hdrift with
  | assets hdrift =>
      refine h.mono fun asset hasset => ?_
      cases hdrift with
      | merge hmerges => exact hmerges.held asset hasset
      | land => exact (held_of_mem hasset).append _
  | table | verdictLands | wasmPrograms | transactionParticipants => exact h

/-- The contracts that are to be among the assets are. -/
def Listed (contractIds : Int64 → Prop) (s : Warehouse) : Prop :=
  ∀ contractId, contractIds contractId → s.HasAsset contractId

theorem lasting_listed (contractIds : Int64 → Prop) : Lasting (Listed contractIds) :=
  fun s s' h hdrift contractId hid => lasting_hasAsset contractId s s' (h contractId hid) hdrift

end

end Warehouse

open Warehouse

section

variable {terms : Terms} {original s s' : Warehouse}

variable (terms original) in
/-- What a pass knows of a state: the tables are kept, and a fact of its own. -/
def Known (P : Warehouse → Prop) (s : Warehouse) : Prop :=
  Kept terms original s ∧ P s

variable (terms original) in
/-- A program of a pass keeps the tables; `Q` holds when it succeeds. -/
abbrev Guarantees {α : Type} (p : Sink α) (Q : α → Warehouse → Prop) (s : Warehouse) : Prop :=
  @UpholdsTry sql α BackfillError clickhouse (Kept terms original) p Q (fun _ => True) s

/-- What a statement leaves when it succeeds. -/
def OnOk {α : Type} (Q : α → Warehouse → Prop) : Except BackfillError α → Warehouse → Prop
  | .ok value => Q value
  | .error _ => fun _ => True

theorem lasting_onOk {α : Type} {Q : α → Warehouse → Prop} (hQ : ∀ value, Lasting (Q value)) :
    ∀ answer, Lasting (OnOk Q answer)
  | .ok value => hQ value
  | .error _ => lasting_true

theorem settled_of_known {P : Warehouse → Prop} (hP : Lasting P) (hs : Known terms original P s) :
    Settled clickhouse (Kept terms original) P s := by
  have hstable : Stable clickhouse (Known terms original P) :=
    fun s s' h hdrift => ⟨h.1.drift hdrift, hP s s' h.2 hdrift⟩
  exact (hstable.settled (fun _ h => h.1) hs).imp fun _ h => h.now.2

theorem guarantees_pure {α : Type} {value : α} {Q : α → Warehouse → Prop} (hQ : Lasting (Q value))
    (hs : Known terms original (Q value) s) : Guarantees terms original (pure value) Q s :=
  upholdsTry_pure (settled_of_known hQ hs)

theorem guarantees_bind {α β : Type} {p : Sink α} {next : α → Sink β}
    {R : α → Warehouse → Prop} {Q : β → Warehouse → Prop} (h : Guarantees terms original p R s)
    (hnext : ∀ value s, Known terms original (R value) s →
      Guarantees terms original (next value) Q s) :
    Guarantees terms original (p >>= next) Q s :=
  upholdsTry_bind (upholdsTry_imp (fun value s' hs' => hnext value s' ⟨hs'.inv, hs'.now⟩)
    (fun _ h => h) h)

/-- A statement whose every answer keeps the tables. -/
theorem guarantees_ask (op : Statement) {P : Warehouse → Prop} {Q : op.Value → Warehouse → Prop}
    (hP : Lasting P) (hQ : ∀ value, Lasting (Q value)) (hs : Known terms original P s)
    (hanswer : ∀ s answer s', Known terms original P s → s.Answers op answer s' →
      Known terms original (OnOk Q answer) s') :
    Guarantees terms original (Sink.ask op) Q s := by
  refine upholds_imp ?_ (@upholds_perform sql clickhouse (Kept terms original) op
    (Known terms original P) (OnOk Q) s
    ((settled_of_known hP hs).imp fun s' h => ⟨h.inv, h.now⟩)
    fun s' answer s'' hs' h =>
      settled_of_known (lasting_onOk hQ answer) (hanswer s' answer s'' hs' h))
  intro answer s' hs'
  cases answer with
  | ok value => exact hs'.now
  | error error => trivial

/-! ### The kinds of statements -/

section

variable {P Q : Warehouse → Prop} {answer : Except BackfillError Unit}

theorem known_of_defined {op : Statement} (hs : Known terms original P s)
    (heffect : ∀ s', s.define op = some s' → Known terms original Q s')
    (h : s.Defined op answer s') : Known terms original (OnOk (fun _ => Q) answer) s' := by
  cases answer with
  | ok value => exact heffect s' h
  | error error =>
      rcases h with rfl | h
      · exact ⟨hs.1, trivial⟩
      · exact ⟨(heffect s' h).1, trivial⟩

theorem known_of_inserted {α : Type} {copy : Option (Copy α)} {selects : List α → Prop}
    {put : Copy α → Warehouse} (hs : Known terms original P s)
    (hok : ∀ table rows, copy = some table → selects rows →
      Known terms original Q (put (table.insert rows)))
    (hfailed : ∀ table rows table', copy = some table → selects rows →
      table.Failed rows table' → Kept terms original (put table'))
    (h : s.Inserted copy selects put answer s') :
    Known terms original (OnOk (fun _ => Q) answer) s' := by
  cases answer with
  | ok value =>
      obtain ⟨table, rows, hcopy, hrows, rfl⟩ := h
      exact hok table rows hcopy hrows
  | error error =>
      rcases h with rfl | ⟨table, rows, table', hcopy, hrows, hfail, rfl⟩
      · exact ⟨hs.1, trivial⟩
      · exact ⟨hfailed table rows table' hcopy hrows hfail, trivial⟩

end

theorem known_of_answered {α : Type} {P : Warehouse → Prop} {Q : α → Warehouse → Prop}
    {value : α → Prop} {answer : Except BackfillError α} (hs : Known terms original P s)
    (hvalue : ∀ answer, value answer → Q answer s) (h : s.Answered value answer s') :
    Known terms original (OnOk Q answer) s' := by
  cases answer with
  | ok answer =>
      obtain ⟨hanswer, rfl⟩ := h
      exact ⟨hs.1, hvalue answer hanswer⟩
  | error error =>
      obtain rfl : s' = s := h
      exact ⟨hs.1, trivial⟩

/-! ### The statements -/

theorem withTable_drop_kept (h : Kept terms original s) (table : LiveTable) :
    Kept terms original (s.withTable table (s.tables table).drop) :=
  h.withTable (h.tables table)

/-- Dropping a table keeps what is not about it. -/
theorem dropIfExists_spec (table : StagingTable) {P Q : Warehouse → Prop} (hP : Lasting P)
    (hQ : Lasting Q) (hs : Known terms original P s)
    (hdrop : ∀ s s', P s → s.define (.dropIfExists table) = some s' → Q s') :
    Guarantees terms original (Sink.dropIfExists table) (fun _ => Q) s := by
  refine guarantees_ask (.dropIfExists table) hP (fun _ => hQ) hs fun s answer s' hs h =>
    known_of_defined hs (fun s' heffect => ⟨?_, hdrop s s' hs.2 heffect⟩) h
  cases table with
  | like table =>
      obtain rfl := Option.some.inj heffect
      exact withTable_drop_kept hs.1 table
  | verdicts =>
      obtain rfl := Option.some.inj heffect
      exact ⟨hs.1.tables, ⟨hs.1.sources.1, hs.1.sources.2⟩, hs.1.held, hs.1.added, hs.1.required⟩

/-- A table made anew is empty. -/
theorem createStagingLike_spec (table : LiveTable) {P : Warehouse → Prop} (hP : Lasting P)
    (hs : Known terms original P s)
    (hkeeps : ∀ s swap, P s → P (s.withTable table swap)) :
    Guarantees terms original (Sink.createStagingLike table)
      (fun _ s => P s ∧ Fresh table s) s := by
  refine guarantees_ask (.createStagingLike table) hP (fun _ => hP.and (lasting_fresh table)) hs
    fun s answer s' hs h => known_of_defined hs (fun s' heffect => ?_) h
  obtain ⟨-, hcreate⟩ := Option.ite_none_left_eq_some.mp heffect
  obtain rfl := Option.some.inj hcreate
  have hfresh : Fresh table (s.withTable table (s.tables table).create) := by
    rw [Fresh, withTable_self]
    rfl
  exact ⟨hs.1.withTable (hs.1.tables table), hkeeps s _ hs.2, hfresh⟩

theorem createVerdictTable_spec (hs : Known terms original (fun _ => True) s) :
    Guarantees terms original Sink.createVerdictTable (fun _ => VerdictsAre []) s := by
  refine guarantees_ask .createVerdictTable lasting_true (fun _ => lasting_verdictsAre []) hs
    fun s answer s' hs h => known_of_defined hs (fun s' heffect => ?_) h
  obtain ⟨-, hcreate⟩ := Option.ite_none_left_eq_some.mp heffect
  obtain rfl := Option.some.inj hcreate
  exact ⟨⟨hs.1.tables, ⟨hs.1.sources.1, hs.1.sources.2⟩, hs.1.held, hs.1.added, hs.1.required⟩, rfl⟩

theorem insertVerdicts_spec (verdicts : List VerdictRow)
    (hs : Known terms original (VerdictsAre []) s) :
    Guarantees terms original (Sink.insertVerdicts verdicts) (fun _ => VerdictsAre verdicts) s := by
  by_cases hnone : verdicts = []
  · have hpure : Sink.insertVerdicts verdicts = pure () := if_pos hnone
    rw [hpure, hnone]
    exact guarantees_pure (lasting_verdictsAre []) hs
  · have hask : Sink.insertVerdicts verdicts = Sink.ask (.insertVerdicts verdicts) := if_neg hnone
    have hkept : ∀ s copy, Kept terms original s →
        Kept terms original { s with verdicts := some copy } := fun s copy h =>
      ⟨h.tables, ⟨h.sources.1, h.sources.2⟩, h.held, h.added, h.required⟩
    rw [hask]
    refine guarantees_ask (.insertVerdicts verdicts) (lasting_verdictsAre [])
      (fun _ => lasting_verdictsAre verdicts) hs fun s answer s' hs h =>
        known_of_inserted hs (fun table rows hcopy hrows => ⟨hkept s _ hs.1, ?_⟩)
          (fun table rows table' _ _ _ => hkept s table' hs.1) h
    subst hrows
    rw [show s.verdicts = some ⟨[], []⟩ from hs.2] at hcopy
    cases hcopy
    rfl

/-- A read of the live table is rebuilt from the original. -/
theorem staged_of_selects {table : LiveTable} {R : table.Row → table.Row → Prop}
    {rows : List table.Row} {final : List table.Row} (hkept : Kept terms original s)
    (hfinal : s.Final table final)
    (hfrom : ∀ row' ∈ rows, ∃ row ∈ final, R row row')
    (hsome : ∀ row ∈ final, ∃ row' ∈ rows, table.key row' = table.key row)
    (hR : ∀ row row', R row row' → Rebuilt original table row row') (swap : Swap table.Row) :
    Staged original table (Comp (terms.changes table) (Rebuilt original table))
      (s.withTable table { swap with staging := some (Copy.empty.insert rows) }) := by
  rw [Staged, withTable_self]
  have hrebuilt : Derives (Rebuilt original table) table.key table.version
      (s.tables table).live.rows rows :=
    (Derives.of_isFinal hfinal hfrom hsome).imp hR
  exact ⟨_, rfl, (hkept.tables table).derives.comp hrebuilt fun a b c hab hbc => ⟨b, hab, hbc⟩, rfl⟩

/-- The staging table of a read is what the originals make of it. -/
theorem buildStaging_spec (table : LiveTable) {P : Warehouse → Prop} (hP : Lasting P)
    (hs : Known terms original (fun s => P s ∧ Fresh table s) s)
    (hverdicts : table = .sorobanContracts → ∀ s, P s → ∃ verdicts, VerdictsAre verdicts s ∧
      Faithful original.wasmPrograms verdicts) :
    Guarantees terms original (Sink.buildStaging table) (fun _ =>
      Staged original table (Comp (terms.changes table) (Rebuilt original table))) s := by
  refine guarantees_ask (.buildStaging table) (hP.and (lasting_fresh table))
    (fun _ => lasting_staged original table _) hs fun s answer s' hs h =>
      known_of_inserted hs (fun copy rows hcopy hrows => ⟨hs.1.withStaging table _, ?_⟩)
        (fun copy rows copy' _ _ _ => hs.1.withStaging table copy') h
  rw [show (s.tables table).staging = some .empty from hs.2.2] at hcopy
  cases hcopy
  cases table with
  | accounts =>
      -- one row for one, whatever the merges kept
      obtain ⟨final, hfinal, rfl⟩ := hrows
      refine staged_of_selects hs.1 hfinal (R := Rebuilt s .accounts) ?_ ?_
        (fun _ _ => hs.1.sources.rebuilt) _
      · intro row' hrow'
        obtain ⟨row, hrow, rfl⟩ := List.mem_map.mp hrow'
        exact ⟨row, hrow, rfl⟩
      · exact fun row hrow => ⟨_, List.mem_map_of_mem hrow, rfl⟩
  | sorobanContracts =>
      obtain ⟨final, hfinal, verdicts, hverdictTable, rfl⟩ := hrows
      -- the verdict table has not changed since it was written
      obtain ⟨said, hare, hfaithful⟩ := hverdicts rfl s hs.2.1
      rw [show s.verdicts = some ⟨said, []⟩ from hare] at hverdictTable
      cases hverdictTable
      refine staged_of_selects hs.1 hfinal (R := Rebuilt original .sorobanContracts) ?_ ?_
        (fun _ _ h => h) _
      · intro row' hrow'
        obtain ⟨row, hrow, hmem⟩ := List.mem_flatMap.mp hrow'
        exact ⟨row, hrow, hfaithful row row' hmem⟩
      · intro row hrow
        obtain ⟨row', hrow'⟩ := List.exists_mem_of_ne_nil _ (rebuilt_ne_nil said row)
        refine ⟨row', List.mem_flatMap.mpr ⟨row, hrow, hrow'⟩, ?_⟩
        exact (hfaithful row row' hrow').same.1

theorem read_spec (op : Statement) {P : Warehouse → Prop} {Q : op.Value → Prop} (hP : Lasting P)
    (hs : Known terms original P s)
    (hread : ∀ (s : Warehouse) answer s', s.Answers op answer s' →
      s.Answered (fun value => Kept terms original s → Q value) answer s') :
    Guarantees terms original (Sink.ask op) (fun value s => P s ∧ Q value) s := by
  refine guarantees_ask op hP (fun value => hP.and fun _ _ h _ => h) hs
    fun s answer s' hs h => known_of_answered hs ?_ (hread s answer s' h)
  exact fun value hvalue => ⟨hs.2, hvalue hs.1⟩

theorem answered_imp {α : Type} {value value' : α → Prop} {answer : Except BackfillError α}
    (himp : ∀ a, value a → value' a) (h : s.Answered value answer s') :
    s.Answered value' answer s' := by
  cases answer with
  | ok a => exact ⟨himp a h.1, h.2⟩
  | error _ => exact h

/-- The names are exchanged for a table that is ready. -/
theorem exchangeTables_spec (table : LiveTable) {R : table.Row → table.Row → Prop}
    (hR : ∀ row row', R row row' → terms.changes table row row')
    (hs : Known terms original (Staged original table R) s) :
    Guarantees terms original (Sink.exchangeTables table) (fun _ => Live original table R) s := by
  refine guarantees_ask (.exchangeTables table) (lasting_staged original table R)
    (fun _ => lasting_live original table R) hs fun s answer s' hs h =>
      known_of_defined hs (fun s' heffect => ?_) h
  obtain ⟨-, hexchange⟩ := Option.ite_none_right_eq_some.mp heffect
  obtain rfl := Option.some.inj hexchange
  have hsound := hs.2.exchange
  refine ⟨hs.1.withTable ⟨hsound.derives.imp hR, hsound.late⟩, ?_⟩
  rw [Live, withTable_self]
  exact hsound

/-- A pass ends with the exchange, unless it is a dry run. -/
theorem finalize_spec (table : LiveTable) (dryRun : Bool) {R : table.Row → table.Row → Prop}
    (hR : dryRun = false → ∀ row row', R row row' → terms.changes table row row')
    (hs : Known terms original (Staged original table R) s) :
    Guarantees terms original (finalize table dryRun)
      (fun _ s => dryRun = false → Live original table R s) s := by
  cases dryRun with
  | true =>
      refine upholdsTry_imp (fun _ _ _ hwet => by cases hwet) (fun _ h => h)
        (dropIfExists_spec (.like table) (lasting_staged original table R) lasting_true hs
          fun _ _ _ _ => trivial)
  | false =>
      refine guarantees_bind (exchangeTables_spec table (hR rfl) hs) fun _ s hs => ?_
      refine upholdsTry_imp (fun _ _ h _ => h.now) (fun _ h => h)
        (dropIfExists_spec (.like table) (lasting_live original table R)
          (lasting_live original table R) hs fun s s' hlive heffect => ?_)
      obtain rfl := Option.some.inj heffect
      rw [Live, withTable_self]
      exact hlive

/-! ## The passes -/

/-- What a pass that is no dry run may do to the rows, and to the assets. -/
structure Admits (terms : Terms) (original : Warehouse) : Prop where
  changes : ∀ table row row' row'', terms.changes table row row' →
    Rebuilt original table row' row'' → terms.changes table row row''
  adds : ∀ asset, Added (terms.changes .sorobanContracts) original asset → terms.adds asset

/-- The rows of the original, changed and then rebuilt. -/
abbrev Redone (terms : Terms) (original : Warehouse) (table : LiveTable) :
    table.Row → table.Row → Prop :=
  Comp (terms.changes table) (Rebuilt original table)

theorem Admits.redone (h : Admits terms original) (table : LiveTable) {row row' : table.Row}
    (hrow : Redone terms original table row row') : terms.changes table row row' := by
  obtain ⟨between, hchanged, hrebuilt⟩ := hrow
  exact h.changes table row between row' hchanged hrebuilt

theorem stagingRowCount_spec (table : LiveTable) {P : Warehouse → Prop} (hP : Lasting P)
    (hs : Known terms original P s) :
    Guarantees terms original (Sink.stagingRowCount table) (fun _ s => P s ∧ True) s :=
  read_spec (.stagingRowCount table) hP hs fun _ _ _ h =>
    answered_imp (fun _ _ _ => trivial) h

theorem rebuildAccounts_spec (dryRun : Bool) (hadmits : dryRun = false → Admits terms original)
    (hs : Known terms original (fun _ => True) s) :
    Guarantees terms original (rebuildAccounts dryRun)
      (fun _ s => dryRun = false → Live original .accounts (Redone terms original .accounts) s)
      s := by
  have hstaged := lasting_staged original .accounts (Redone terms original .accounts)
  have hlive := lasting_live original .accounts (Redone terms original .accounts)
  refine guarantees_bind (dropIfExists_spec (.like .accounts) lasting_true lasting_true hs
    fun _ _ _ _ => trivial) fun _ s hs => ?_
  refine guarantees_bind (createStagingLike_spec .accounts lasting_true hs
    fun _ _ _ => trivial) fun _ s hs => ?_
  refine guarantees_bind (buildStaging_spec .accounts lasting_true hs
    fun h => by cases h) fun _ s hs => ?_
  refine guarantees_bind (stagingRowCount_spec .accounts hstaged hs) fun rows s hs => ?_
  refine guarantees_bind (finalize_spec .accounts dryRun
    (fun hwet _ _ => (hadmits hwet).redone .accounts) ⟨hs.1, hs.2.1⟩) fun _ s hs => ?_
  exact guarantees_pure hlive.imp hs

/-- The types of all programs. -/
theorem classifyAllWasm_spec (hs : Known terms original (fun _ => True) s) :
    Guarantees terms original classifyAllWasm
      (fun verdicts _ => Faithful original.wasmPrograms verdicts) s := by
  refine guarantees_bind (read_spec .wasmPrograms
    (Q := fun rows => Faithful original.wasmPrograms (verdictsOf rows)) lasting_true hs
    fun s _ s' h => answered_imp ?_ h) fun rows s hs =>
      guarantees_pure (fun _ _ h _ => h) ⟨hs.1, hs.2.2⟩
  intro rows hperm hkept row row' hrow'
  obtain ⟨verdict, hverdict, rfl⟩ :=
    faithful_verdictsOf (fun program => hperm.mem_iff) row row' hrow'
  exact ⟨verdict, hverdict.of_merges hkept.sources.programs, rfl⟩

/-- A contract that a pass makes a fungible token, whichever of equally new rows it reads:
it is no SAC, and every program with its hash is that of a fungible token. -/
structure Token (original : Warehouse) (address : String) (contractId : Int64) : Prop where
  exists_row : ∃ row ∈ (original.tables .sorobanContracts).live.rows,
    SorobanContractRow.contractId row = address
  id : ∀ row ∈ (original.tables .sorobanContracts).live.rows,
    SorobanContractRow.contractId row = address → SorobanContractRow.id row = contractId
  fungible : ∀ row : SorobanContractRow,
    Survives SorobanContractRow.contractId SorobanContractRow.wasmUploadedAtLedger
      (original.tables .sorobanContracts).live.rows row →
    row.contractId = address → row.isSac = false ∧
      (∃ program ∈ original.wasmPrograms, row.wasmHash = some program.wasmHash) ∧
      ∀ program ∈ original.wasmPrograms, row.wasmHash = some program.wasmHash →
        classifyWasmMetadataJson program = some .fungible

/-- The contracts that are among the assets once a pass has ended. -/
def Tokens (original : Warehouse) (contractId : Int64) : Prop :=
  ∃ address, Token original address contractId

/-- What may become of a contract's row leaves what the contract is. -/
def SameContract (row row' : SorobanContractRow) : Prop :=
  row'.contractId = row.contractId ∧ row'.id = row.id ∧ row'.isSac = row.isSac ∧
    row'.wasmHash = row.wasmHash

/-- The assets that are inserted are those of fungible tokens that have none. -/
theorem added_of_selects {rows : List AssetRow} (hkept : Kept terms original s)
    (hrows : s.SelectsAssets rows) :
    ∀ asset ∈ rows, Added (terms.changes .sorobanContracts) original asset := by
  obtain ⟨contracts, hcontracts, assets, hassets, rfl⟩ := hrows
  intro asset hasset
  obtain ⟨contract, hcontract, rfl⟩ := List.mem_map.mp hasset
  obtain ⟨hmem, hlacks⟩ := List.mem_filter.mp hcontract
  obtain ⟨htype, hsac, hnone⟩ := of_decide_eq_true hlacks
  obtain ⟨before, hbefore, hchanged⟩ :=
    (hkept.tables .sorobanContracts).derives.readable contract (hcontracts.survives contract hmem)
  refine ⟨⟨before, contract, hbefore, hchanged, htype, by simpa using hsac, rfl⟩, ?_⟩
  intro other hother hcontractId
  -- an asset there was before is held, so the read has one of its key
  obtain ⟨current, hcurrent, hkey, -⟩ := hkept.held other hother
  obtain ⟨taken, htaken, hkey'⟩ := hassets.exists_mem current hcurrent
  obtain ⟨htakenType, -, -, htakenContract⟩ : taken.assetType = other.assetType ∧
      taken.assetCode = other.assetCode ∧ taken.issuerId = other.issuerId ∧
      taken.contractId = other.contractId := by
    simpa only [assetKey, Prod.mk.injEq] using hkey'.trans hkey
  rw [← not_or, ← htakenType]
  exact fun hone => hnone ⟨taken, htaken, htakenContract.trans hcontractId, hone⟩

/-- A fungible token has a row of that type wherever it is read. -/
theorem redone_of_token {address : String} {contractId : Int64}
    (htoken : Token original address contractId)
    (hsame : ∀ row row', terms.changes .sorobanContracts row row' → SameContract row row')
    {before after : SorobanContractRow}
    (hbefore : Survives SorobanContractRow.contractId SorobanContractRow.wasmUploadedAtLedger
      (original.tables .sorobanContracts).live.rows before)
    (haddress : before.contractId = address)
    (hredone : Redone terms original .sorobanContracts before after) :
    SameContract before after ∧ after.contractType = some 3 ∧ after.isSac = false := by
  obtain ⟨between, hchanged, verdict, hverdict, rfl⟩ := hredone
  obtain ⟨hsac, ⟨program, hprogram, hhash⟩, hall⟩ := htoken.fungible before hbefore haddress
  obtain ⟨hbetweenAddress, hbetweenId, hbetweenSac, hbetweenHash⟩ := hsame before between hchanged
  rw [hbetweenHash] at hverdict
  have hbetween : between.isSac = false := hbetweenSac.trans hsac
  have hfungibleVerdict : verdict = some .fungible := by
    rcases hverdict with ⟨other, hother, hotherHash, rfl⟩ | ⟨-, habsent⟩
    · exact hall other hother hotherHash
    · exact absurd hhash (habsent program hprogram)
  have hafter : between.withVerdict verdict = { between with contractType := some 3 } := by
    rw [hfungibleVerdict]
    exact if_neg (by simp [hbetween])
  rw [hafter]
  exact ⟨⟨hbetweenAddress, hbetweenId, hbetweenSac, hbetweenHash⟩, rfl, hbetween⟩

/-- Once the assets are inserted, the fungible tokens have theirs. -/
theorem listed_of_selects {rows : List AssetRow}
    (hsame : ∀ row row', terms.changes .sorobanContracts row row' → SameContract row row')
    (hlive : Live original .sorobanContracts (Redone terms original .sorobanContracts) s)
    (hrows : s.SelectsAssets rows) :
    Listed (Tokens original) { s with assets := s.assets.insert rows } := by
  obtain ⟨contracts, hcontracts, assets, hassets, rfl⟩ := hrows
  rintro contractId ⟨address, htoken⟩
  obtain ⟨row, hrow, haddress⟩ := htoken.exists_row
  -- the read of the live table has a row of the contract
  obtain ⟨kept, hkeptMem, hkeptKey⟩ := hlive.derives.kept row hrow
  obtain ⟨taken, htaken, htakenKey⟩ := hcontracts.exists_mem kept hkeptMem
  have htakenAddress : SorobanContractRow.contractId taken = address :=
    calc SorobanContractRow.contractId taken = kept.contractId := htakenKey
      _ = row.contractId := hkeptKey
      _ = address := haddress
  obtain ⟨before, hbefore, hredone⟩ :=
    hlive.derives.readable taken (hcontracts.survives taken htaken)
  have hbeforeAddress : SorobanContractRow.contractId before = address := by
    obtain ⟨between, hchanged, hretyped⟩ := hredone
    calc SorobanContractRow.contractId before = between.contractId :=
          (hsame before between hchanged).1.symm
      _ = SorobanContractRow.contractId taken := (Retyped.same hretyped).1.symm
      _ = address := htakenAddress
  obtain ⟨⟨-, htakenId, -, -⟩, htype, hsac⟩ :=
    redone_of_token htoken hsame hbefore hbeforeAddress hredone
  have hidTaken : SorobanContractRow.id taken = contractId :=
    htakenId.trans (htoken.id before hbefore.1 hbeforeAddress)
  by_cases hone : ∃ asset ∈ assets, asset.contractId = SorobanContractRow.id taken ∧
      (asset.assetType = 2 ∨ asset.assetType = 3)
  · obtain ⟨asset, hasset, hcontractId, hassetType⟩ := hone
    exact ⟨asset, List.mem_append_left _ (hassets.survives asset hasset).1,
      hcontractId.trans hidTaken, hassetType⟩
  · have hlacks : lacksAsset assets taken = true :=
      decide_eq_true ⟨htype, by simp [hsac], hone⟩
    exact ⟨type3Asset taken, List.mem_append_right _
      (List.mem_map_of_mem (List.mem_filter.mpr ⟨htaken, hlacks⟩)), hidTaken, .inr rfl⟩

theorem insertAssets_spec (hadmits : Admits terms original)
    (hsame : ∀ row row', terms.changes .sorobanContracts row row' → SameContract row row')
    (hs : Known terms original
      (Live original .sorobanContracts (Redone terms original .sorobanContracts)) s) :
    Guarantees terms original Sink.insertAssets (fun _ s =>
      Live original .sorobanContracts (Redone terms original .sorobanContracts) s ∧
        Listed (Tokens original) s) s := by
  have hlive := lasting_live original .sorobanContracts (Redone terms original .sorobanContracts)
  refine guarantees_ask .insertAssets hlive (fun _ => hlive.and (lasting_listed _)) hs
    fun s answer s' hs h => ?_
  have hinserted : s.Inserted (some s.assets) s.SelectsAssets
      (fun copy => { s with assets := copy }) answer s' := h
  -- an insert that failed may have left any of its rows behind
  refine known_of_inserted hs ?_ ?_ hinserted
  · intro copy rows hcopy hrows
    cases hcopy
    refine ⟨hs.1.withAssets (fun asset hasset => (held_of_mem hasset).append _) ?_, hs.2,
      listed_of_selects hsame hs.2 hrows⟩
    intro asset hasset
    rcases hasset with hasset | hlate
    · exact (List.mem_append.mp hasset).imp .inl
        fun hnew => hadmits.adds asset (added_of_selects hs.1 hrows asset hnew)
    · exact .inl (.inr hlate)
  · intro copy rows copy' hcopy hrows hfailed
    cases hcopy
    obtain ⟨there, hthere, rfl⟩ := hfailed
    refine hs.1.withAssets (fun asset hasset => (held_of_mem hasset).append _) ?_
    intro asset hasset
    rcases hasset with hasset | hlate
    · exact (List.mem_append.mp hasset).imp .inl
        fun hnew => hadmits.adds asset (added_of_selects hs.1 hrows asset (hthere.subset hnew))
    · exact (List.mem_append.mp hlate).imp .inr
        fun hnew => hadmits.adds asset (added_of_selects hs.1 hrows asset hnew)

/-- What a pass that is no dry run has done when it ends. -/
def Done (terms : Terms) (original s : Warehouse) : Report → Prop
  | .repairTier1 stats =>
      stats.dryRun = false → Live original .accounts (Redone terms original .accounts) s
  | .contractTypeRebuild stats => stats.dryRun = false →
      Live original .sorobanContracts (Redone terms original .sorobanContracts) s ∧
        Listed (Tokens original) s

section

variable (hsame : ∀ row row', terms.changes .sorobanContracts row row' → SameContract row row')

include hsame

theorem backfillAssets_spec (hadmits : Admits terms original)
    (hs : Known terms original
      (Live original .sorobanContracts (Redone terms original .sorobanContracts)) s) :
    Guarantees terms original backfillAssets (fun _ s =>
      Live original .sorobanContracts (Redone terms original .sorobanContracts) s ∧
        Listed (Tokens original) s) s := by
  have hlive := lasting_live original .sorobanContracts (Redone terms original .sorobanContracts)
  have hboth := hlive.and (lasting_listed (Tokens original))
  have hcount {P : Warehouse → Prop} (hP : Lasting P) {s : Warehouse}
      (hs : Known terms original P s) :
      Guarantees terms original Sink.assetsType3Count (fun _ s => P s ∧ True) s :=
    read_spec .assetsType3Count hP hs fun _ _ _ h => answered_imp (fun _ _ _ => trivial) h
  refine guarantees_bind (hcount hlive hs) fun before s hs => ?_
  refine guarantees_bind (insertAssets_spec hadmits hsame ⟨hs.1, hs.2.1⟩) fun _ s hs => ?_
  refine guarantees_bind (hcount hboth hs) fun after s hs => ?_
  exact guarantees_pure hboth ⟨hs.1, hs.2.1⟩

theorem contractTypeRebuild_spec (dryRun : Bool)
    (hadmits : dryRun = false → Admits terms original)
    (hs : Known terms original (fun _ => True) s) :
    Guarantees terms original (contractTypeRebuild dryRun)
      (fun stats s => Done terms original s (.contractTypeRebuild stats)) s := by
  -- what the exchange needs holds from the build on, whatever others do
  have hstaged := lasting_staged original .sorobanContracts
    (Redone terms original .sorobanContracts)
  have hlive := lasting_live original .sorobanContracts (Redone terms original .sorobanContracts)
  have hdone : Lasting fun s => dryRun = false →
      Live original .sorobanContracts (Redone terms original .sorobanContracts) s ∧
        Listed (Tokens original) s :=
    (hlive.and (lasting_listed _)).imp
  refine guarantees_bind (classifyAllWasm_spec hs) fun verdicts s hs => ?_
  have hfaithful := hs.2
  refine guarantees_bind (dropIfExists_spec .verdicts lasting_true lasting_true
    ⟨hs.1, trivial⟩ fun _ _ _ _ => trivial) fun _ s hs => ?_
  refine guarantees_bind (createVerdictTable_spec hs) fun _ s hs => ?_
  refine guarantees_bind (insertVerdicts_spec verdicts hs) fun _ s hs => ?_
  have hare := lasting_verdictsAre verdicts
  refine guarantees_bind (dropIfExists_spec (.like .sorobanContracts) hare hare hs
    fun s s' h heffect => Option.some.inj heffect ▸ h) fun _ s hs => ?_
  -- the staging table
  refine guarantees_bind (createStagingLike_spec .sorobanContracts hare hs
    fun _ _ h => h) fun _ s hs => ?_
  refine guarantees_bind (buildStaging_spec .sorobanContracts hare hs
    fun _ s h => ⟨verdicts, h, hfaithful⟩) fun _ s hs => ?_
  refine guarantees_bind (read_spec .countFlips (Q := fun _ => True) hstaged hs fun _ _ _ h =>
    answered_imp (fun _ _ _ => trivial) h) fun flipped s hs => ?_
  refine guarantees_bind (read_spec .countAssetsToInsert (Q := fun _ => True) hstaged
    ⟨hs.1, hs.2.1⟩ fun _ _ _ h => answered_imp (fun _ _ _ => trivial) h) fun would s hs => ?_
  refine guarantees_bind (dropIfExists_spec .verdicts hstaged hstaged ⟨hs.1, hs.2.1⟩
    fun s s' h heffect => Option.some.inj heffect ▸ h) fun _ s hs => ?_
  -- a dry pass leaves the table where it is
  refine guarantees_bind (finalize_spec .sorobanContracts dryRun
    (fun hwet _ _ => (hadmits hwet).redone .sorobanContracts) hs) fun _ s hs => ?_
  cases dryRun with
  | true =>
      refine guarantees_bind (R := fun _ _ => True)
        (guarantees_pure lasting_true ⟨hs.1, trivial⟩) fun inserted s hs => ?_
      exact guarantees_pure hdone ⟨hs.1, fun hwet => by cases hwet⟩
  | false =>
      refine guarantees_bind (backfillAssets_spec hsame (hadmits rfl)
        ⟨hs.1, hs.2 rfl⟩) fun inserted s hs => ?_
      exact guarantees_pure hdone ⟨hs.1, fun _ => hs.2⟩

/-- **A pass keeps the tables**, and has done what it is for when it ends. -/
theorem execute_spec (command : Command)
    (hadmits : command.dryRun = false → Admits terms original)
    (hs : Known terms original (fun _ => True) s) :
    Guarantees terms original command.execute
      (fun report s => Done terms original s report) s := by
  have hdone : ∀ report, Lasting fun s => Done terms original s report := by
    intro report
    cases report with
    | repairTier1 stats => exact (lasting_live original .accounts _).imp
    | contractTypeRebuild stats =>
        exact ((lasting_live original .sorobanContracts _).and (lasting_listed _)).imp
  cases command with
  | repairTier1 dryRun =>
      refine guarantees_bind (R := fun stats s => Done terms original s (.repairTier1 stats)) ?_
        fun stats s hs => guarantees_pure (hdone (.repairTier1 stats)) hs
      refine guarantees_bind (rebuildAccounts_spec dryRun hadmits hs) fun rows s hs => ?_
      exact guarantees_pure (hdone (.repairTier1 ⟨rows, dryRun⟩)) hs
  | contractTypeRebuild dryRun =>
      refine guarantees_bind (contractTypeRebuild_spec hsame dryRun hadmits hs)
        fun stats s hs => guarantees_pure (hdone (.contractTypeRebuild stats)) hs

end

end

end SorobanExplorer.Rebuild
