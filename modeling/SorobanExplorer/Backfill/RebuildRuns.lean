import SorobanExplorer.Backfill.RebuildSpec

/-!
# Passes one after another

Passes may fail or be killed at any point and be started again.  A live table is whole all
the time (`tables_kept`), dry runs change nothing (`dryRun_changes_nothing`), and once a
pass has ended its table is what the original makes of it, however many passes failed before
it and whatever passes follow (`types_rebuilt`, `firstLedgers_rebuilt`): a row rebuilt twice
is rebuilt.
-/

namespace SorobanExplorer.Rebuild

open AssetFacets (AssetRow)
open Interaction Relation Replacing StagedSwap Versioned Warehouse

/-- A row that was rebuilt, or that is as it was in a table not done yet. -/
def Changed (original : Warehouse) (done : LiveTable → Prop) (table : LiveTable)
    (row row' : table.Row) : Prop :=
  ¬ done table ∧ row' = row ∨ Rebuilt original table row row'

/-- The terms of passes, some tables being done. -/
def passTerms (original : Warehouse) (done : LiveTable → Prop) (required : Int64 → Prop) :
    Terms where
  changes := Changed original done
  adds := Added (Changed original (fun _ => False) .sorobanContracts) original
  required := required

/-- The terms of dry runs. -/
def dryTerms : Terms where
  changes _ row row' := row' = row
  adds _ := False
  required _ := False

section

variable {original : Warehouse} {done : LiveTable → Prop} {required : Int64 → Prop}

theorem Changed.mono {done' : LiveTable → Prop} {table : LiveTable} {row row' : table.Row}
    (hdone : done' table → done table) (h : Changed original done table row row') :
    Changed original done' table row row' :=
  h.imp_left (And.imp_left (mt hdone))

theorem Changed.rebuilt {table : LiveTable} {row row' row'' : table.Row}
    (h : Changed original done table row row') (hrebuilt : Rebuilt original table row' row'') :
    Rebuilt original table row row'' := by
  rcases h with ⟨-, rfl⟩ | h
  · exact hrebuilt
  · exact h.trans hrebuilt

theorem sameContract_changed {row row' : SorobanContractRow}
    (h : Changed original done .sorobanContracts row row') : SameContract row row' := by
  rcases h with ⟨-, rfl⟩ | h
  · exact ⟨rfl, rfl, rfl, rfl⟩
  · exact Retyped.same h

theorem admits_passTerms : Admits (passTerms original done required) original where
  changes := fun _ _ _ _ h hrebuilt => .inr (h.rebuilt hrebuilt)
  adds := by
    rintro asset ⟨⟨before, after, hbefore, hchanged, hafter⟩, hlacking⟩
    exact ⟨⟨before, after, hbefore, hchanged.mono False.elim, hafter⟩, hlacking⟩

/-- What a pass leaves when it ends. -/
def Ended (terms : Terms) (original : Warehouse) :
    Except BackfillError Report → Warehouse → Prop :=
  OnOk fun report s => Done terms original s report

theorem stable_kept (terms : Terms) : Stable clickhouse (Kept terms original) :=
  fun _ _ h hdrift => h.drift hdrift

theorem upholds_passes {p : Prog sql (Except BackfillError Report)} (hp : Passes p)
    {s : Warehouse} (hs : Kept (passTerms original done required) original s) :
    Upholds clickhouse (Kept (passTerms original done required) original) p
      (Ended (passTerms original done required) original) s := by
  obtain ⟨command, rfl⟩ := hp
  refine upholds_imp ?_ (execute_spec (fun _ _ => sameContract_changed) command
    (fun _ => admits_passTerms) ⟨hs, trivial⟩)
  intro answer s' hs'
  cases answer with
  | ok report => exact hs'.now
  | error error => trivial

/-- The original keeps itself. -/
theorem Warehouse.Quiet.kept {terms : Terms} (h : original.Quiet)
    (hrefl : ∀ table row, terms.changes table row row) (hrequired : ∀ id, ¬ terms.required id) :
    Kept terms original original where
  tables := fun table => ⟨derives_refl (hrefl table), h.tables table⟩
  sources := ⟨merges_refl _, merges_refl _⟩
  held := fun _ hasset => held_of_mem hasset
  added := by
    intro asset hasset
    rw [h.assets] at hasset
    exact .inl (hasset.resolve_right List.not_mem_nil)
  required := fun contractId hid => absurd hid (hrequired contractId)

end

/-! ## Any passes -/

section

variable {original : Warehouse} {c c' : Config clickhouse (Except BackfillError Report)}

/-- No table is done, and no asset has to be there. -/
abbrev firstTerms (original : Warehouse) : Terms :=
  passTerms original (fun _ => False) fun _ => False

theorem kept_firstTerms (hquiet : original.Quiet) :
    Kept (firstTerms original) original original := by
  refine hquiet.kept (fun table row => ?_) fun _ => id
  exact Or.inl ⟨id, rfl⟩

theorem kept_of_reachable (hquiet : original.Quiet)
    (hreach : Reachable clickhouse Passes original c) :
    Kept (firstTerms original) original c.env :=
  invariant_of_upholds (stable_kept _)
    (fun _ hp _ hs => upholds_imp (fun _ _ _ => trivial) (upholds_passes hp hs))
    (kept_firstTerms hquiet) hreach

theorem ended_of_reachable (hquiet : original.Quiet)
    (hreach : Reachable clickhouse Passes original c) {answer : Except BackfillError Report}
    (hended : c.running = some (.ret answer)) : Ended (firstTerms original) original answer c.env :=
  returned_of_upholds (stable_kept _) (fun _ hp _ hs => upholds_passes hp hs)
    (kept_firstTerms hquiet) hreach hended

/-- What holds where a pass has ended holds after any passes that follow. -/
theorem kept_after {done : LiveTable → Prop} {required : Int64 → Prop}
    {answer : Except BackfillError Report} (hended : c.running = some (.ret answer))
    (hkept : Kept (passTerms original done required) original c.env)
    (hlater : ReflTransGen (Interaction.Step clickhouse Passes) c c') :
    Kept (passTerms original done required) original c'.env := by
  refine invariant_after (stable_kept _) (fun p hp s hs => ?_) (fun p hp => ⟨answer, ?_⟩) hkept
    hlater
  · exact upholds_imp (fun _ _ _ => trivial) (upholds_passes hp hs)
  · exact Option.some.inj (hp.symm.trans hended)

/-- A table is done, and some assets are there. -/
theorem Warehouse.Kept.done {done : LiveTable → Prop} {required : Int64 → Prop} {s : Warehouse}
    (h : Kept (firstTerms original) original s)
    (hdone : ∀ table, done table →
      Live original table (Redone (firstTerms original) original table) s)
    (hrequired : Listed required s) : Kept (passTerms original done required) original s where
  tables := by
    intro table
    by_cases htable : done table
    · refine ⟨(hdone table htable).derives.imp ?_, (hdone table htable).late⟩
      rintro row row' ⟨between, hchanged, hrebuilt⟩
      have hchanged : Changed original (fun _ => False) table row between := hchanged
      exact .inr (hchanged.rebuilt hrebuilt)
    · refine ⟨(h.tables table).derives.imp ?_, (h.tables table).late⟩
      rintro row row' (⟨-, hsame⟩ | hrebuilt)
      · exact .inl ⟨htable, hsame⟩
      · exact .inr hrebuilt
  sources := h.sources
  held := h.held
  added := h.added
  required := hrequired

/-- **No table is ever partial.**  At every point of passes that fail, are killed and start
again, what a read takes of a live table was there before or was rebuilt from what was,
every key is there, no asset is lost, and each asset that is new is that of a fungible token
that had none. -/
theorem tables_kept (hquiet : original.Quiet) (hreach : Reachable clickhouse Passes original c) :
    (∀ table, Derives (fun row row' => row' = row ∨ Rebuilt original table row row')
      table.key table.version (original.tables table).live.rows
      (c.env.tables table).live.rows) ∧
    (∀ asset ∈ original.assets.rows, Held assetKey unversioned c.env.assets.rows asset) ∧
    ∀ asset ∈ c.env.assets.rows, asset ∈ original.assets.rows ∨
      Added (fun row row' => row' = row ∨ Retyped original.wasmPrograms row row') original
        asset := by
  have hkept := kept_of_reachable hquiet hreach
  refine ⟨fun table => (hkept.tables table).derives.imp fun row row' h => h.imp_left And.right,
    hkept.held, fun asset hasset => (hkept.added asset (.inl hasset)).imp_right ?_⟩
  rintro ⟨⟨before, after, hbefore, hchanged, hafter⟩, hlacking⟩
  exact ⟨⟨before, after, hbefore, hchanged.imp_left And.right, hafter⟩, hlacking⟩

/-- **Dry runs change nothing** that a read can tell. -/
theorem dryRun_changes_nothing (hquiet : original.Quiet)
    (hreach : Reachable clickhouse DryPasses original c) :
    (∀ table, Derives (fun row row' => row' = row) table.key table.version
      (original.tables table).live.rows (c.env.tables table).live.rows) ∧
    (∀ asset ∈ original.assets.rows, Held assetKey unversioned c.env.assets.rows asset) ∧
    ∀ asset ∈ c.env.assets.rows, asset ∈ original.assets.rows := by
  have hkept : Kept dryTerms original c.env := by
    refine invariant_of_upholds (stable_kept _) (fun p hp s hs => ?_)
      (hquiet.kept (fun _ _ => rfl) fun _ => id) hreach
    obtain ⟨command, hdry, rfl⟩ := hp
    refine upholds_imp (fun _ _ _ => trivial) (execute_spec ?_ command ?_ ⟨hs, trivial⟩)
    · rintro row row' rfl
      exact ⟨rfl, rfl, rfl, rfl⟩
    · exact fun hwet => absurd (hdry.symm.trans hwet) (by decide)
  refine ⟨fun table => (hkept.tables table).derives, hkept.held, fun asset hasset => ?_⟩
  exact (hkept.added asset (.inl hasset)).resolve_right id

/-- **A rebuild of the types that ended is for good.**  However many passes failed before it
and whatever passes follow, every row a read takes of the contracts is one it took before,
with the type that the stored programs give it, every contract is there, and every contract
whose programs are those of a fungible token is among the assets. -/
theorem types_rebuilt (hquiet : original.Quiet) (hreach : Reachable clickhouse Passes original c)
    {stats : ContractTypeRebuildStats}
    (hended : c.running = some (.ret (.ok (.contractTypeRebuild stats))))
    (hwet : stats.dryRun = false)
    (hlater : ReflTransGen (Interaction.Step clickhouse Passes) c c') :
    Derives (Retyped original.wasmPrograms) SorobanContractRow.contractId
      SorobanContractRow.wasmUploadedAtLedger (original.tables .sorobanContracts).live.rows
      (c'.env.tables .sorobanContracts).live.rows ∧
    ∀ contractId, Tokens original contractId → c'.env.HasAsset contractId := by
  obtain ⟨hlive, hlisted⟩ := ended_of_reachable hquiet hreach hended hwet
  have hdone : Kept (passTerms original (· = .sorobanContracts) (Tokens original)) original
      c.env :=
    (kept_of_reachable hquiet hreach).done (fun table htable => htable ▸ hlive) hlisted
  have hkept := kept_after hended hdone hlater
  refine ⟨(hkept.tables .sorobanContracts).derives.imp ?_, hkept.required⟩
  intro row row' hchanged
  exact hchanged.resolve_left fun h => h.1 rfl

/-- **A repair that ended is for good**: every account has its first ledger as the
participants tell it, and zero if they do not name it. -/
theorem firstLedgers_rebuilt (hquiet : original.Quiet)
    (hreach : Reachable clickhouse Passes original c) {stats : RepairTier1Stats}
    (hended : c.running = some (.ret (.ok (.repairTier1 stats)))) (hwet : stats.dryRun = false)
    (hlater : ReflTransGen (Interaction.Step clickhouse Passes) c c') :
    Derives (fun row row' : AccountRow => row' =
        { row with firstSeenLedger := firstLedger original.transactionParticipants row.id })
      AccountRow.accountId AccountRow.lastSeenLedger (original.tables .accounts).live.rows
      (c'.env.tables .accounts).live.rows := by
  have hlive := ended_of_reachable hquiet hreach hended hwet
  have hdone : Kept (passTerms original (· = .accounts) fun _ => False) original c.env :=
    (kept_of_reachable hquiet hreach).done (fun table htable => htable ▸ hlive)
      fun _ hid => hid.elim
  have hkept := kept_after hended hdone hlater
  refine (hkept.tables .accounts).derives.imp fun row row' hchanged => ?_
  exact hchanged.resolve_left fun h => h.1 rfl

end

/-! ## A warehouse with one account and one contract -/

private def account : AccountRow := ⟨1, "G", 9, 9, 0, none⟩

private def contract : SorobanContractRow :=
  ⟨2, "C", some [7], 5, none, some 5, some 1, false, none, none⟩

/-- An account seen late, and a contract whose program has been stored since. -/
private def sample : Warehouse where
  tables
    | .accounts => ⟨⟨[account], []⟩, none⟩
    | .sorobanContracts => ⟨⟨[contract], []⟩, none⟩
  verdicts := none
  assets := ⟨[], []⟩
  wasmPrograms := [⟨[7], some ["decimals"], []⟩]
  transactionParticipants := [⟨1, 4, 1⟩]

private theorem quiet_sample : sample.Quiet where
  tables := by
    intro table
    cases table <;> rfl
  assets := rfl

private theorem final_singleton {table : LiveTable} (row : table.Row) :
    IsFinal table.key table.version [row] [row] :=
  isFinal_of_nodup (List.nodup_singleton _)

private theorem next {programs : Prog sql (Except BackfillError Report) → Prop}
    {original s s' : Warehouse} {p : Prog sql (Except BackfillError Report)}
    (hreach : Reachable clickhouse programs original ⟨s, some p⟩) (op : Statement)
    {rest : Except BackfillError op.Value → Prog sql (Except BackfillError Report)}
    (answer : Except BackfillError op.Value) (hp : p = .ask op rest)
    (hanswer : s.Answers op answer s') :
    Reachable clickhouse programs original ⟨s', some (rest answer)⟩ :=
  hreach.answer hp hanswer

/-- A repair that ends. -/
private theorem reachable_repair : ∃ s, Reachable clickhouse Passes sample
    ⟨s, some (.ret (.ok (.repairTier1 ⟨1, false⟩)))⟩ := by
  have hwake : Reachable clickhouse Passes sample
      ⟨sample, some (Command.repairTier1 false).execute.run⟩ :=
    ReflTransGen.refl.tail (.wake ⟨.repairTier1 false, rfl⟩)
  have hdrop := next hwake (.dropIfExists (.like .accounts)) (.ok ()) rfl rfl
  have hcreate := next hdrop (.createStagingLike .accounts) (.ok ()) rfl rfl
  have hbuild := next hcreate (.buildStaging .accounts) (.ok ()) rfl
    ⟨_, _, rfl, ⟨[account], @final_singleton .accounts account, rfl⟩, rfl⟩
  have hcount := next hbuild (.stagingRowCount .accounts) (.ok (1 : ℕ)) rfl ⟨⟨_, rfl, rfl⟩, rfl⟩
  have hexchange := next hcount (.exchangeTables .accounts) (.ok ()) rfl rfl
  have hend := next hexchange (.dropIfExists (.like .accounts)) (.ok ()) rfl rfl
  exact ⟨_, hend⟩

/-- A dry run that ends. -/
private theorem reachable_dryRun : ∃ s, Reachable clickhouse DryPasses sample
    ⟨s, some (.ret (.ok (.repairTier1 ⟨1, true⟩)))⟩ := by
  have hwake : Reachable clickhouse DryPasses sample
      ⟨sample, some (Command.repairTier1 true).execute.run⟩ :=
    ReflTransGen.refl.tail (.wake ⟨.repairTier1 true, rfl, rfl⟩)
  have hdrop := next hwake (.dropIfExists (.like .accounts)) (.ok ()) rfl rfl
  have hcreate := next hdrop (.createStagingLike .accounts) (.ok ()) rfl rfl
  have hbuild := next hcreate (.buildStaging .accounts) (.ok ()) rfl
    ⟨_, _, rfl, ⟨[account], @final_singleton .accounts account, rfl⟩, rfl⟩
  have hcount := next hbuild (.stagingRowCount .accounts) (.ok (1 : ℕ)) rfl ⟨⟨_, rfl, rfl⟩, rfl⟩
  have hend := next hcount (.dropIfExists (.like .accounts)) (.ok ()) rfl rfl
  exact ⟨_, hend⟩

private def programVerdict : VerdictRow := ⟨[7], 3⟩

/-- A rebuild of the types that ends. -/
private theorem reachable_rebuild : ∃ s, Reachable clickhouse Passes sample
    ⟨s, some (.ret (.ok (.contractTypeRebuild ⟨0, 1, 1, false⟩)))⟩ := by
  have hwake : Reachable clickhouse Passes sample
      ⟨sample, some (Command.contractTypeRebuild false).execute.run⟩ :=
    ReflTransGen.refl.tail (.wake ⟨.contractTypeRebuild false, rfl⟩)
  -- the programs, classified from their declared functions
  have hprograms := next hwake .wasmPrograms (.ok [⟨[7], some ["decimals"], []⟩]) rfl
    ⟨.refl _, rfl⟩
  have hdropVerdicts := next hprograms (.dropIfExists .verdicts) (.ok ()) rfl rfl
  have hcreateVerdicts := next hdropVerdicts .createVerdictTable (.ok ()) rfl rfl
  have hinsert := next hcreateVerdicts (.insertVerdicts [programVerdict]) (.ok ()) rfl
    ⟨_, _, rfl, rfl, rfl⟩
  -- the staging table, built beside the live one
  have hdrop := next hinsert (.dropIfExists (.like .sorobanContracts)) (.ok ()) rfl rfl
  have hcreate := next hdrop (.createStagingLike .sorobanContracts) (.ok ()) rfl rfl
  have hbuild := next hcreate (.buildStaging .sorobanContracts) (.ok ()) rfl
    ⟨_, _, rfl, ⟨[contract], @final_singleton .sorobanContracts contract, _, rfl, rfl⟩, rfl⟩
  have hflips := next hbuild .countFlips (.ok (0, 1)) rfl
    ⟨⟨[contract], @final_singleton .sorobanContracts contract, _, rfl, rfl⟩, rfl⟩
  have hwould := next hflips .countAssetsToInsert (.ok (1 : ℕ)) rfl
    ⟨⟨[], isFinal_of_nodup .nil, _, rfl, rfl⟩, rfl⟩
  have hdropAgain := next hwould (.dropIfExists .verdicts) (.ok ()) rfl rfl
  -- the exchange, and the tokens that follow from the new types
  have hexchange := next hdropAgain (.exchangeTables .sorobanContracts) (.ok ()) rfl rfl
  have hdropOld := next hexchange (.dropIfExists (.like .sorobanContracts)) (.ok ()) rfl rfl
  have hbefore := next hdropOld .assetsType3Count (.ok (0 : ℕ)) rfl
    ⟨⟨[], isFinal_of_nodup .nil, rfl⟩, rfl⟩
  have hassets := next hbefore .insertAssets (.ok ()) rfl
    ⟨_, _, rfl, ⟨[{ contract with contractType := some 3 }],
      @final_singleton .sorobanContracts { contract with contractType := some 3 }, [],
      isFinal_of_nodup .nil, rfl⟩, rfl⟩
  have hafter := next hassets .assetsType3Count (.ok (1 : ℕ)) rfl
    ⟨⟨[⟨3, "", 0, 2, 0⟩], isFinal_of_nodup (List.nodup_singleton _), rfl⟩, rfl⟩
  exact ⟨_, hafter⟩

/-- The tables where the rebuild has ended. -/
theorem tables_kept_rebuild : ∃ s : Warehouse,
    (∀ table, Derives (fun row row' => row' = row ∨ Rebuilt sample table row row')
      table.key table.version (sample.tables table).live.rows (s.tables table).live.rows) ∧
    (∀ asset ∈ sample.assets.rows, Held assetKey unversioned s.assets.rows asset) ∧
    ∀ asset ∈ s.assets.rows, asset ∈ sample.assets.rows ∨
      Added (fun row row' => row' = row ∨ Retyped sample.wasmPrograms row row') sample asset := by
  obtain ⟨s, hreach⟩ := reachable_rebuild
  exact ⟨s, tables_kept quiet_sample hreach⟩

/-- The tables where the dry run has ended. -/
theorem dryRun_changes_nothing_repair : ∃ s : Warehouse,
    (∀ table, Derives (fun row row' => row' = row) table.key table.version
      (sample.tables table).live.rows (s.tables table).live.rows) ∧
    (∀ asset ∈ sample.assets.rows, Held assetKey unversioned s.assets.rows asset) ∧
    ∀ asset ∈ s.assets.rows, asset ∈ sample.assets.rows := by
  obtain ⟨s, hreach⟩ := reachable_dryRun
  exact ⟨s, dryRun_changes_nothing quiet_sample hreach⟩

private theorem token_contract : Token sample "C" 2 where
  exists_row := ⟨contract, List.mem_cons_self, rfl⟩
  id := by
    intro row hrow _
    cases List.mem_singleton.mp hrow
    rfl
  fungible := by
    intro row hrow _
    cases List.mem_singleton.mp hrow.1
    refine ⟨rfl, ⟨_, List.mem_cons_self, rfl⟩, fun program hprogram _ => ?_⟩
    cases List.mem_singleton.mp hprogram
    rfl

/-- The contract has its asset once the rebuild has ended. -/
theorem types_rebuilt_sample : ∃ s : Warehouse, s.HasAsset 2 := by
  obtain ⟨s, hreach⟩ := reachable_rebuild
  exact ⟨s, (types_rebuilt quiet_sample hreach rfl rfl .refl).2 2 ⟨"C", token_contract⟩⟩

/-- The account has its first ledger once the repair has ended. -/
theorem firstLedgers_rebuilt_sample : ∃ s : Warehouse, ∃ row : AccountRow,
    Survives AccountRow.accountId AccountRow.lastSeenLedger (s.tables .accounts).live.rows row ∧
      row.firstSeenLedger = 4 := by
  obtain ⟨s, hreach⟩ := reachable_repair
  have hrebuilt := firstLedgers_rebuilt quiet_sample hreach rfl rfl .refl
  obtain ⟨row, hrow, hkey⟩ := hrebuilt.kept account List.mem_cons_self
  obtain ⟨newest, hnewest, -⟩ :=
    Versioned.exists_newest AccountRow.accountId AccountRow.lastSeenLedger hrow
  obtain ⟨before, hbefore, rfl⟩ := hrebuilt.readable newest hnewest
  cases List.mem_singleton.mp hbefore.1
  exact ⟨s, _, hnewest, rfl⟩

end SorobanExplorer.Rebuild
