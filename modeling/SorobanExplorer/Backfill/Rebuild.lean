import Mathlib.Algebra.Order.Ring.Int
import Mathlib.Data.Int.ConditionallyCompleteOrder
import Mathlib.Logic.Function.Basic
import SorobanExplorer.Lib.Interaction
import SorobanExplorer.Lib.StagedSwap
import SorobanExplorer.Persist.AccountRows
import SorobanExplorer.Persist.AssetFacets
import SorobanExplorer.Persist.WasmPrograms

/-!
# Rebuilding whole tables

`repair-tier1` rebuilds `accounts` with each account's first ledger, and
`contract-type-rebuild` rebuilds `soroban_contracts` with each contract's type and adds the
assets that follow from it.  Both fill a staging table from the live one, exchange the two
and drop the old one; a dry run drops the staging table instead.

The indexer is stopped meanwhile, so the tables change by the statements of one pass, and
by themselves: they merge, and rows of failed inserts may land late.  A statement that
defines or drops a table and fails has taken effect or has not; it does not later.
-/

namespace SorobanExplorer.Rebuild

open AssetFacets (AssetRow)
open Interaction Replacing StagedSwap Text Versioned

/-! ## Tables -/

/-- The tables that are rebuilt. -/
inductive LiveTable
  | accounts
  | sorobanContracts
  deriving DecidableEq

namespace LiveTable

def Row : LiveTable → Type
  | accounts => AccountRow
  | sorobanContracts => SorobanContractRow

/-- The column a table is ordered by. -/
def key : (table : LiveTable) → table.Row → String
  | accounts, row => AccountRow.accountId row
  | sorobanContracts, row => SorobanContractRow.contractId row

/-- The version of a row. -/
def version : (table : LiveTable) → table.Row → ℤ
  | accounts, row => AccountRow.lastSeenLedger row
  | sorobanContracts, row => SorobanContractRow.wasmUploadedAtLedger row

end LiveTable

/-- The tables a pass makes and drops. -/
inductive StagingTable
  | like (source : LiveTable)
  | verdicts

/-- What a program makes of its contracts. -/
structure VerdictRow where
  wasmHash : Bytes
  verdict : Int16
  deriving DecidableEq

structure TransactionParticipantRow where
  accountId : Int64
  ledgerSequence : ℤ
  applicationOrder : Int16
  deriving DecidableEq

/-- The columns `assets` is ordered by; its rows have no version. -/
def assetKey (row : AssetRow) : Int16 × String × Int64 × Int64 :=
  (row.assetType, row.assetCode, row.issuerId, row.contractId)

/-- The version of the rows of a table without one. -/
def unversioned {α : Type} (_ : α) : ℤ := 0

/-! ## Statements -/

inductive BackfillError
  | ch (message : String)

inductive Statement
  | dropIfExists (table : StagingTable)
  | createStagingLike (source : LiveTable)
  | createVerdictTable
  | insertVerdicts (verdicts : List VerdictRow)
  | buildStaging (source : LiveTable)
  | stagingRowCount (source : LiveTable)
  | exchangeTables (live : LiveTable)
  | wasmPrograms
  | countFlips
  | countAssetsToInsert
  | insertAssets
  | assetsType3Count

/-- What a statement answers with when it succeeds. -/
def Statement.Value : Statement → Type
  | .wasmPrograms => List WasmProgramRow
  | .countFlips => ℕ × ℕ
  | .stagingRowCount _ | .countAssetsToInsert | .assetsType3Count => ℕ
  | .dropIfExists _ | .createStagingLike _ | .createVerdictTable | .insertVerdicts _
  | .buildStaging _ | .exchangeTables _ | .insertAssets => Unit

/-- Every statement may fail. -/
abbrev sql : Interface where
  Op := Statement
  Ans op := Except BackfillError op.Value

abbrev Sink (α : Type) : Type := ExceptT BackfillError (Prog sql) α

namespace Sink

def ask (op : Statement) : Sink op.Value := .mk (@Prog.perform sql op)

def dropIfExists (table : StagingTable) : Sink Unit := ask (.dropIfExists table)

def createStagingLike (source : LiveTable) : Sink Unit := ask (.createStagingLike source)

def createVerdictTable : Sink Unit := ask .createVerdictTable

/-- Nothing is asked when there is nothing to insert. -/
def insertVerdicts (verdicts : List VerdictRow) : Sink Unit :=
  if verdicts = [] then return () else ask (.insertVerdicts verdicts)

def buildStaging (source : LiveTable) : Sink Unit := ask (.buildStaging source)

def stagingRowCount (source : LiveTable) : Sink ℕ := ask (.stagingRowCount source)

def exchangeTables (live : LiveTable) : Sink Unit := ask (.exchangeTables live)

def wasmPrograms : Sink (List WasmProgramRow) := ask .wasmPrograms

def countFlips : Sink (ℕ × ℕ) := ask .countFlips

def countAssetsToInsert : Sink ℕ := ask .countAssetsToInsert

def insertAssets : Sink Unit := ask .insertAssets

def assetsType3Count : Sink ℕ := ask .assetsType3Count

end Sink

/-! ## The passes -/

/-- Exchange the staging table in and drop the old one; a dry run drops the staging table. -/
def finalize (live : LiveTable) (dryRun : Bool) : Sink Unit := do
  if dryRun then
    return ← Sink.dropIfExists (.like live)
  Sink.exchangeTables live
  Sink.dropIfExists (.like live)

structure RepairTier1Stats where
  accountsRows : ℕ
  dryRun : Bool

def rebuildAccounts (dryRun : Bool) : Sink ℕ := do
  Sink.dropIfExists (.like .accounts)
  Sink.createStagingLike .accounts
  Sink.buildStaging .accounts
  let rows ← Sink.stagingRowCount .accounts
  finalize .accounts dryRun
  return rows

def repairTier1 (dryRun : Bool) : Sink RepairTier1Stats := do
  let accountsRows ← rebuildAccounts dryRun
  return ⟨accountsRows, dryRun⟩

structure ContractTypeRebuildStats where
  flippedNft : ℕ
  flippedFungible : ℕ
  assetsInserted : ℕ
  dryRun : Bool

/-- The decisive types of the stored programs. -/
def verdictsOf (rows : List WasmProgramRow) : List VerdictRow :=
  rows.filterMap fun row =>
    (classifyWasmMetadataJson row).map fun verdict => ⟨row.wasmHash, verdict.toI16⟩

def classifyAllWasm : Sink (List VerdictRow) := do
  let rows ← Sink.wasmPrograms
  return verdictsOf rows

def backfillAssets : Sink ℕ := do
  let before ← Sink.assetsType3Count
  Sink.insertAssets
  let after ← Sink.assetsType3Count
  return after - before

def contractTypeRebuild (dryRun : Bool) : Sink ContractTypeRebuildStats := do
  let verdicts ← classifyAllWasm
  Sink.dropIfExists .verdicts
  Sink.createVerdictTable
  Sink.insertVerdicts verdicts
  Sink.dropIfExists (.like .sorobanContracts)
  Sink.createStagingLike .sorobanContracts
  Sink.buildStaging .sorobanContracts
  let (flippedNft, flippedFungible) ← Sink.countFlips
  let assetsWouldInsert ← Sink.countAssetsToInsert
  Sink.dropIfExists .verdicts
  finalize .sorobanContracts dryRun
  let assetsInserted ← if dryRun then pure assetsWouldInsert else backfillAssets
  return ⟨flippedNft, flippedFungible, assetsInserted, dryRun⟩

/-- The two commands. -/
inductive Command
  | repairTier1 (dryRun : Bool)
  | contractTypeRebuild (dryRun : Bool)

def Command.dryRun : Command → Bool
  | .repairTier1 dryRun | .contractTypeRebuild dryRun => dryRun

inductive Report
  | repairTier1 (stats : RepairTier1Stats)
  | contractTypeRebuild (stats : ContractTypeRebuildStats)

def Command.execute : Command → Sink Report
  | .repairTier1 dryRun => .repairTier1 <$> Rebuild.repairTier1 dryRun
  | .contractTypeRebuild dryRun => .contractTypeRebuild <$> Rebuild.contractTypeRebuild dryRun

/-! ## What the statements select -/

/-- The first ledger an account takes part in; a join that finds none gives zero, not the
absence the statement tests for. -/
def firstLedger (participants : List TransactionParticipantRow) (account : Int64) : ℤ :=
  (((participants.filter (·.accountId = account)).map (·.ledgerSequence)).min?).getD 0

def repaired (participants : List TransactionParticipantRow) (row : AccountRow) : AccountRow :=
  { row with firstSeenLedger := firstLedger participants row.id }

/-- A contract's row beside one type of its program; no row of a SAC changes. -/
def retyped (row : SorobanContractRow) (verdict : VerdictRow) : SorobanContractRow :=
  if !row.isSac ∧ (verdict.verdict = 2 ∨ verdict.verdict = 3) then
    { row with contractType := some verdict.verdict }
  else row

/-- The rows of a contract: one for each type its program has, or as it was. -/
def rebuilt (verdicts : List VerdictRow) (row : SorobanContractRow) : List SorobanContractRow :=
  match verdicts.filter fun verdict => row.wasmHash = some verdict.wasmHash with
  | [] => [row]
  | joined => joined.map (retyped row)

/-- A contract needs an asset: it is a fungible token, no SAC, and no asset has it. -/
def lacksAsset (assets : List AssetRow) (row : SorobanContractRow) : Bool :=
  row.contractType = some 3 ∧ !row.isSac ∧
    ¬ ∃ asset ∈ assets, asset.contractId = row.id ∧ (asset.assetType = 2 ∨ asset.assetType = 3)

/-- The columns that are given; the surrogate keeps its default. -/
def type3Asset (row : SorobanContractRow) : AssetRow :=
  ⟨3, "", 0, row.id, 0⟩

/-- The staged row has another type than the live one, and has one. -/
def flips (old staged : SorobanContractRow) : Bool :=
  match staged.contractType with
  | none => false
  | some type => old.contractType.getD (-1) ≠ type

/-! ## The warehouse -/

structure Warehouse where
  tables : (table : LiveTable) → Swap table.Row
  verdicts : Option (Copy VerdictRow)
  assets : Copy AssetRow
  wasmPrograms : List WasmProgramRow
  transactionParticipants : List TransactionParticipantRow

namespace Warehouse

def withTable (s : Warehouse) (table : LiveTable) (swap : Swap table.Row) : Warehouse :=
  { s with tables := Function.update s.tables table swap }

def withStaging (s : Warehouse) (table : LiveTable) (copy : Copy table.Row) : Warehouse :=
  s.withTable table { s.tables table with staging := some copy }

/-- What `FINAL` may read of a live table. -/
abbrev Final (s : Warehouse) (table : LiveTable) (rows : List table.Row) : Prop :=
  IsFinal table.key table.version (s.tables table).live.rows rows

abbrev FinalAssets (s : Warehouse) (rows : List AssetRow) : Prop :=
  IsFinal assetKey unversioned s.assets.rows rows

/-- The rows a staging table is filled with. -/
def Selects (s : Warehouse) : (table : LiveTable) → List table.Row → Prop
  | .accounts, rows => ∃ final, s.Final .accounts final ∧
      rows = final.map (repaired s.transactionParticipants)
  | .sorobanContracts, rows => ∃ final, s.Final .sorobanContracts final ∧
      ∃ verdicts, s.verdicts = some verdicts ∧ rows = final.flatMap (rebuilt verdicts.rows)

/-- The assets that are inserted. -/
def SelectsAssets (s : Warehouse) (rows : List AssetRow) : Prop :=
  ∃ contracts, s.Final .sorobanContracts contracts ∧ ∃ assets, s.FinalAssets assets ∧
    rows = (List.filter (lacksAsset assets) contracts).map type3Asset

/-- What a statement that defines or drops tables does, if it can. -/
def define (s : Warehouse) : Statement → Option Warehouse
  | .dropIfExists (.like table) => some (s.withTable table (s.tables table).drop)
  | .dropIfExists .verdicts => some { s with verdicts := none }
  | .createStagingLike table =>
      if (s.tables table).staging.isSome then none
      else some (s.withTable table (s.tables table).create)
  | .createVerdictTable =>
      if s.verdicts.isSome then none else some { s with verdicts := some .empty }
  | .exchangeTables table =>
      if (s.tables table).staging.isSome then some (s.withTable table (s.tables table).exchange)
      else none
  | _ => none

/-- A statement that defines or drops tables: one that fails may have taken effect. -/
def Defined (s : Warehouse) (op : Statement) : Except BackfillError Unit → Warehouse → Prop
  | .ok _, s' => s.define op = some s'
  | .error _, s' => s' = s ∨ s.define op = some s'

/-- An insert into a table: one that fails may leave rows behind, now or later. -/
def Inserted {α : Type} (s : Warehouse) (copy : Option (Copy α)) (selects : List α → Prop)
    (put : Copy α → Warehouse) : Except BackfillError Unit → Warehouse → Prop
  | .ok _, s' => ∃ table rows, copy = some table ∧ selects rows ∧ s' = put (table.insert rows)
  | .error _, s' => s' = s ∨ ∃ table rows table', copy = some table ∧ selects rows ∧
      table.Failed rows table' ∧ s' = put table'

/-- A read. -/
def Answered {α : Type} (s : Warehouse) (value : α → Prop) :
    Except BackfillError α → Warehouse → Prop
  | .ok answer, s' => value answer ∧ s' = s
  | .error _, s' => s' = s

/-- The answers to a statement. -/
def Answers (s : Warehouse) : (op : Statement) → Except BackfillError op.Value → Warehouse → Prop
  | .dropIfExists table => s.Defined (.dropIfExists table)
  | .createStagingLike source => s.Defined (.createStagingLike source)
  | .createVerdictTable => s.Defined .createVerdictTable
  | .exchangeTables live => s.Defined (.exchangeTables live)
  | .insertVerdicts verdicts => s.Inserted s.verdicts (· = verdicts) fun copy =>
      { s with verdicts := some copy }
  | .buildStaging source => s.Inserted (s.tables source).staging (s.Selects source)
      (s.withStaging source)
  | .insertAssets => s.Inserted (some s.assets) s.SelectsAssets fun copy =>
      { s with assets := copy }
  | .wasmPrograms => s.Answered fun rows => rows.Perm s.wasmPrograms
  | .stagingRowCount source => s.Answered fun n => ∃ copy,
      (s.tables source).staging = some copy ∧ n = copy.rows.length
  | .countFlips => s.Answered fun n => ∃ final, s.Final .sorobanContracts final ∧ ∃ staged,
      (s.tables .sorobanContracts).staging = some staged ∧
        let flipped := staged.rows.flatMap fun new : SorobanContractRow =>
          (final.filter fun old : SorobanContractRow =>
            old.contractId = new.contractId ∧ flips old new).map fun _ => new.contractType
        n = (flipped.count (some 2), flipped.count (some 3))
  | .countAssetsToInsert => s.Answered fun n => ∃ assets, s.FinalAssets assets ∧ ∃ staged,
      (s.tables .sorobanContracts).staging = some staged ∧
        n = (List.filter (lacksAsset assets) staged.rows).length
  | .assetsType3Count => s.Answered fun n => ∃ assets, s.FinalAssets assets ∧
      n = (assets.filter (·.assetType = 3)).length

/-- What happens between two statements: a table merges, and rows land late.  The types of
the programs are kept in memory and never merge. -/
inductive Drift : Warehouse → Warehouse → Prop
  | table {s : Warehouse} (table : LiveTable) {swap : Swap table.Row}
      (hdrift : (s.tables table).Drift table.key table.version swap) :
      Drift s (s.withTable table swap)
  | verdictLands {s : Warehouse} {copy : Copy VerdictRow} {row : VerdictRow}
      (hverdicts : s.verdicts = some copy) (hrow : row ∈ copy.late) :
      Drift s { s with verdicts := some { copy with rows := copy.rows ++ [row] } }
  | assets {s : Warehouse} {copy : Copy AssetRow}
      (hdrift : s.assets.Drift assetKey unversioned copy) : Drift s { s with assets := copy }
  | wasmPrograms {s : Warehouse} {rows : List WasmProgramRow}
      (hmerges : Merges WasmProgramRow.wasmHash unversioned s.wasmPrograms rows) :
      Drift s { s with wasmPrograms := rows }
  | transactionParticipants {s : Warehouse} {rows : List TransactionParticipantRow}
      (hmerges : Merges id unversioned s.transactionParticipants rows) :
      Drift s { s with transactionParticipants := rows }

/-- Nothing that was sent before is late, but for what a staging table may get. -/
structure Quiet (s : Warehouse) : Prop where
  tables : ∀ table, (s.tables table).live.late = []
  assets : s.assets.late = []

end Warehouse

/-- ClickHouse, with the indexer stopped. -/
def clickhouse : Environment sql where
  State := Warehouse
  answers := Warehouse.Answers
  drift := Warehouse.Drift

/-- Any passes, one after another. -/
def Passes (p : Prog sql (Except BackfillError Report)) : Prop :=
  ∃ command : Command, p = command.execute.run

/-- Dry runs only. -/
def DryPasses (p : Prog sql (Except BackfillError Report)) : Prop :=
  ∃ command : Command, command.dryRun = true ∧ p = command.execute.run

end SorobanExplorer.Rebuild
