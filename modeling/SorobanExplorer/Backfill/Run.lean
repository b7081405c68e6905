import SorobanExplorer.Indexer.Reconcile

/-!
# The backfill

`execute` fills a range of ledgers from the public archive, partition by partition: what
the `ledgers` table says is done is skipped, the files of the next partition are synced
while one is indexed, and the rows of a partition go through one writer, whose commit
writes its `ledgers` rows last.  A ledger's file is deleted as soon as its rows are staged.

The programs ask ClickHouse as the writer does, and a runner that stands for everything
else: the disk, S3, the queries of the run and its log.  What the disk and S3 answer plays
no part in the results; a sync that runs beside the indexing of another partition is run
here when it is awaited.
-/

namespace SorobanExplorer.Backfill

open Interaction Persist Indexer

/-! ## Partitions -/

def PARTITION_SIZE : ℤ := 64000

def U32_MAX : ℤ := 4294967295

/-- A partition of the archive: its first and last ledger. -/
structure Partition where
  start : ℤ
  last : ℤ
  deriving DecidableEq

namespace Partition

def fromLedger (seq : ℤ) : Partition where
  start := seq - seq % PARTITION_SIZE
  last := seq - seq % PARTITION_SIZE + PARTITION_SIZE - 1

/-- The first partition begins at the first closed ledger. -/
def firstLedger (p : Partition) : ℤ := max p.start FIRST_CLOSED_LEDGER

def ledgerCount (p : Partition) : ℕ := (p.last - p.firstLedger + 1).toNat

/-- The part of a partition that a run asks for. -/
def clamped (p : Partition) (runStart runEnd : ℤ) : ℤ × ℤ :=
  (max runStart p.firstLedger, min runEnd p.last)

end Partition

/-- The ledgers between two, both included. -/
def ledgersBetween (first last : ℤ) : List ℤ :=
  (List.range (last + 1 - first).toNat).map fun (i : ℕ) => first + i

/-- The partitions from a ledger on to the last of a range.  A partition beyond the largest
`u32` overflows: the loop panics, or wraps around and never ends. -/
def partitionsFrom (cursor last : ℤ) : Option (List Partition) :=
  if hcursor : cursor ≤ last then
    if U32_MAX < (Partition.fromLedger cursor).last then none
    else
      (partitionsFrom ((Partition.fromLedger cursor).last + 1) last).map
        (Partition.fromLedger cursor :: ·)
  else some []
termination_by (last + 1 - cursor).toNat
decreasing_by
  have hlast : (Partition.fromLedger cursor).last = cursor - cursor % 64000 + 64000 - 1 := rfl
  omega

def partitionsForRange (start last : ℤ) : Option (List Partition) := partitionsFrom start last

/-! ## Requests -/

inductive BackfillError
  | chPersist (error : SchemaError)
  | ch (message : String)
  | indexer (error : HandlerError)
  | io (message : String)
  | awsSyncFailed (partitionStart : ℤ) (message : String)
  | s3LsFailed (partitionStart : ℤ) (message : String)
  | partitionSyncFailed (partitionStart : ℤ) (local_ s3 need : ℕ)
  /-- The process panics. -/
  | panicked (message : String)

/-- What a run asks beside its writes.  `readLedgers` reads, decompresses and parses the
file of a ledger; a close meta is its `ledgers` row, as for the indexer.  `starting` is the
log line before the work, with the partitions left out of it, and `removeDirAll` says for
which range the partition was indexed, if it was: both are for the record only. -/
inductive RunnerOp
  | preflight
  | createTempDir
  | loadCompleted (start last : ℤ)
  | starting (start last : ℤ) (alreadyDone : List Partition)
  | createDirAll (partition : Partition)
  | countFiles (partition : Partition)
  | syncPartitionFiles (partition : Partition)
  | objectCount (partition : Partition)
  | fileExists (partition : Partition) (seq : ℤ)
  | readLedgers (partition : Partition) (seq : ℤ)
  | contractMetadataWrites (ledger : LedgerRow)
  | removeFile (partition : Partition) (seq : ℤ)
  | removeDirAll (partition : Partition) (indexed : Option (ℤ × ℤ))
  | bootstrapAccountState (start last : ℤ)

def runner : Interface where
  Op := RunnerOp
  Ans
    | .loadCompleted _ _ => Except BackfillError (List ℤ)
    | .starting _ _ _ => Unit
    | .countFiles _ | .objectCount _ => Except BackfillError ℕ
    | .fileExists _ _ => Bool
    | .readLedgers _ _ => Except BackfillError (List LedgerRow)
    | .preflight | .createTempDir | .createDirAll _ | .syncPartitionFiles _
    | .contractMetadataWrites _ | .removeFile _ _ | .removeDirAll _ _
    | .bootstrapAccountState _ _ => Except BackfillError Unit

abbrev backfill (Row : Type) : Interface := (clickHouse Row).sum runner

abbrev Run (Row α : Type) : Type := ExceptT BackfillError (Prog (backfill Row)) α

variable {Row : Type}

def askRunner (op : RunnerOp) : Prog (backfill Row) (runner.Ans op) :=
  @Prog.perform (backfill Row) (.inr op)

namespace Runner

def preflight : Run Row Unit := .mk (askRunner .preflight)

def createTempDir : Run Row Unit := .mk (askRunner .createTempDir)

def loadCompleted (start last : ℤ) : Run Row (List ℤ) :=
  .mk (askRunner (.loadCompleted start last))

def starting (start last : ℤ) (alreadyDone : List Partition) : Run Row Unit :=
  .lift (askRunner (.starting start last alreadyDone))

def createDirAll (p : Partition) : Run Row Unit := .mk (askRunner (.createDirAll p))

def countFiles (p : Partition) : Run Row ℕ := .mk (askRunner (.countFiles p))

def syncPartitionFiles (p : Partition) : Run Row Unit := .mk (askRunner (.syncPartitionFiles p))

def objectCount (p : Partition) : Run Row ℕ := .mk (askRunner (.objectCount p))

def fileExists (p : Partition) (seq : ℤ) : Run Row Bool := .lift (askRunner (.fileExists p seq))

def readLedgers (p : Partition) (seq : ℤ) : Run Row (List LedgerRow) :=
  .mk (askRunner (.readLedgers p seq))

def contractMetadataWrites (ledger : LedgerRow) : Run Row Unit :=
  .mk (askRunner (.contractMetadataWrites ledger))

def removeFile (p : Partition) (seq : ℤ) : Run Row Unit := .mk (askRunner (.removeFile p seq))

def removeDirAll (p : Partition) (indexed : Option (ℤ × ℤ)) : Run Row Unit :=
  .mk (askRunner (.removeDirAll p indexed))

def bootstrapAccountState (start last : ℤ) : Run Row Unit :=
  .mk (askRunner (.bootstrapAccountState start last))

/-- A program of the writer. -/
def db {α : Type} (p : Db Row α) : Run Row α :=
  .mk (ExceptT.adapt BackfillError.chPersist p).run.inl

end Runner

/-! ## Syncing -/

inductive SyncOutcome
  | complete
  | s3Incomplete (local_ s3 need : ℕ)

/-- Bring a partition's files to the disk, unless the archive does not have them yet. -/
def syncPartition (p : Partition) : Run Row SyncOutcome := do
  Runner.createDirAll p
  if (← Runner.countFiles p) = p.ledgerCount then return .complete
  Runner.syncPartitionFiles p
  let fileCount ← Runner.countFiles p
  if fileCount = p.ledgerCount then return .complete
  let s3Count ← Runner.objectCount p
  if s3Count < p.ledgerCount then return .s3Incomplete fileCount s3Count p.ledgerCount
  Runner.syncPartitionFiles p
  let fileCountRetry ← Runner.countFiles p
  if fileCountRetry = p.ledgerCount then return .complete
  throw (.partitionSyncFailed p.start fileCountRetry s3Count p.ledgerCount)

/-! ## Indexing -/

/-- What a partition, or a run, has done. -/
structure PartitionStats where
  indexed : ℕ
  skippedCompleted : ℕ

/-- Stage one ledger and stream its rows. -/
def writeLedger (pw : PartitionWriter Row) (ledger : LedgerRow) : Run Row (PartitionWriter Row) := do
  Runner.contractMetadataWrites ledger
  let (staging, rows) ← Runner.db (Request.stage ledger)
  Runner.db (pw.writeLedger { ledgerRows := [⟨staging, ledger⟩], rows := rows })

/-- Read one ledger's file and stream what it holds, which must be one ledger. -/
def ingestLedgerFromFile (p : Partition) (pw : PartitionWriter Row) (seq : ℤ) :
    Run Row (PartitionWriter Row) := do
  let batch ← Runner.readLedgers p seq
  if batch.length = 1 then batch.foldlM writeLedger pw
  else throw (.panicked s!"expected 1 ledger per file in public archive layout; got {batch.length}")

/-- Delete a ledger's file; a failure is only logged. -/
def dropIndexedFile (keepFiles : Bool) (p : Partition) (seq : ℤ) : Run Row Unit :=
  if keepFiles then return ()
  else do
    let _ ← ExceptT.lift (Runner.removeFile p seq).run
    return ()

/-- One ledger of a partition: skipped, or streamed to the writer. -/
def indexLedger (keepFiles : Bool) (p : Partition) (completed : List ℤ)
    (indexing : PartitionWriter Row × PartitionStats) (seq : ℤ) :
    Run Row (PartitionWriter Row × PartitionStats) := do
  let (pw, stats) := indexing
  if seq ∈ completed then
    dropIndexedFile keepFiles p seq
    return (pw, { stats with skippedCompleted := stats.skippedCompleted + 1 })
  if !(← Runner.fileExists p seq) then
    throw (.panicked s!"ledger file missing post-sync: partition={p.start} seq={seq}")
  let pw ← ingestLedgerFromFile p pw seq
  dropIndexedFile keepFiles p seq
  return (pw, { stats with indexed := stats.indexed + 1 })

/-- Index the ledgers of a partition that a run asks for; the writer is committed after
the last, and dropped after an error. -/
def indexPartition (keepFiles : Bool) (p : Partition) (rangeStart rangeEnd : ℤ)
    (completed : List ℤ) : Run Row PartitionStats := do
  let (first, last) := p.clamped rangeStart rangeEnd
  let writer ← Runner.db PartitionWriter.open
  let loop := (ledgersBetween first last).foldlM (indexLedger keepFiles p completed) (writer, ⟨0, 0⟩)
  match ← ExceptT.lift loop.run with
  | .ok (writer, stats) => do
      Runner.db writer.commit
      return stats
  | .error error => do
      Runner.db writer.abort
      throw error

/-! ## The run -/

/-- What a run that ends reports, with the range it was asked for. -/
structure RunSummary where
  start : ℤ
  last : ℤ
  partitionsProcessed : ℕ
  partitionsSkippedS3Incomplete : ℕ
  totals : PartitionStats

/-- Every ledger that a run asks a partition for is done. -/
def partitionFullyDone (p : Partition) (start last : ℤ) (completed : List ℤ) : Bool :=
  let (first, last) := p.clamped start last
  (ledgersBetween first last).all (· ∈ completed)

/-- Remove a partition's folder, with the range it was indexed for. -/
def cleanupPartitionFolder (keepPartitions : Bool) (p : Partition) (indexed : Option (ℤ × ℤ)) :
    Run Row Unit :=
  if keepPartitions then return () else Runner.removeDirAll p indexed

/-- Index a partition that is on the disk, and pass over one that S3 does not have yet. -/
def handlePartition (keepPartitions : Bool) (start last : ℤ) (completed : List ℤ) (p : Partition)
    (done : ℕ × PartitionStats) : SyncOutcome → Run Row (ℕ × PartitionStats)
  | .complete => do
      let stats ← indexPartition keepPartitions p start last completed
      cleanupPartitionFolder keepPartitions p (some (start, last))
      let (skipped, totals) := done
      return (skipped, ⟨totals.indexed + stats.indexed,
        totals.skippedCompleted + stats.skippedCompleted⟩)
  | .s3Incomplete _ _ _ => do
      cleanupPartitionFolder keepPartitions p none
      let (skipped, totals) := done
      return (skipped + 1, totals)

/-- The sync of the next partition, if there is one. -/
def prefetch : List Partition → Run Row SyncOutcome
  | next :: _ => syncPartition next
  | [] => return .complete

/-- Handle the partitions one after the other.  The sync of the next is awaited last. -/
def runPartitions (keepPartitions : Bool) (start last : ℤ) (completed : List ℤ) :
    List Partition → SyncOutcome → ℕ × PartitionStats → Run Row (ℕ × PartitionStats)
  | [], _, done => return done
  | p :: rest, outcome, done => do
      let done ← handlePartition keepPartitions start last completed p done outcome
      let outcome ← prefetch rest
      runPartitions keepPartitions start last completed rest outcome done

/-- Process the partitions that are not done. -/
def runTodo (keepPartitions : Bool) (start last : ℤ) (completed : List ℤ) :
    List Partition → Run Row RunSummary
  | [] => return ⟨start, last, 0, 0, ⟨0, 0⟩⟩
  | first :: rest => do
      let outcome ← syncPartition first
      let (skipped, totals) ←
        runPartitions keepPartitions start last completed (first :: rest) outcome (0, ⟨0, 0⟩)
      -- a failure of this step is only logged
      let _ ← ExceptT.lift (Runner.bootstrapAccountState start last).run
      return ⟨start, last, (first :: rest).length, skipped, totals⟩

/-- The ledgers with a row, none for a re-index. -/
def resumeState (start last : ℤ) (reindex : Bool) : Run Row (List ℤ) :=
  if reindex then return [] else Runner.loadCompleted start last

def checkRange (start last : ℤ) : Run Row Unit :=
  if start ≤ last then return ()
  else throw (.panicked s!"invalid range: start ({start}) must be <= end ({last})")

def execute (start last : ℤ) (keepPartitions reindex : Bool) : Run Row RunSummary := do
  checkRange start last
  Runner.createTempDir
  Runner.preflight
  match partitionsForRange start last with
  | none => throw (.panicked "partition end overflows")
  | some partitions => do
      let completed ← resumeState start last reindex
      Runner.starting start last (partitions.filter (partitionFullyDone · start last completed))
      runTodo keepPartitions start last completed
        (partitions.filter fun p => !partitionFullyDone p start last completed)

end SorobanExplorer.Backfill
