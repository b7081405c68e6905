import SorobanExplorer.Indexer.LedgerKey
import SorobanExplorer.Persist.Writer

/-!
# The ledger processor

Each wake of the processor runs `reconcile`: read the newest stored sequence,
and from the ledger after it read file after file from S3 and persist what they
hold, oldest first, until the next file is missing or the time budget is spent.
A ledger is persisted under a retry envelope; the envelope repeats the whole
persist, staging included.
-/

namespace SorobanExplorer.Indexer

open Interaction Persist

variable {Row : Type}

/-! ## Requests -/

inductive HandlerError
  | s3Download (message : String)
  | parse (message : String)
  | clickHouse (error : SchemaError)
  deriving DecidableEq, Repr

/-- What the processor asks beside its persists.  `getObject` downloads,
decompresses and parses one file into its batch; a close meta is its `ledgers`
row here, since the rest of it reaches the store only through staging. -/
inductive HandlerOp
  | headObject (key : String)
  | getObject (key : String)
  | contractMetadataWrites (ledger : LedgerRow)

def handlerInterface : Interface where
  Op := HandlerOp
  Ans
    | .headObject _ => Except HandlerError Bool
    | .getObject _ => Except HandlerError (List LedgerRow)
    | .contractMetadataWrites _ => Except HandlerError Unit

/-- A handler program: it asks both, and may fail. -/
abbrev Handler (Row α : Type) : Type :=
  ExceptT HandlerError (Prog ((clickHouse Row).sum handlerInterface)) α

/-- `HEAD`: whether the object exists. -/
def s3ObjectExists (key : String) : Handler Row Bool :=
  .mk (.perform (I := (clickHouse Row).sum handlerInterface) (.inr (.headObject key)))

/-- Download, decompress and deserialize one object. -/
def readS3Object (key : String) : Handler Row (List LedgerRow) :=
  .mk (.perform (I := (clickHouse Row).sum handlerInterface) (.inr (.getObject key)))

/-- The metadata reads that precede a persist; they write nothing. -/
def contractMetadataWrites (ledger : LedgerRow) : Handler Row Unit :=
  .mk (.perform (I := (clickHouse Row).sum handlerInterface)
    (.inr (.contractMetadataWrites ledger)))

/-- A persist program, run by the handler. -/
def liftDb {α : Type} (p : ExceptT HandlerError (Prog (clickHouse Row)) α) : Handler Row α :=
  .mk p.run.inl

/-! ## The retry envelope -/

/-- HTTP 4xx prefixes of an empty-body response. -/
def HTTP_4XX_PREFIXES : List String :=
  ["400 ", "401 ", "403 ", "404 ", "405 ", "409 ", "413 ", "414 ", "415 ", "422 ", "431 "]

/-- Server exception codes a retry cannot fix. -/
def CH_PERMANENT_CODES : List ℕ :=
  [16, 27, 36, 47, 53, 60, 62, 73, 117, 192, 193, 194, 497, 516]

/-- The message starts with `Code: NNN`, and the number ends there. -/
def chCodeMatches (message : String) (code : ℕ) : Bool :=
  let needle := ("Code: " ++ toString code).toList
  needle.isPrefixOf message.toList &&
    match message.toList.drop needle.length with
    | next :: _ => !next.isDigit
    | [] => true

def isPermanentBadResponse (message : String) : Bool :=
  HTTP_4XX_PREFIXES.any (fun p => p.toList.isPrefixOf message.toList) ||
    CH_PERMANENT_CODES.any (chCodeMatches message)

def isRetryableBadResponse (message : String) : Bool :=
  !isPermanentBadResponse message

def isTransientChError : HandlerError → Bool
  | .clickHouse (.query .network) => true
  | .clickHouse (.query .timedOut) => true
  | .clickHouse (.query (.badResponse message)) => isRetryableBadResponse message
  | _ => false

def RETRY_BACKOFF_MS : List ℕ := [50, 200, 800]

/-- Run `op` until it succeeds, fails for good, or the backoffs are used up.
The value is the number of retries. -/
def retryWithBackoff {I : Interface} (isTransient : HandlerError → Bool)
    (op : ExceptT HandlerError (Prog I) Unit) :
    (backoffMs : List ℕ) → (attempt : ℕ) → ExceptT HandlerError (Prog I) ℕ
  | [], attempt => do
      match ← ExceptT.lift op.run with
      | .ok _ => return attempt
      | .error error => throw error
  | _ :: backoffMs, attempt => do
      match ← ExceptT.lift op.run with
      | .ok _ => return attempt
      | .error error =>
          if isTransient error then
            retryWithBackoff isTransient op backoffMs (attempt + 1)
          else
            throw error

def persistWithRetry (ledger : LedgerRow) : ExceptT HandlerError (Prog (clickHouse Row)) ℕ :=
  retryWithBackoff isTransientChError
    (ExceptT.adapt .clickHouse (persistLedgerClickhouse ledger)) RETRY_BACKOFF_MS 0

/-! ## One file -/

/-- The metadata reads of one ledger, then its persist. -/
def processLedger (ledger : LedgerRow) : Handler Row Unit := do
  contractMetadataWrites ledger
  let _ ← liftDb (persistWithRetry ledger)

/-- Read one object and persist every ledger it holds. -/
def processS3Object (key : String) : Handler Row Unit := do
  let batch ← readS3Object key
  batch.forM processLedger

/-! ## Reconcile -/

def PUBLIC_BUCKET : String := "aws-public-blockchain"

/-- Ledgers 0 and 1 have no close meta on any network. -/
def FIRST_CLOSED_LEDGER : ℤ := 2

/-- What the handler is configured with. -/
structure HandlerState where
  bucket : String
  keyPrefix : String

/-- The first ledger a reconcile reads: the one after the newest stored; over an
empty table, the first closed ledger of the public lake, and none elsewhere. -/
def firstLedgerToRead (maxSeq : ℤ) (bucket : String) : Option ℤ :=
  if 0 < maxSeq then some (maxSeq + 1)
  else if bucket = PUBLIC_BUCKET then some FIRST_CLOSED_LEDGER
  else none

/-- How many ledgers a reconcile stored, and the newest stored after it. -/
structure Reconciled where
  persisted : ℕ
  newest : ℤ
  deriving DecidableEq, Repr

/-- Persist the ledgers from `next` on until a file is missing or the budget is
spent.  `budget` is how many ledgers the deadline still lets it begin. -/
def reconcileLoop (state : HandlerState) :
    (budget : ℕ) → (next : ℤ) → (done : Reconciled) → Handler Row Reconciled
  | 0, _, done => return done
  | budget + 1, next, done => do
      let key := ledgerS3Key state.keyPrefix next
      if ← s3ObjectExists key then
        processS3Object key
        reconcileLoop state budget (next + 1) { persisted := done.persisted + 1, newest := next }
      else
        return done

/-- One wake: resume after the newest stored ledger. -/
def reconcile (state : HandlerState) (budget : ℕ) : Handler Row Reconciled := do
  let maxSeq ← liftDb (ExceptT.adapt .clickHouse Request.maxSequence)
  match firstLedgerToRead maxSeq state.bucket with
  | none => return { persisted := 0, newest := 0 }
  | some next => reconcileLoop state budget next { persisted := 0, newest := maxSeq }

end SorobanExplorer.Indexer
