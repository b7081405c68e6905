import SorobanExplorer.Parser.Transaction
import SorobanExplorer.Persist.Balances

/-!
# Parsing a ledger

Which parts of a close meta reach the extractors.  `collectTxMetas` takes each
transaction's apply-time meta and nothing else of its processing; a transaction
whose envelope could not be parsed is left out.
-/

namespace SorobanExplorer

open KeyedFold

namespace LedgerCloseMeta

def ledgerSeq : LedgerCloseMeta → UInt32
  | .v0 ledgerSeq _ _ | .v1 ledgerSeq _ _ | .v2 ledgerSeq _ _ => ledgerSeq

/-- The close time as Unix seconds. -/
def closedAt : LedgerCloseMeta → ℤ
  | .v0 _ closeTime _ | .v1 _ closeTime _ | .v2 _ closeTime _ => closeTime.toInt64.toInt

end LedgerCloseMeta

/-- Each transaction's apply-time meta, in apply order. -/
def collectTxMetas : LedgerCloseMeta → List TransactionMeta
  | .v0 _ _ txProcessing => txProcessing.map TransactionResultMeta.txApplyProcessing
  | .v1 _ _ txProcessing => txProcessing.map TransactionResultMeta.txApplyProcessing
  | .v2 _ _ txProcessing => txProcessing.map TransactionResultMetaV1.txApplyProcessing

/-- The hash and meta of every transaction that is parsed. -/
def parsedTransactions (closeMeta : LedgerCloseMeta) (transactions : List ExtractedTransaction) :
    List (String × TransactionMeta) :=
  transactions.zipIdx.filterMap fun (transaction, i) =>
    if transaction.parseError then none
    else (collectTxMetas closeMeta)[i]?.map fun txMeta => (transaction.hash, txMeta)

variable [Crates]

/-- The ledger entry changes handed to the state extractors. -/
def parseLedgerEntryChanges (closeMeta : LedgerCloseMeta)
    (transactions : List ExtractedTransaction) : List (List ExtractedLedgerEntryChange) :=
  (parsedTransactions closeMeta transactions).map fun (hash, txMeta) =>
    extractLedgerEntryChanges txMeta hash closeMeta.ledgerSeq closeMeta.closedAt

/-- The account states of a ledger. -/
def parseAccountStates (orders : ℕ → DrainOrder ExtractedAccountState)
    (closeMeta : LedgerCloseMeta) (transactions : List ExtractedTransaction) :
    List ExtractedAccountState :=
  ledgerAccountStates orders (parseLedgerEntryChanges closeMeta transactions)

end SorobanExplorer
