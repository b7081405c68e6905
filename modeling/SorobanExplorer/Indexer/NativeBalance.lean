import SorobanExplorer.Indexer.ParseLedger
import SorobanExplorer.Persist.BalancesSpec

/-!
# Native balances at ledger close

The native row of an account against the account's last change in protocol
order.  The parser reads the apply-time changes of the transactions it parses
and no others, so the row is right exactly when the last change it reads leaves
what the last change of the ledger leaves.
-/

namespace SorobanExplorer

open KeyedFold

/-! ## Protocol order -/

/-- Every change of a meta of any version. -/
def TransactionMeta.changes : TransactionMeta → List LedgerEntryChange
  | .v0 operations => operations.flatten
  | .v1 txChanges operations => txChanges ++ operations.flatten
  | .v2 txChangesBefore operations txChangesAfter =>
      txChangesBefore ++ operations.flatten ++ txChangesAfter
  | .v3 txChangesBefore operations txChangesAfter _ =>
      txChangesBefore ++ operations.flatten ++ txChangesAfter
  | .v4 txChangesBefore operations txChangesAfter _ _ _ =>
      txChangesBefore ++ operations.flatMap OperationMetaV2.changes ++ txChangesAfter

/-- Every change of a ledger in the order the network made it: all fees, then
each transaction, then the refunds. -/
def LedgerCloseMeta.protocolChanges : LedgerCloseMeta → List LedgerEntryChange
  | .v0 _ _ txProcessing | .v1 _ _ txProcessing =>
      txProcessing.flatMap TransactionResultMeta.feeProcessing ++
        txProcessing.flatMap fun tx => tx.txApplyProcessing.changes
  | .v2 _ _ txProcessing =>
      txProcessing.flatMap TransactionResultMetaV1.feeProcessing ++
        (txProcessing.flatMap fun tx => tx.txApplyProcessing.changes) ++
        txProcessing.flatMap TransactionResultMetaV1.postTxApplyFeeProcessing

/-- The changes the state extractors read. -/
def readChanges (closeMeta : LedgerCloseMeta) (transactions : List ExtractedTransaction) :
    List LedgerEntryChange :=
  (parsedTransactions closeMeta transactions).flatMap fun tx => ledgerChanges tx.2

/-- The native holding of an account. -/
def nativeHolding (account : AccountId) : Holding AccountId :=
  ⟨account, .native⟩

section

variable [Crates]

/-- The native row an account should have once the ledger left it so. -/
def nativeRow (ledgerSequence : UInt32) (account : AccountId) (closing : Closing) : BalanceRow where
  holderId := Ids.accountId (Crates.accountStrkey account)
  assetId := Ids.nativeAssetId
  amount := closing.balance
  lastUpdatedLedger := ledgerSequence.toNat
  closedAtLedger := closing.closedAt ledgerSequence

/-- The staged balances have one native row for the account, and it states what
the account's last change in protocol order left. -/
def StagesNativeBalance (orders : ℕ → DrainOrder ExtractedAccountState)
    (closeMeta : LedgerCloseMeta) (transactions : List ExtractedTransaction)
    (account : AccountId) : Prop :=
  ∃ rows closing,
    accountBalanceRows (parseAccountStates orders closeMeta transactions) = .ok rows ∧
    lastClosing (nativeHolding account) closeMeta.protocolChanges = some closing ∧
    rows.filter (·.key = rowKey (nativeHolding account).text) =
      [nativeRow closeMeta.ledgerSeq account closing]

/-- The last change read leaves what the last change of the ledger leaves: the
same removal mark, and the same amount once a balance between -1 and 0 units has
lost its sign. -/
def ReadsLastChange (closeMeta : LedgerCloseMeta) (transactions : List ExtractedTransaction)
    (account : AccountId) : Prop :=
  ∃ closing last,
    lastClosing (nativeHolding account) closeMeta.protocolChanges = some closing ∧
    lastClosing (nativeHolding account) (readChanges closeMeta transactions) = some last ∧
    textAmount last.balance = closing.balance ∧
    last.closedAt closeMeta.ledgerSeq = closing.closedAt closeMeta.ledgerSeq

theorem closingRow_eq_nativeRow {ledgerSequence : UInt32} {account : AccountId}
    {last closing : Closing} :
    closingRow ledgerSequence (nativeHolding account).text last =
        nativeRow ledgerSequence account closing ↔
      textAmount last.balance = closing.balance ∧
        last.closedAt ledgerSequence = closing.closedAt ledgerSequence := by
  have hclosed : (closingRow ledgerSequence (nativeHolding account).text last).closedAtLedger =
      last.closedAt ledgerSequence := by
    cases last <;> simp [closingRow, Closing.closedAt]
  constructor
  · intro h
    exact ⟨congrArg BalanceRow.amount h, hclosed.symm.trans (congrArg BalanceRow.closedAtLedger h)⟩
  · rintro ⟨hamount, hmark⟩
    rw [BalanceRow.mk.injEq]
    exact ⟨rfl, rfl, hamount, rfl, hclosed.trans hmark⟩

/-- The native row of an account is the one its last change calls for exactly
when the last change the parser reads leaves the same. -/
theorem stagesNativeBalance_iff (orders : ℕ → DrainOrder ExtractedAccountState)
    (closeMeta : LedgerCloseMeta) (transactions : List ExtractedTransaction)
    (account : AccountId) (hrendered : Crates.accountStrkey account ≠ "")
    (hown : OwnKey (nativeHolding account) (readChanges closeMeta transactions)) :
    StagesNativeBalance orders closeMeta transactions account ↔
      ReadsLastChange closeMeta transactions account := by
  obtain ⟨rows, hrows, hfilter⟩ := accountBalanceRows_spec closeMeta.ledgerSeq closeMeta.closedAt
    orders (parsedTransactions closeMeta transactions) (nativeHolding account) hrendered rfl hown
  change accountBalanceRows (parseAccountStates orders closeMeta transactions) = .ok rows at hrows
  change rows.filter _ = ((lastClosing _ (readChanges closeMeta transactions)).map _).toList
    at hfilter
  constructor
  · rintro ⟨rows', closing, hrows', hclosing, hrow⟩
    obtain rfl : rows = rows' := by simpa [hrows] using hrows'
    rw [hfilter] at hrow
    cases hlast : lastClosing (nativeHolding account) (readChanges closeMeta transactions) with
    | none => simp [hlast] at hrow
    | some last =>
        have heq : closingRow closeMeta.ledgerSeq (nativeHolding account).text last =
            nativeRow closeMeta.ledgerSeq account closing := by simpa [hlast] using hrow
        obtain ⟨hamount, hmark⟩ := closingRow_eq_nativeRow.mp heq
        exact ⟨closing, last, hclosing, hlast, hamount, hmark⟩
  · rintro ⟨closing, last, hclosing, hlast, hamount, hmark⟩
    have heq : closingRow closeMeta.ledgerSeq (nativeHolding account).text last =
        nativeRow closeMeta.ledgerSeq account closing :=
      closingRow_eq_nativeRow.mpr ⟨hamount, hmark⟩
    refine ⟨rows, closing, hrows, hclosing, ?_⟩
    rw [hfilter, hlast, ← heq]
    rfl

end

/-! ## A refund after the last transaction -/

/-- The pinned account at a balance. -/
def pinnedEntry (balance : Int64) : LedgerEntry where
  lastModifiedLedgerSeq := 60000000
  data := .account
    { accountId := Crates.pinnedAccount, balance, seqNum := 7, numSubEntries := 0, flags := 0,
      homeDomain := [], thresholds := [1, 0, 0, 0], signers := [], sponsorship := none }

/-- One transaction, charged 100 before it and moving nothing. -/
def chargedLedger (postTxApplyFeeProcessing : List LedgerEntryChange) : LedgerCloseMeta :=
  .v2 60000000 1750000000
    [{ feeProcessing := [.state (pinnedEntry 1000), .updated (pinnedEntry 900)]
       txApplyProcessing :=
        .v4 [.state (pinnedEntry 900), .updated (pinnedEntry 900)] [] [] none [] []
       postTxApplyFeeProcessing }]

def parsedTransaction : ExtractedTransaction where
  hash := "3389e9f0f1a65f19736cacf544c2e825313e8447f569233bb8db39aa607c8889"
  sourceAccount := Crates.pinnedAccountStrkey
  sourceMuxedId := none
  memoType := none
  memo := none
  parseError := false

theorem stagesNativeBalance_iff_noRefund :
    @StagesNativeBalance Crates.pinned (fun _ => .stored) (chargedLedger []) [parsedTransaction]
      Crates.pinnedAccount :=
  (@stagesNativeBalance_iff Crates.pinned (fun _ => .stored) (chargedLedger [])
    [parsedTransaction] Crates.pinnedAccount (by decide) (by decide)).mpr
    ⟨.live 900, .live 900, by decide, by decide, by decide, by decide⟩

/-- A refund of 40 after the last transaction: the account closes at 940 and is
staged at 900. -/
theorem not_stagesNativeBalance_refund :
    lastClosing (nativeHolding Crates.pinnedAccount)
        (chargedLedger [.state (pinnedEntry 900), .updated (pinnedEntry 940)]).protocolChanges =
      some (.live 940) ∧
    ¬ @StagesNativeBalance Crates.pinned (fun _ => .stored)
      (chargedLedger [.state (pinnedEntry 900), .updated (pinnedEntry 940)]) [parsedTransaction]
      Crates.pinnedAccount := by
  let _ : Crates := Crates.pinned
  have hlast : lastClosing (nativeHolding Crates.pinnedAccount)
      (chargedLedger [.state (pinnedEntry 900), .updated (pinnedEntry 940)]).protocolChanges =
      some (.live 940) := by decide
  have hstaged : (accountBalanceRows (parseAccountStates (fun _ => .stored)
      (chargedLedger [.state (pinnedEntry 900), .updated (pinnedEntry 940)])
      [parsedTransaction])).toOption =
      some [nativeRow 60000000 Crates.pinnedAccount (.live 900)] := by decide
  refine ⟨hlast, ?_⟩
  rintro ⟨rows, closing, hrows, hclosing, hfilter⟩
  obtain rfl : closing = .live 940 := by simpa [hlast] using hclosing.symm
  rw [hrows] at hstaged
  obtain rfl : rows = [nativeRow 60000000 Crates.pinnedAccount (.live 900)] :=
    Option.some.inj hstaged
  exact absurd hfilter (by decide)

end SorobanExplorer
