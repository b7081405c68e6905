import SorobanExplorer.Persist.BalancesSpec

/-!
# Credit balances at ledger close

The credit rows of a ledger against the last change of each holding.  A credit
asset is its issuer and the text of its code: the two widths of a code fold into
one asset, and an asset with an empty code has no rows.
-/

namespace SorobanExplorer

open KeyedFold

section

variable [Crates]

/-- The credit row an account should have once the ledger left it so. -/
def creditRow (ledgerSequence : UInt32) (account : AccountId) (code : String) (issuer : AccountId)
    (closing : Closing) : BalanceRow where
  holderId := Ids.accountId (Crates.accountStrkey account)
  assetId := Ids.creditAssetId code (Crates.accountStrkey issuer)
  amount := closing.balance
  lastUpdatedLedger := ledgerSequence.toNat
  closedAtLedger := closing.closedAt ledgerSequence

/-- The key of an account's rows of a credit asset. -/
def creditKey (account : AccountId) (code : String) (issuer : AccountId) : Int64 × Int64 :=
  rowKey (Holding.text ⟨account, .credit code issuer⟩)

/-- The account states of a ledger, from its transactions' hashes and metas. -/
def statesOf (orders : ℕ → DrainOrder ExtractedAccountState) (ledgerSequence : UInt32)
    (createdAt : ℤ) (txs : List (String × TransactionMeta)) : List ExtractedAccountState :=
  ledgerAccountStates orders (txs.map fun tx =>
    extractLedgerEntryChanges tx.2 tx.1 ledgerSequence createdAt)

theorem closingRow_eq_creditRow {ledgerSequence : UInt32} {account : AccountId} {code : String}
    {issuer : AccountId} {closing : Closing}
    (hbalance : ¬ (-10000000 < closing.balance ∧ closing.balance < 0)) :
    closingRow ledgerSequence (Holding.text ⟨account, .credit code issuer⟩) closing =
      creditRow ledgerSequence account code issuer closing := by
  have hamount : textAmount closing.balance = closing.balance := if_neg hbalance
  cases closing <;> simp [closingRow, creditRow, Holding.text, Holding.map, HeldAsset.map,
    Closing.closedAt, hamount]

/-- The rows staged from a ledger's account states hold exactly one row for an
account and a credit asset that a change is about: the balance of the last live
change, or a zero closed at this ledger if the last change is a removal. -/
theorem creditBalance_of_lastClosing (orders : ℕ → DrainOrder ExtractedAccountState)
    (ledgerSequence : UInt32) (createdAt : ℤ) (txs : List (String × TransactionMeta))
    {account issuer : AccountId} {code : String} {closing : Closing}
    (haccount : Crates.accountStrkey account ≠ "") (hissuer : Crates.accountStrkey issuer ≠ "")
    (hcode : code ≠ "")
    (hown : OwnKey ⟨account, .credit code issuer⟩ (txs.flatMap fun tx => ledgerChanges tx.2))
    (hlast : lastClosing ⟨account, .credit code issuer⟩
      (txs.flatMap fun tx => ledgerChanges tx.2) = some closing)
    (hbalance : ¬ (-10000000 < closing.balance ∧ closing.balance < 0)) :
    ∃ rows, accountBalanceRows (statesOf orders ledgerSequence createdAt txs) = .ok rows ∧
      rows.filter (·.key = creditKey account code issuer) =
        [creditRow ledgerSequence account code issuer closing] := by
  have hstated : (Holding.text ⟨account, .credit code issuer⟩).asset.isStated := by
    simp [Holding.text, Holding.map, HeldAsset.map, HeldAsset.isStated, hcode, hissuer]
  obtain ⟨rows, hrows, hfilter⟩ := accountBalanceRows_spec ledgerSequence createdAt orders txs
    ⟨account, .credit code issuer⟩ haccount hstated hown
  refine ⟨rows, hrows, ?_⟩
  rw [creditKey, hfilter, hlast]
  exact congrArg (fun row => [row]) (closingRow_eq_creditRow hbalance)

end

/-! ## A trustline opened and paid into -/

/-- The pinned account's trustline to its own USDC, by the code's width. -/
def usdcTrustline (asset : TrustLineAsset) (balance : Int64) : LedgerEntry where
  lastModifiedLedgerSeq := 60000000
  data := .trustline
    { accountId := Crates.pinnedAccount, asset, balance, limit := 9223372036854775807, flags := 1 }

def usdc4 : TrustLineAsset :=
  .creditAlphanum4 ⟨[0x55, 0x53, 0x44, 0x43], Crates.length_pinnedCode⟩ Crates.pinnedAccount

def usdc12 : TrustLineAsset :=
  .creditAlphanum12 ⟨[0x55, 0x53, 0x44, 0x43, 0, 0, 0, 0, 0, 0, 0, 0], rfl⟩ Crates.pinnedAccount

/-- A transaction whose one operation made the given changes. -/
def oneOperation (changes : List LedgerEntryChange) : TransactionMeta :=
  .v4 [] [{ changes, events := [] }] [] none [] []

theorem creditBalance_of_lastClosing_reopened :
    ∃ rows, @accountBalanceRows Crates.pinned (@statesOf Crates.pinned (fun _ => .stored) 60000000 0
        [("aa", oneOperation [.created (usdcTrustline usdc4 0)]),
          ("bb", oneOperation [.removed (.trustline Crates.pinnedAccount usdc4),
            .created (usdcTrustline usdc4 250000000)])]) = .ok rows ∧
      rows.filter (·.key = @creditKey Crates.pinned Crates.pinnedAccount "USDC"
          Crates.pinnedAccount) =
        [@creditRow Crates.pinned 60000000 Crates.pinnedAccount "USDC" Crates.pinnedAccount
          (.live 250000000)] :=
  @creditBalance_of_lastClosing Crates.pinned (fun _ => .stored) 60000000 0 _ _ _ _ _ (by decide)
    (by decide) (by decide) (by decide) (by decide) (by decide)

/-! ## Two widths of one code -/

/-- What a change leaves of one trustline, by its ledger key. -/
def LedgerEntryChange.trustlineClosing (account : AccountId) (asset : TrustLineAsset) :
    LedgerEntryChange → Option Closing
  | .created ⟨_, .trustline entry⟩ | .updated ⟨_, .trustline entry⟩
  | .restored ⟨_, .trustline entry⟩ =>
      if entry.accountId = account ∧ entry.asset = asset then some (.live entry.balance) else none
  | .removed (.trustline accountId asset') =>
      if accountId = account ∧ asset' = asset then some .removed else none
  | _ => none

/-- Every credit trustline a change is about has exactly one row, stating what its
last change left. -/
def StagesEveryTrustline [Crates] (orders : ℕ → DrainOrder ExtractedAccountState)
    (ledgerSequence : UInt32) (createdAt : ℤ) (txs : List (String × TransactionMeta)) : Prop :=
  ∃ rows, accountBalanceRows (statesOf orders ledgerSequence createdAt txs) = .ok rows ∧
    ∀ account asset code issuer closing, asset.held = some (.credit code issuer) →
      ((txs.flatMap fun tx => ledgerChanges tx.2).filterMap
        (·.trustlineClosing account asset)).getLast? = some closing →
      rows.filter (·.key = creditKey account code issuer) =
        [creditRow ledgerSequence account code issuer closing]

/-- Trustlines to `USDC` as a four-byte and as a twelve-byte code of one issuer
share a row, which states the later of the two. -/
theorem not_stagesEveryTrustline_widths :
    ¬ @StagesEveryTrustline Crates.pinned (fun _ => .stored) 60000000 0
      [("aa", oneOperation [.created (usdcTrustline usdc4 50000000),
        .created (usdcTrustline usdc12 70000000)])] := by
  let _ : Crates := Crates.pinned
  have hstaged : (accountBalanceRows (statesOf (fun _ => .stored) 60000000 0
      [("aa", oneOperation [.created (usdcTrustline usdc4 50000000),
        .created (usdcTrustline usdc12 70000000)])])).toOption =
      some [creditRow 60000000 Crates.pinnedAccount "USDC" Crates.pinnedAccount
        (.live 70000000)] := by decide
  rintro ⟨rows, hrows, hevery⟩
  rw [hrows] at hstaged
  obtain rfl := Option.some.inj hstaged
  have hfirst := hevery Crates.pinnedAccount usdc4 "USDC" Crates.pinnedAccount (.live 50000000)
    (by decide) (by decide)
  exact absurd hfirst (by decide)

end SorobanExplorer
