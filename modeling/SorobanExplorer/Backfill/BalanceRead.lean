import SorobanExplorer.Backfill.Fleet
import SorobanExplorer.Lib.Versioned
import SorobanExplorer.Persist.CreditBalance
import SorobanExplorer.Persist.SacStaging

/-!
# What a read of the credit balances says

The balances of every ledger are written by whoever writes the ledger, in any order, more
than once, and now and then only in part.  A read takes the newest row of a holding.  It says
what some ledger left the holding with, and no ledger that was written whole has touched the
holding since (`balances_read`).

A row keeps the ledger it was staged for (`ChainRow`), so that no other can be stored;
`stages_spec` reads what a ledger stages for one holding off its changes.  The balances that
a backfill takes over from an RPC node once it has ended are of the native asset, and the
result is about credits only.
-/

namespace SorobanExplorer.Backfill

open Indexer Interaction KeyedFold Persist Store Versioned

section

variable [Crates]

/-! ## Ledgers and their balances -/

/-- The ledgers of the network, as far as balances go. -/
structure BalanceChain where
  createdAt : UInt32 → ℤ
  txs : UInt32 → List (String × TransactionMeta)
  tokenBalances : UInt32 → List ExtractedSorobanBalance
  /-- The asset that a contract wraps, both by their surrogates. -/
  wraps : Int64 → Option Int64

namespace BalanceChain

variable (chain : BalanceChain)

/-- The changes of a ledger. -/
def changes (n : UInt32) : List LedgerEntryChange :=
  (chain.txs n).flatMap fun tx => ledgerChanges tx.2

/-- What may be staged as the balances of a ledger, whatever else is in it, in whatever order
its account states are drained, and however much the map of the asset contracts knows. -/
def Stages (n : UInt32) (rows : List BalanceRow) : Prop :=
  ∃ (orders : ℕ → DrainOrder ExtractedAccountState) (inputs : StageInputs)
    (sacClassic : Table Int64 Int64) (parts : StagedParts),
    inputs.accountStates = statesOf orders n (chain.createdAt n) (chain.txs n) ∧
    inputs.sorobanTokenBalances = chain.tokenBalances n ∧ inputs.stagedParts = .ok parts ∧
    (∀ contract asset, (seededSacMap inputs.assets sacClassic).lookup contract = some asset →
      chain.wraps contract = some asset) ∧
    rows = (inputs.stagedTables parts sacClassic).unifiedBalanceRows

/-- A row of a streamed table; one of the balances was staged for a ledger. -/
structure ChainRow where
  balance : Option BalanceRow
  staged : ∀ row, balance = some row → ∃ n rows, chain.Stages n rows ∧ row ∈ rows

/-- The rows of a holding are its own: no other holding has its key, and its account holds
the asset in no contract. -/
structure OwnsRows (holding : Holding AccountId) : Prop where
  account : Crates.accountStrkey holding.account ≠ ""
  stated : holding.text.asset.isStated
  own : ∀ n, OwnKey holding (chain.changes n)
  contracts : ∀ n, ∀ b ∈ chain.tokenBalances n,
    Ids.addressId b.holder = (rowKey holding.text).1 →
      Ids.assetId 3 "" 0 (Ids.contractId b.contractId) ≠ (rowKey holding.text).2 ∧
      chain.wraps (Ids.contractId b.contractId) ≠ some (rowKey holding.text).2

/-- What a ledger leaves a holding with, if it touches it. -/
def leaves (n : UInt32) (holding : Holding AccountId) : Option Closing :=
  lastClosing holding (chain.changes n)

variable {chain}

/-- What an account holds in contracts is staged under other keys. -/
theorem contractRows_filter_key {n : UInt32} {holding : Holding AccountId}
    {sacMap : Table Int64 Int64} (hown : chain.OwnsRows holding)
    (hmap : ∀ contract asset, sacMap.lookup contract = some asset →
      chain.wraps contract = some asset) :
    (buildBalanceRows (chain.tokenBalances n) sacMap).filter (·.key = rowKey holding.text) =
      [] := by
  rw [List.filter_eq_nil_iff]
  intro row hrow hkey
  obtain ⟨b, hb, rfl⟩ := List.mem_map.mp (KeepLast.mem_of_mem_keepLastByKey hrow)
  obtain ⟨hholder, hasset⟩ := Prod.mk.inj (of_decide_eq_true hkey)
  obtain ⟨htoken, hwrapped⟩ := hown.contracts n b hb hholder
  change contractTokenAssetId b.contractId sacMap = _ at hasset
  unfold contractTokenAssetId at hasset
  cases hlookup : sacMap.lookup (Ids.contractId b.contractId) with
  | none =>
      rw [hlookup] at hasset
      exact htoken hasset
  | some asset =>
      rw [hlookup] at hasset
      exact hwrapped ((hmap _ _ hlookup).trans (congrArg some hasset))

/-- A ledger stages one row for a holding it touches, and none for one it does not. -/
theorem stages_spec {n : UInt32} {rows : List BalanceRow} {holding : Holding AccountId}
    (hstages : chain.Stages n rows) (hown : chain.OwnsRows holding) :
    rows.filter (·.key = rowKey holding.text) =
      ((chain.leaves n holding).map (closingRow n holding.text)).toList := by
  obtain ⟨orders, inputs, sacClassic, parts, hstates, htokens, hparts, hmap, rfl⟩ := hstages
  obtain ⟨staged, hstaged, hfilter⟩ := accountBalanceRows_spec n (chain.createdAt n) orders
    (chain.txs n) holding hown.account hown.stated (hown.own n)
  have haccounts : parts.accountBalances = staged := by
    have hsame := (StageInputs.stagedParts_eq_ok hparts).2.2.1
    rw [hstates] at hsame
    exact Except.ok.inj (hsame.symm.trans hstaged)
  unfold StageInputs.stagedTables
  dsimp only
  rw [List.filter_append, htokens, contractRows_filter_key hown hmap, List.nil_append, haccounts]
  exact hfilter

end BalanceChain

/-! ## What the store holds of them -/

section Stored

variable {chain : BalanceChain} {s : Store chain.ChainRow} {holding : Holding AccountId}

/-- The balances among rows of a table. -/
def balancesOf (rows : List chain.ChainRow) : List BalanceRow :=
  rows.filterMap (·.balance)

/-- The balances of a store. -/
def storedBalances (s : Store chain.ChainRow) : List BalanceRow :=
  balancesOf ((s.rows.filter (·.1 = .balances)).map (·.2))

/-- The balances of a staging are those of the ledger of its marker. -/
def Faithful (staged : StagedLedger chain.ChainRow) : Prop :=
  ∀ marker ∈ staged.ledgerRows, ∃ n : UInt32, marker.row.sequence = n.toNat ∧
    chain.Stages n (balancesOf (staged.rows .balances))

/-- The ledger has a stored `ledgers` row. -/
def Marked (s : Store chain.ChainRow) (n : UInt32) : Prop :=
  ∃ marker ∈ s.ledgers, marker.row.sequence = n.toNat

/-- A row says what a ledger left a holding with. -/
structure Shows (n : UInt32) (closing : Closing) (row : BalanceRow) : Prop where
  lastUpdatedLedger : row.lastUpdatedLedger = n.toNat
  closedAtLedger : row.closedAtLedger = closing.closedAt n
  amount : 0 ≤ closing.balance → row.amount = closing.balance

theorem mem_balancesOf {rows : List chain.ChainRow} {row : BalanceRow} :
    row ∈ balancesOf rows ↔ ∃ stored ∈ rows, stored.balance = some row := by
  rw [balancesOf, List.mem_filterMap]

theorem mem_storedBalances {row : BalanceRow} :
    row ∈ storedBalances s ↔
      ∃ stored, (.balances, stored) ∈ s.rows ∧ stored.balance = some row := by
  rw [storedBalances, mem_balancesOf]
  constructor
  · rintro ⟨stored, hstored, hrow⟩
    obtain ⟨⟨table, stored⟩, hmem, rfl⟩ := List.mem_map.mp hstored
    obtain ⟨hmem, htable⟩ := List.mem_filter.mp hmem
    obtain rfl := of_decide_eq_true htable
    exact ⟨stored, hmem, hrow⟩
  · rintro ⟨stored, hmem, hrow⟩
    refine ⟨stored, List.mem_map.mpr ⟨(.balances, stored), ?_, rfl⟩, hrow⟩
    exact List.mem_filter.mpr ⟨hmem, decide_eq_true rfl⟩

theorem shows_closingRow (n : UInt32) (holding : Holding String) (closing : Closing) :
    Shows n closing (closingRow n holding closing) where
  lastUpdatedLedger := rfl
  closedAtLedger := by cases closing <;> simp [closingRow, Closing.closedAt]
  amount := fun hbalance => if_neg fun hfraction => absurd hfraction.2 (not_lt.mpr hbalance)

/-- A stored row of a holding is what some ledger left it with. -/
theorem leaves_of_stored (hown : chain.OwnsRows holding) {row : BalanceRow}
    (hrow : row ∈ storedBalances s) (hkey : row.key = rowKey holding.text) :
    ∃ n closing, chain.leaves n holding = some closing ∧
      row = closingRow n holding.text closing := by
  obtain ⟨stored, -, hbalance⟩ := mem_storedBalances.mp hrow
  obtain ⟨n, rows, hstages, hmem⟩ := stored.staged row hbalance
  have hfilter : row ∈ rows.filter (·.key = rowKey holding.text) :=
    List.mem_filter.mpr ⟨hmem, decide_eq_true hkey⟩
  rw [BalanceChain.stages_spec hstages hown, Option.mem_toList, Option.map_eq_some_iff] at hfilter
  obtain ⟨closing, hleaves, rfl⟩ := hfilter
  exact ⟨n, closing, hleaves, rfl⟩

/-- One ledger leaves a holding with one balance. -/
theorem eq_of_stored (hown : chain.OwnsRows holding) {a b : BalanceRow}
    (ha : a ∈ storedBalances s) (hb : b ∈ storedBalances s) (hkeyA : a.key = rowKey holding.text)
    (hkeyB : b.key = rowKey holding.text) (hversion : a.lastUpdatedLedger = b.lastUpdatedLedger) :
    a = b := by
  obtain ⟨n, first, hfirst, rfl⟩ := leaves_of_stored hown ha hkeyA
  obtain ⟨n', second, hsecond, rfl⟩ := leaves_of_stored hown hb hkeyB
  have hledgers : (n.toNat : ℤ) = n'.toNat := hversion
  have hsame : n = n' := UInt32.toNat_inj.mp (by exact_mod_cast hledgers)
  subst hsame
  rw [Option.some.inj (hfirst.symm.trans hsecond)]

/-- What a marked ledger left a holding with is stored. -/
theorem stored_of_leaves (hs : s.Consistent anytime)
    (hfaithful : ∀ staged ∈ s.stagings, Faithful staged) (hown : chain.OwnsRows holding)
    {n : UInt32} (hmarked : Marked s n) {closing : Closing}
    (hleaves : chain.leaves n holding = some closing) :
    closingRow n holding.text closing ∈ storedBalances s := by
  obtain ⟨marker, hmarker, hsequence⟩ := hmarked
  obtain ⟨staged, _, hstaged, hledger, hrows⟩ := stored_of_marker hs hmarker
  obtain ⟨m, hm, hstages⟩ := hfaithful staged (List.mem_of_getElem? hstaged) marker
    (hledger ▸ List.mem_singleton_self marker)
  have hsame : m = n := UInt32.toNat_inj.mp (by exact_mod_cast hm.symm.trans hsequence)
  subst hsame
  have hspec := BalanceChain.stages_spec hstages hown
  rw [hleaves, Option.map_some, Option.toList_some] at hspec
  have hmem : closingRow m holding.text closing ∈ balancesOf (staged.rows .balances) :=
    List.mem_of_mem_filter (hspec ▸ List.mem_singleton_self _)
  obtain ⟨stored, hstored, hbalance⟩ := mem_balancesOf.mp hmem
  exact mem_storedBalances.mpr ⟨stored, (hrows .balances stored hstored).2, hbalance⟩

end Stored

/-! ## Reads -/

/-- **Reads of a credit balance.**  Any number of processors and backfills write the
balances, in any order, with requests that fail, writers that are killed and rows that
arrive late.  A row that a read may take for an account and a credit asset says what some
ledger left the holding with, and no ledger with a stored `ledgers` row has touched it
since; and once such a ledger has touched it, there is one row to take. -/
theorem balances_read {ι κ : Type} [DecidableEq ι] [DecidableEq κ] (chain : BalanceChain)
    (seeded : List LedgerRow) (lakes : ι → HandlerState × (String → List LedgerRow))
    (file : ℤ → List LedgerRow) (hfile : ∀ seq, ∀ ledger ∈ file seq, ledger.sequence = seq)
    (f : Fleet (@writers ι κ chain.ChainRow seeded lakes file))
    (hreach : Fleet.Reachable (E := store chain.ChainRow seeded) fresh unstarted f)
    (hfaithful : ∀ staged ∈ f.shared.stagings, Faithful staged)
    (account issuer : AccountId) (code : String)
    (hown : chain.OwnsRows ⟨account, .credit code issuer⟩) :
    (∀ row, Survives BalanceRow.key BalanceRow.lastUpdatedLedger (storedBalances f.shared) row →
      row.key = creditKey account code issuer →
      ∃ n closing, chain.leaves n ⟨account, .credit code issuer⟩ = some closing ∧
        Shows n closing row ∧
        ∀ m, Marked f.shared m → chain.leaves m ⟨account, .credit code issuer⟩ ≠ none → m ≤ n) ∧
    ∀ m, Marked f.shared m → chain.leaves m ⟨account, .credit code issuer⟩ ≠ none →
      ∃! row, Survives BalanceRow.key BalanceRow.lastUpdatedLedger (storedBalances f.shared) row ∧
        row.key = creditKey account code issuer := by
  have hconsistent : f.shared.Consistent anytime := (safe_writers hfile hreach).inv
  refine ⟨fun row hrow hkey => ?_, fun m hmarked htouched => ?_⟩
  · obtain ⟨n, closing, hleaves, rfl⟩ := leaves_of_stored hown hrow.1 hkey
    refine ⟨n, closing, hleaves, shows_closingRow n _ closing, fun m hmarked htouched => ?_⟩
    obtain ⟨later, hlater⟩ := Option.ne_none_iff_exists'.mp htouched
    -- the row of the marked ledger is stored, and is no newer
    have hstored := stored_of_leaves hconsistent hfaithful hown hmarked hlater
    have hle : (m.toNat : ℤ) ≤ n.toNat := hrow.2 _ hstored rfl
    exact UInt32.le_iff_toNat_le.mpr (by exact_mod_cast hle)
  · obtain ⟨closing, hleaves⟩ := Option.ne_none_iff_exists'.mp htouched
    refine existsUnique_survives ?_ (stored_of_leaves hconsistent hfaithful hown hmarked hleaves)
      rfl
    intro a ha b hb hkeyA hkeyB hversion
    exact eq_of_stored hown ha hb hkeyA hkeyB hversion

end

/-! ## A trustline that is read -/

/-- The trustline of the pinned account to its own USDC, opened by the first closed ledger. -/
private def usdcChain : BalanceChain where
  createdAt := fun _ => 0
  txs := fun n => if n = 2 then
    [("aa", oneOperation [.created (usdcTrustline usdc4 250000000)])] else []
  tokenBalances := fun _ => []
  wraps := fun _ => none

private def usdcInputs [Crates] : StageInputs where
  ledgerSequence := 2
  transactions := []
  events := []
  changes := []
  accountStates := statesOf (fun _ => .stored) 2 0 (usdcChain.txs 2)
  liquidityPools := []
  assets := []
  sorobanTokenBalances := []
  assetTransfers := []

private def usdcBalance [Crates] : BalanceRow :=
  creditRow 2 Crates.pinnedAccount "USDC" Crates.pinnedAccount (.live 250000000)

private theorem stages_usdc : @BalanceChain.Stages Crates.pinned usdcChain 2
    [@usdcBalance Crates.pinned] := by
  let _ : Crates := Crates.pinned
  have hoption : (accountBalanceRows usdcInputs.accountStates).toOption = some [usdcBalance] := by
    decide
  have hrows : accountBalanceRows usdcInputs.accountStates = .ok [usdcBalance] := by
    cases hstaged : accountBalanceRows usdcInputs.accountStates with
    | error error =>
        rw [hstaged] at hoption
        cases hoption
    | ok rows =>
        rw [hstaged] at hoption
        exact congrArg Except.ok (Option.some.inj hoption)
  have hparts : usdcInputs.stagedParts = .ok ⟨[], [], [usdcBalance], []⟩ := by
    unfold StageInputs.stagedParts
    rw [hrows]
    rfl
  have hmap : ∀ contract asset, (seededSacMap usdcInputs.assets ∅).lookup contract = some asset →
      usdcChain.wraps contract = some asset := fun _ _ hlookup => by cases hlookup
  exact ⟨fun _ => .stored, usdcInputs, ∅, _, rfl, rfl, hparts, hmap, rfl⟩

private theorem ownsRows_usdc : @BalanceChain.OwnsRows Crates.pinned usdcChain
    ⟨Crates.pinnedAccount, .credit "USDC" Crates.pinnedAccount⟩ := by
  let _ : Crates := Crates.pinned
  refine ⟨by decide, by decide, fun n => ?_, fun n b hb => by cases hb⟩
  by_cases hn : n = 2
  · subst hn
    decide
  · have htxs : usdcChain.txs n = [] := if_neg hn
    rw [BalanceChain.changes, htxs]
    decide

/-- The balance as the row it is streamed in. -/
private def usdcRow : @BalanceChain.ChainRow Crates.pinned usdcChain :=
  let _ : Crates := Crates.pinned
  ⟨some usdcBalance, fun _ hrow => ⟨2, [usdcBalance], stages_usdc,
    List.mem_singleton.mpr (Option.some.inj hrow).symm⟩⟩

private def usdcRows : StreamTable → List (@BalanceChain.ChainRow Crates.pinned usdcChain)
  | .balances => [usdcRow]
  | _ => []

/-- A lake whose every file holds that ledger. -/
private def usdcLakes (_ : Unit) : HandlerState × (String → List LedgerRow) :=
  ({ bucket := PUBLIC_BUCKET, keyPrefix := "" }, fun _ => [bareLedger 2])

private abbrev usdcWriters :=
  @writers Unit Unit (@BalanceChain.ChainRow Crates.pinned usdcChain) [] usdcLakes bareArchive

/-- The states of the processor of that lake, alone. -/
private abbrev UsdcRuns (c : Config (usdcWriters (.inl ())).world (usdcWriters (.inl ())).Result) :
    Prop :=
  Interaction.Reachable (usdcWriters (.inl ())).world (usdcWriters (.inl ())).programs
    (fresh, ()) c

private theorem UsdcRuns.db {s s' : Store (@BalanceChain.ChainRow Crates.pinned usdcChain)}
    {p : Prog ((clickHouse _).sum handlerInterface) (Except HandlerError Reconciled)}
    (h : UsdcRuns ⟨(s, ()), some p⟩) (op : DbOp _) (answer : (clickHouse _).Ans op)
    {rest : (clickHouse _).Ans op → Prog ((clickHouse _).sum handlerInterface) _}
    (hp : p = .ask (I := (clickHouse _).sum handlerInterface) (.inl op) rest)
    (hanswer : s.Answers [] op answer s') : UsdcRuns ⟨(s', ()), some (rest answer)⟩ :=
  Interaction.Reachable.answer (E := (usdcWriters (.inl ())).world) h hp ⟨hanswer, rfl⟩

private theorem UsdcRuns.handler {s : Store (@BalanceChain.ChainRow Crates.pinned usdcChain)}
    {p : Prog ((clickHouse _).sum handlerInterface) (Except HandlerError Reconciled)}
    (h : UsdcRuns ⟨(s, ()), some p⟩) (op : HandlerOp) (answer : handlerInterface.Ans op)
    {rest : handlerInterface.Ans op → Prog ((clickHouse _).sum handlerInterface) _}
    (hp : p = .ask (I := (clickHouse _).sum handlerInterface) (.inr op) rest)
    (hanswer : (lake fun _ => [bareLedger 2]).answers () op answer ()) :
    UsdcRuns ⟨(s, ()), some (rest answer)⟩ :=
  Interaction.Reachable.answer (E := (usdcWriters (.inl ())).world) h hp ⟨hanswer, rfl⟩

/-- The ledger is stored in one wake, from the one staging. -/
private theorem runs_usdc : ∃ c, UsdcRuns c ∧
    c.env.1.stagings = [{ ledgerRows := [⟨0, bareLedger 2⟩], rows := usdcRows }] ∧
    c.env.1.ledgers = [⟨0, bareLedger 2⟩] := by
  have hidle : UsdcRuns ⟨(fresh, ()), none⟩ := .refl
  have hwake : UsdcRuns ⟨(fresh, ()), some (reconcile (usdcLakes ()).1 1).run⟩ :=
    hidle.tail (.wake ⟨1, rfl⟩)
  have hmax := UsdcRuns.db hwake .maxSequence (.ok 0) rfl ⟨rfl, fun max h => by cases h; rfl⟩
  have hhead := UsdcRuns.handler hmax (.headObject (ledgerS3Key "" 2)) (.ok true) rfl trivial
  have hget := UsdcRuns.handler hhead (.getObject (ledgerS3Key "" 2)) (.ok [bareLedger 2]) rfl
    fun batch h => by cases h; rfl
  have hmetadata := UsdcRuns.handler hget (.contractMetadataWrites (bareLedger 2)) (.ok ()) rfl
    trivial
  have hstage := UsdcRuns.db hmetadata (.stage (bareLedger 2)) (.ok (0, usdcRows)) rfl ⟨rfl, rfl⟩
  have hopen := UsdcRuns.db hstage .openWriter (0 : ℕ) rfl ⟨rfl, rfl⟩
  have hinsert := UsdcRuns.db hopen (.openInsert 0 .balances) (.ok ()) rfl rfl
  have hwrite := UsdcRuns.db hinsert (.write 0 .balances usdcRow) (.ok ()) rfl rfl
  have hend := UsdcRuns.db hwrite (.endInsert 0 .balances [usdcRow]) (.ok ()) rfl rfl
  have hledgers := UsdcRuns.db hend (.openLedgers 0) (.ok ()) rfl rfl
  have hmarker := UsdcRuns.db hledgers (.writeLedgers 0 ⟨0, bareLedger 2⟩) (.ok ()) rfl rfl
  have hdone := UsdcRuns.db hmarker (.endLedgers 0 [⟨0, bareLedger 2⟩]) (.ok ()) rfl rfl
  exact ⟨_, hdone, rfl, rfl⟩

/-- The read after a wake over the ledger that opens the trustline. -/
theorem balances_read_usdc :
    ∃ f : Fleet usdcWriters, ∃! row,
      Survives BalanceRow.key BalanceRow.lastUpdatedLedger
          (@storedBalances Crates.pinned usdcChain f.shared) row ∧
        row.key = @creditKey Crates.pinned Crates.pinnedAccount "USDC" Crates.pinnedAccount := by
  obtain ⟨c, hruns, hstagings, hledgers⟩ := runs_usdc
  have halone : Interaction.Reachable (usdcWriters (.inl ())).world
      (usdcWriters (.inl ())).programs (fresh, unstarted (.inl ())) c := hruns
  obtain ⟨f, hreach, hshared, -⟩ := Fleet.exists_of_service halone
  have hfaithful : ∀ staged ∈ f.shared.stagings, @Faithful Crates.pinned usdcChain staged := by
    rw [hshared, hstagings]
    intro staged hstaged marker hmarker
    obtain rfl := List.mem_singleton.mp hstaged
    obtain rfl := List.mem_singleton.mp hmarker
    exact ⟨2, rfl, stages_usdc⟩
  have hmarked : @Marked Crates.pinned usdcChain f.shared 2 :=
    ⟨⟨0, bareLedger 2⟩, by rw [hshared, hledgers]; exact List.mem_singleton_self _, rfl⟩
  refine ⟨f, (@balances_read Crates.pinned Unit Unit _ _ usdcChain [] usdcLakes bareArchive
    (fun seq ledger h => by cases List.mem_singleton.mp h; rfl) f hreach hfaithful
    Crates.pinnedAccount Crates.pinnedAccount "USDC" ownsRows_usdc).2 2 hmarked ?_⟩
  decide

end SorobanExplorer.Backfill
