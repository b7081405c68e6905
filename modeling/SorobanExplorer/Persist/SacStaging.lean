import SorobanExplorer.Lib.KeepLast
import SorobanExplorer.Lib.Traverse
import SorobanExplorer.Parser.AssetSightings
import SorobanExplorer.Parser.TokenBalances
import SorobanExplorer.Persist.PoolMovements
import SorobanExplorer.Persist.PoolState
import SorobanExplorer.Persist.ValueFlow
import SorobanExplorer.Persist.Writer

/-!
# Staging with the map of asset contracts

A contract's token balance, a leg of a contract pool and a leg of what a pool moved name
their token by its contract.  The asset of such a token is looked up in a map from asset
contracts to the assets they wrap.  Staging is handed one such map, and adds the asset
contracts the ledger itself shows to a copy of it: balances and registry rows are keyed on
the copy, movements on the map that was handed in.
-/

namespace SorobanExplorer

open KeepLast KeyedFold Persist

/-! ## The JSON texts of an event -/

mutual

/-- How deep arrays and objects are nested. -/
def Json.depth : Json → ℕ
  | .null | .bool _ | .num _ | .str _ => 0
  | .arr elements => depthOfElements elements + 1
  | .obj fields => depthOfFields fields + 1

def Json.depthOfElements : List Json → ℕ
  | [] => 0
  | element :: rest => max element.depth (depthOfElements rest)

def Json.depthOfFields : List (String × Json) → ℕ
  | [] => 0
  | (_, value) :: rest => max value.depth (depthOfFields rest)

end

/-- A value written as text and read again; the reader gives up at 128 nested arrays
and objects. -/
def Json.reread (value : Json) : Option Json :=
  if value.depth < 128 then some value else none

/-! ## What staging reads -/

/-- What staging reads of a ledger for the tables that name tokens by their contracts. -/
structure StageInputs where
  ledgerSequence : UInt32
  transactions : List ExtractedTransaction
  events : List (String × List ExtractedEvent)
  /-- The changes of its transactions, which the writes of the pool families are read from. -/
  changes : List (List ExtractedLedgerEntryChange)
  accountStates : List ExtractedAccountState
  liquidityPools : List ExtractedLiquidityPool
  assets : List ExtractedAsset
  sorobanTokenBalances : List ExtractedSorobanBalance
  assetTransfers : List ExtractedAssetTransfer

/-- What is staged of it without the map. -/
structure StagedParts where
  classicPoolRows : List LiquidityPoolRow
  eventRows : List SorobanEventRow
  accountBalances : List BalanceRow
  transferRows : List AssetTransferRow

/-- The rows of the tables that name tokens by their contracts. -/
structure StagedTables where
  unifiedBalanceRows : List BalanceRow
  poolRows : List LiquidityPoolRow
  poolMovementRows : List PoolMovementRow
  deriving DecidableEq

/-- The rows a write leaves in the tables it persists. -/
def StagedTables.persisted (persists : StreamTable → Bool) (staged : StagedTables) :
    StagedTables where
  unifiedBalanceRows := if persists .balances then staged.unifiedBalanceRows else []
  poolRows := if persists .liquidityPools then staged.poolRows else []
  poolMovementRows := if persists .poolMovements then staged.poolMovementRows else []

section

variable [Crates]

/-! ## The copy of the map -/

/-- An asset seen with its contract, as an entry of the map. -/
def sacSeed (asset : ExtractedAsset) : Option (Int64 × Int64) :=
  asset.sacContractId.map fun sac =>
    (Ids.contractId sac,
      Ids.assetId asset.assetType.toI16 (asset.assetCode.getD "")
        ((asset.issuerAddress.map Ids.accountId).getD 0) 0)

/-- The map and the asset contracts of the ledger; what the map says of a contract stays. -/
def seededSacMap (assets : List ExtractedAsset) (sacClassic : Table Int64 Int64) :
    Table Int64 Int64 :=
  runAll ((assets.filterMap sacSeed).map fun seed => ⟨seed.1, fun held => held.getD seed.2⟩)
    sacClassic

/-! ## Token balances -/

def tokenBalanceRow (sacClassic : Table Int64 Int64) (b : ExtractedSorobanBalance) :
    BalanceRow where
  holderId := Ids.addressId b.holder
  assetId := contractTokenAssetId b.contractId sacClassic
  amount := b.balance
  lastUpdatedLedger := b.ledger.toNat
  closedAtLedger := if b.closed then b.ledger.toNat else 0

/-- One row a holder and asset, the last. -/
def buildBalanceRows (balances : List ExtractedSorobanBalance) (sacClassic : Table Int64 Int64) :
    List BalanceRow :=
  keepLastByKey (fun row => (row.holderId, row.assetId)) (balances.map (tokenBalanceRow sacClassic))

/-! ## Event rows -/

/-- The row of an event; an event without a contract has none. -/
def eventRow (ledgerSequence : ℤ) (applicationOrder : Int16) (ev : ExtractedEvent) :
    Option SorobanEventRow :=
  ev.body.contractId.map fun contract =>
    { contractId := Ids.contractId contract
      ledgerSequence
      operationIndex := ev.eventId.operationIndex
      eventIndex := ev.eventId.eventIndex
      applicationOrder
      topicsXdr := ev.body.topics.reread
      dataXdr := ev.body.data.reread }

/-- The rows of placed events, each with its transaction; an id seen before fails the
ledger. -/
def eventRowsFrom (ledgerSequence : ℤ) (seenIds : List EventId) :
    List (Int16 × String × ExtractedEvent) → Except SchemaError (List SorobanEventRow)
  | [] => .ok []
  | (applicationOrder, hash, ev) :: rest =>
      if ev.eventId ∈ seenIds then
        .error (.staging (s!"two events share the stellar-rpc id {ev.eventId.toRpcString} " ++
          s!"(tx {hash}) — ADR 0059"))
      else do
        let rows ← eventRowsFrom ledgerSequence (ev.eventId :: seenIds) rest
        return (eventRow ledgerSequence applicationOrder ev).toList ++ rows

/-- The rows of a ledger's events; a transaction without a position is passed over. -/
def stagedEventRows (ledgerSequence : ℤ) (appOrderByHash : Table String Int16)
    (events : List (String × List ExtractedEvent)) : Except SchemaError (List SorobanEventRow) :=
  eventRowsFrom ledgerSequence [] <| events.flatMap fun (hash, evs) =>
    match appOrderByHash.lookup hash with
    | none => []
    | some applicationOrder => evs.map fun ev => (applicationOrder, hash, ev)

/-! ## The pools of the movements -/

/-- The legs of the pairs written in a ledger, by the last write of a pair. -/
def PoolLedger.pairLegs (ledger : PoolLedger) (sacClassic : Table Int64 Int64) :
    Table Hash (List Int64) :=
  collect (ledger.factoryPairs.filterMap fun write =>
    (Ids.contractPayload write.state.pair).map fun poolId =>
      (poolId, [contractTokenAssetId write.state.token0 sacClassic,
        contractTokenAssetId write.state.token1 sacClassic]))

/-- A pool under the id its events carry. -/
def sorobanPoolEntry (poolId : Hash) (legs : List Int64) : Int64 × SorobanPool :=
  (Ids.contractId (Crates.scAddressStrkey (.contract poolId)), ⟨poolId, legs, ∅⟩)

/-- A pool for every state row, with its own legs where it is a pair. -/
def statePools (rows : List PoolStateChangeRow) (pairLegs : Table Hash (List Int64)) :
    Table Int64 SorobanPool :=
  runAll (rows.map fun row =>
    let entry := sorobanPoolEntry row.poolId ((pairLegs.lookup row.poolId).getD [])
    ⟨entry.1, fun held => held.getD entry.2⟩) ∅

/-- Give a pool without legs those it is registered with. -/
def addRegisteredLegs (pools : Table Int64 SorobanPool) (row : LiquidityPoolRow) :
    Table Int64 SorobanPool :=
  let registered := sorobanPoolEntry (.ofBytes row.poolId) row.legs
  modifyWhere (· = registered.1)
    (fun pool => if pool.legs = [] then { pool with legs := registered.2.legs } else pool) pools

/-- Note what a pool paid out in an operation. -/
def SorobanPool.pay (pool : SorobanPool) (op : Int16 × UInt16) (paid : Int64 × ℤ) : SorobanPool :=
  { pool with payouts := pool.payouts.insert op ((pool.payouts.lookup op).getD [] ++ [paid]) }

def addPayout (pools : Table Int64 SorobanPool) (t : AssetTransferRow) : Table Int64 SorobanPool :=
  match t.senderId, t.amount with
  | some sender, some amount =>
      if t.senderKind = "C" then
        modifyWhere (· = sender)
          (fun pool => pool.pay (t.applicationOrder, t.opIndex.toUInt16) (t.assetId, amount)) pools
      else pools
  | _, _ => pools

/-- The pools a ledger staged a state row for, with what the ledger shows of their legs. -/
def poolsOf (stateRows : List PoolStateChangeRow) (poolRows : List LiquidityPoolRow)
    (transferRows : List AssetTransferRow) (pairLegs : Table Hash (List Int64)) :
    Table Int64 SorobanPool :=
  transferRows.foldl addPayout
    ((poolRows.filter (·.poolKind = .soroban)).foldl addRegisteredLegs
      (statePools stateRows pairLegs))

/-! ## Staging -/

namespace StageInputs

variable (inputs : StageInputs)

def poolLedger (sacMap : Table Int64 Int64) : PoolLedger where
  ledgerSequence := inputs.ledgerSequence
  events := inputs.events
  changes := inputs.changes
  sacMap

/-- What is staged without the map; what fails, fails here. -/
def stagedParts : Except SchemaError StagedParts := do
  let appOrderByHash ← orderByHash inputs.transactions
  let classicPoolRows ← buildPoolRows inputs.liquidityPools
  let eventRows ← stagedEventRows inputs.ledgerSequence.toNat appOrderByHash inputs.events
  let accountBalances ← accountBalanceRows inputs.accountStates
  let valueFlow ← buildValueFlowRows inputs.ledgerSequence.toNat inputs.transactions
    inputs.assetTransfers
  return { classicPoolRows, eventRows, accountBalances, transferRows := valueFlow.transfers }

/-- What was staged without the map, part by part. -/
theorem stagedParts_eq_ok {inputs : StageInputs} {parts : StagedParts}
    (h : inputs.stagedParts = .ok parts) :
    buildPoolRows inputs.liquidityPools = .ok parts.classicPoolRows ∧
      (∃ appOrderByHash, stagedEventRows inputs.ledgerSequence.toNat appOrderByHash
        inputs.events = .ok parts.eventRows) ∧
      accountBalanceRows inputs.accountStates = .ok parts.accountBalances ∧
      ∃ orders, orderByHash inputs.transactions = .ok orders ∧
        List.Forall₂ (fun transfer row =>
            assetTransferRow inputs.ledgerSequence.toNat orders transfer = .ok row)
          inputs.assetTransfers parts.transferRows := by
  obtain ⟨appOrderByHash, -, h⟩ := Traverse.bind_eq_ok_iff.mp h
  obtain ⟨classicPoolRows, hclassic, h⟩ := Traverse.bind_eq_ok_iff.mp h
  obtain ⟨eventRows, hevents, h⟩ := Traverse.bind_eq_ok_iff.mp h
  obtain ⟨accountBalances, haccounts, h⟩ := Traverse.bind_eq_ok_iff.mp h
  obtain ⟨valueFlow, hflow, h⟩ := Traverse.bind_eq_ok_iff.mp h
  cases h
  obtain ⟨orders, horders, hflow⟩ := Traverse.bind_eq_ok_iff.mp hflow
  obtain ⟨rows, hrows, hflow⟩ := Traverse.bind_eq_ok_iff.mp hflow
  cases hflow
  exact ⟨hclassic, ⟨appOrderByHash, hevents⟩, haccounts, orders, horders,
    Traverse.mapM_eq_ok_iff.mp hrows⟩

/-- The pools of the ledger's events. -/
def movementPools (parts : StagedParts) (sacClassic : Table Int64 Int64) :
    Table Int64 SorobanPool :=
  let pools := inputs.poolLedger (seededSacMap inputs.assets sacClassic)
  poolsOf pools.poolStateChangeRows (parts.classicPoolRows ++ pools.registryRows)
    parts.transferRows (pools.pairLegs sacClassic)

/-- The tables, with the map handed in. -/
def stagedTables (parts : StagedParts) (sacClassic : Table Int64 Int64) : StagedTables :=
  let sacMap := seededSacMap inputs.assets sacClassic
  { unifiedBalanceRows :=
      buildBalanceRows inputs.sorobanTokenBalances sacMap ++ parts.accountBalances
    poolRows := parts.classicPoolRows ++ (inputs.poolLedger sacMap).registryRows
    -- Movements alone are keyed on the map as it was handed in.
    poolMovementRows :=
      sorobanPoolAmountRows parts.eventRows (inputs.movementPools parts sacClassic) sacClassic }

def prepareWithSacOverrides (sacClassic : Table Int64 Int64) : Except SchemaError StagedTables :=
  inputs.stagedParts.map (inputs.stagedTables · sacClassic)

end StageInputs

end

/-! ## The gate of the query -/

/-- The first names of the events that carry amounts. -/
def poolAmountNames : List String :=
  ["trade", "swap", "deposit_liquidity", "withdraw_liquidity", "provide_liquidity",
    "SoroswapPair"]

/-- A name only: whether the emitter is a pool is not asked. -/
def carriesPoolAmounts (events : List (String × List ExtractedEvent)) : Bool :=
  events.any fun transaction => transaction.2.any fun ev =>
    ((ev.body.topics.asArray.bind List.head?).bind strValue).any (poolAmountNames.contains ·)

/-- Whether a write needs the map: for its token balances, for the pools it registers,
or for the amounts of pool events. -/
def sacClassicMapNeeded (sorobanTokenBalances : List ExtractedSorobanBalance)
    (events : List (String × List ExtractedEvent)) (writesBalances writesPoolMovements : Bool) :
    Bool :=
  writesBalances && !sorobanTokenBalances.isEmpty || registersSorobanPools events ||
    writesPoolMovements && carriesPoolAmounts events

/-- The map, queried only where it is needed. -/
def fetchSacClassicMap (needed : Bool) (query : Table Int64 Int64) : Table Int64 Int64 :=
  if needed then query else ∅

end SorobanExplorer
