import SorobanExplorer.Lib.Interaction
import SorobanExplorer.Lib.Fleet
import SorobanExplorer.Lib.Broker
import SorobanExplorer.Lib.StagedSwap
import SorobanExplorer.Lib.Text
import SorobanExplorer.Lib.Decimal
import SorobanExplorer.Lib.KeyedFold
import SorobanExplorer.Lib.Traverse
import SorobanExplorer.Lib.Numbering
import SorobanExplorer.Persist.Writer
import SorobanExplorer.Persist.CommitMarker
import SorobanExplorer.Persist.WriterSpec
import SorobanExplorer.Indexer.LedgerKey
import SorobanExplorer.Indexer.Reconcile
import SorobanExplorer.Indexer.Cursor
import SorobanExplorer.Xdr
import SorobanExplorer.Crates
import SorobanExplorer.Parser.Json
import SorobanExplorer.Parser.ScVal
import SorobanExplorer.Parser.LedgerEntryChanges
import SorobanExplorer.Parser.AccountStates
import SorobanExplorer.Parser.Holdings
import SorobanExplorer.Parser.AccountHoldings
import SorobanExplorer.Persist.Error
import SorobanExplorer.Persist.Amount
import SorobanExplorer.Persist.Ids
import SorobanExplorer.Persist.Balances
import SorobanExplorer.Persist.BalancesSpec
import SorobanExplorer.Indexer.ParseLedger
import SorobanExplorer.Indexer.NativeBalance
import SorobanExplorer.Persist.CreditBalance
import SorobanExplorer.Parser.Event
import SorobanExplorer.Parser.EventIds
import SorobanExplorer.Parser.EventFilters
import SorobanExplorer.Parser.Sac
import SorobanExplorer.Parser.Operation
import SorobanExplorer.Parser.AssetTransfers
import SorobanExplorer.Parser.TransferOutcomes
import SorobanExplorer.Parser.SacAuthenticity
import SorobanExplorer.Parser.Transaction
import SorobanExplorer.Persist.ValueFlow
import SorobanExplorer.Persist.ValueFlowSpec
import SorobanExplorer.Indexer.TransferRows
import SorobanExplorer.Parser.ValueTelescope
import SorobanExplorer.Lib.KeepLast
import SorobanExplorer.Parser.TokenBalances
import SorobanExplorer.Parser.BalanceReaders
import SorobanExplorer.Parser.LiquidityPools
import SorobanExplorer.Parser.PoolOperations
import SorobanExplorer.Parser.PoolDelta
import SorobanExplorer.Parser.Nft
import SorobanExplorer.Parser.NftAgreement
import SorobanExplorer.Persist.ClassicPools
import SorobanExplorer.Persist.ClassicPoolsSpec
import SorobanExplorer.Parser.ClaimableBalances
import SorobanExplorer.Persist.ClaimableBalances
import SorobanExplorer.Persist.ClaimableBalancesSpec
import SorobanExplorer.Parser.ExecutableUpdate
import SorobanExplorer.Parser.Deployments
import SorobanExplorer.Persist.Contracts
import SorobanExplorer.Persist.ContractsSpec
import SorobanExplorer.Indexer.ContractUpgrades
import SorobanExplorer.Parser.Envelope
import SorobanExplorer.Parser.OpSource
import SorobanExplorer.Parser.ExtractTransactions
import SorobanExplorer.Indexer.DeployerAttribution
import SorobanExplorer.Lib.Ranked
import SorobanExplorer.Api.Cursor
import SorobanExplorer.Api.Pagination
import SorobanExplorer.Api.KeysetWalk
import SorobanExplorer.Indexer.LakePacing
import SorobanExplorer.Api.TransactionListSpec
import SorobanExplorer.Snapshot.SeedConvergence
import SorobanExplorer.Snapshot.ClaimableSpec
import SorobanExplorer.Parser.TypedJson
import SorobanExplorer.Indexer.FleetCode
import SorobanExplorer.Lib.PageWalk
import SorobanExplorer.Lib.Collapse
import SorobanExplorer.Api.CursorWalk
import SorobanExplorer.Api.KeysetPage
import SorobanExplorer.Api.InvocationList
import SorobanExplorer.Api.LedgerList
import SorobanExplorer.Api.AssetList
import SorobanExplorer.Api.UnmergedLists
import SorobanExplorer.Api.NftTransfersSpec
import SorobanExplorer.Lib.GroupBy
import SorobanExplorer.Api.BalanceChangesSpec
import SorobanExplorer.Persist.SorobanPoolsSpec
import SorobanExplorer.Parser.InvocationSpec
import SorobanExplorer.Persist.ContractActivity
import SorobanExplorer.Persist.NetSettled
import SorobanExplorer.Persist.PoolMovementsSpec
import SorobanExplorer.Snapshot.RpcSeed
import SorobanExplorer.Persist.AccountRowsSpec
import SorobanExplorer.Indexer.ContractMetadataSpec
import SorobanExplorer.Parser.SubAccountsSpec
import SorobanExplorer.Backfill.NftReclassifySpec
import SorobanExplorer.Backfill.Resume
import SorobanExplorer.Backfill.Fleet
import SorobanExplorer.Persist.PoolFillsSpec
import SorobanExplorer.Lib.SortedUnique
import SorobanExplorer.Persist.OperationIdentity
import SorobanExplorer.Persist.OperationsSpec
import SorobanExplorer.Persist.PoolStateSpec
import SorobanExplorer.Indexer.NftOwnership
import SorobanExplorer.Persist.AssetFacetsSpec
import SorobanExplorer.Indexer.SacFacets
import SorobanExplorer.Api.SorobanPoolActivitySpec
import SorobanExplorer.Parser.WasmScanSpec
import SorobanExplorer.Parser.Fold
import SorobanExplorer.Api.ArchiveKey
import SorobanExplorer.Backfill.Archive
import SorobanExplorer.Enrichment.TokenUriSpec
import SorobanExplorer.Enrichment.Columns
import SorobanExplorer.Enrichment.Services
import SorobanExplorer.Enrichment.Tables
import SorobanExplorer.Enrichment.ServicesSpec
import SorobanExplorer.Enrichment.Fleet
import SorobanExplorer.Persist.SacMapGate
import SorobanExplorer.Persist.SacKeys
import SorobanExplorer.Persist.WasmPrograms
import SorobanExplorer.Backfill.Rebuild
import SorobanExplorer.Backfill.RebuildSpec
import SorobanExplorer.Backfill.RebuildRuns
import SorobanExplorer.Persist.ContractVerdicts
import SorobanExplorer.Persist.ContractVerdictsSpec
import SorobanExplorer.Persist.ContractWrites
import SorobanExplorer.Indexer.VerdictFleet
import SorobanExplorer.Backfill.BalanceRead
