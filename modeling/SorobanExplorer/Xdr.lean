import Mathlib.Algebra.Group.Nat.Defs
import SorobanExplorer.Lib.Text

/-!
# Ledger data

The XDR types the indexer reads: ledger entries and their changes, contract
values, events, and the close meta they arrive in.  Names and cases follow the
protocol's; fields no modelled function reads are left out.
-/

namespace SorobanExplorer

open Text

/-- A 32-byte hash, big-endian. -/
abbrev Hash := BitVec 256

/-- The bytes of a hash, first byte first. -/
def Hash.bytes (hash : Hash) : Bytes :=
  (List.range 32).map fun i => UInt8.ofNat (hash.toNat >>> (8 * (31 - i)))

/-- The hash of 32 bytes. -/
def Hash.ofBytes (bytes : Bytes) : Hash :=
  BitVec.ofNat 256 (bytes.foldl (fun n byte => n * 256 + byte.toNat) 0)

/-- The first `k` bytes of a number are its value without the bits after them. -/
private theorem foldl_leadingBytes {n : ℕ} (hn : n < 2 ^ 256) :
    ∀ k ≤ 32, ((List.range k).map fun i => UInt8.ofNat (n >>> (8 * (31 - i)))).foldl
      (fun n byte => n * 256 + byte.toNat) 0 = n >>> (8 * (32 - k)) := by
  intro k
  induction k with
  | zero =>
      intro _
      rw [Nat.shiftRight_eq_div_pow, Nat.div_eq_of_lt hn]
      rfl
  | succ k ih =>
      intro hk
      have hshift : 8 * (32 - k) = 8 * (31 - k) + 8 := by omega
      have hnext : 8 * (32 - (k + 1)) = 8 * (31 - k) := by omega
      rw [List.range_succ, List.map_append, List.foldl_append, ih (by omega), hshift, hnext,
        Nat.shiftRight_add]
      simp only [List.map_cons, List.map_nil, List.foldl_cons, List.foldl_nil]
      generalize n >>> (8 * (31 - k)) = m
      simp [Nat.shiftRight_eq_div_pow]
      omega

theorem Hash.ofBytes_bytes (hash : Hash) : Hash.ofBytes hash.bytes = hash := by
  unfold Hash.ofBytes Hash.bytes
  rw [foldl_leadingBytes hash.isLt 32 (by omega)]
  simp

theorem Hash.bytes_injective : Function.Injective Hash.bytes := by
  intro x y h
  rw [← Hash.ofBytes_bytes x, h, Hash.ofBytes_bytes]

theorem Hash.length_bytes (hash : Hash) : hash.bytes.length = 32 := by
  simp [Hash.bytes]

theorem Hash.hexEncode_inj {x y : Hash} : hexEncode x.bytes = hexEncode y.bytes ↔ x = y := by
  constructor
  · intro h
    have hbytes := congrArg hexDecode h
    rw [hexDecode_hexEncode, hexDecode_hexEncode] at hbytes
    exact Hash.bytes_injective (Option.some.inj hbytes)
  · rintro rfl
    rfl

abbrev AccountId := BitVec 256

abbrev ContractId := BitVec 256

/-! ## Assets -/

/-- A four-byte asset code, zero-padded. -/
structure AssetCode4 where
  bytes : Bytes
  length_eq : bytes.length = 4
  deriving DecidableEq

/-- A twelve-byte asset code, zero-padded. -/
structure AssetCode12 where
  bytes : Bytes
  length_eq : bytes.length = 12
  deriving DecidableEq

inductive Asset
  | native
  | creditAlphanum4 (code : AssetCode4) (issuer : AccountId)
  | creditAlphanum12 (code : AssetCode12) (issuer : AccountId)
  deriving DecidableEq

inductive TrustLineAsset
  | native
  | creditAlphanum4 (code : AssetCode4) (issuer : AccountId)
  | creditAlphanum12 (code : AssetCode12) (issuer : AccountId)
  | poolShare (pool : Hash)
  deriving DecidableEq

/-! ## Contract values -/

inductive ScAddress
  | account (id : AccountId)
  | contract (id : ContractId)
  | muxedAccount (id : UInt64) (ed25519 : Hash)
  | claimableBalance (id : Hash)
  | liquidityPool (id : Hash)
  | muxedContract (id : UInt64) (contract : ContractId)
  deriving DecidableEq

/-- The kinds of contract error, by their XDR names. -/
inductive ScErrorKind
  | contract | wasmVm | context | storage | object | crypto | events | budget | value | auth
  deriving DecidableEq

/-- What a contract's id is derived from. -/
inductive ContractIdPreimage
  | address (address : ScAddress) (salt : Hash)
  | asset (asset : Asset)
  deriving DecidableEq

inductive ContractExecutable
  | wasm (hash : Hash)
  | stellarAsset
  | externalRef (owner : ScAddress) (tag : Bytes)
  deriving DecidableEq

inductive ScVal
  | bool (value : Bool)
  | void
  | error (kind : ScErrorKind) (code : UInt32)
  | u32 (value : UInt32)
  | i32 (value : Int32)
  | u64 (value : UInt64)
  | i64 (value : Int64)
  | timepoint (value : UInt64)
  | duration (value : UInt64)
  | u128 (hi lo : UInt64)
  | i128 (hi : Int64) (lo : UInt64)
  | u256 (hiHi hiLo loHi loLo : UInt64)
  | i256 (hiHi : Int64) (hiLo loHi loLo : UInt64)
  | bytes (value : Bytes)
  | string (value : Bytes)
  | symbol (value : Bytes)
  | vec (elements : Option (List ScVal))
  | map (entries : Option (List (ScVal × ScVal)))
  | address (value : ScAddress)
  | contractInstance (executable : ContractExecutable) (storage : Option (List (ScVal × ScVal)))
  | ledgerKeyContractInstance
  | ledgerKeyNonce (nonce : Int64)
  | executableTag (value : Bytes)

/-! ## Ledger entries -/

inductive SignerKey
  | ed25519 (key : Hash)
  | preAuthTx (key : Hash)
  | hashX (key : Hash)
  | ed25519SignedPayload (key : Hash) (payload : Bytes)
  deriving DecidableEq

structure Signer where
  key : SignerKey
  weight : UInt32
  deriving DecidableEq

structure AccountEntry where
  accountId : AccountId
  balance : Int64
  seqNum : Int64
  numSubEntries : UInt32
  flags : UInt32
  homeDomain : Bytes
  /-- Master weight, low, medium, high. -/
  thresholds : Bytes
  signers : List Signer
  /-- The sponsorship counters `(sponsoring, sponsored)`, if the account ever
  took part in sponsorship. -/
  sponsorship : Option (UInt32 × UInt32)
  deriving DecidableEq

structure TrustLineEntry where
  accountId : AccountId
  asset : TrustLineAsset
  balance : Int64
  limit : Int64
  flags : UInt32
  deriving DecidableEq

structure OfferEntry where
  sellerId : AccountId
  offerId : Int64
  selling : Asset
  buying : Asset
  amount : Int64
  priceN : Int32
  priceD : Int32
  flags : UInt32
  deriving DecidableEq

structure DataEntry where
  accountId : AccountId
  dataName : Bytes
  dataValue : Bytes
  deriving DecidableEq

structure ClaimableBalanceEntry where
  balanceId : Hash
  /-- The destinations of the claimants. -/
  claimants : List AccountId
  asset : Asset
  amount : Int64
  deriving DecidableEq

/-- A constant-product pool. -/
structure LiquidityPoolEntry where
  liquidityPoolId : Hash
  assetA : Asset
  assetB : Asset
  fee : Int32
  reserveA : Int64
  reserveB : Int64
  totalPoolShares : Int64
  poolSharesTrustLineCount : Int64
  deriving DecidableEq

inductive ContractDataDurability
  | temporary
  | persistent
  deriving DecidableEq

structure ContractDataEntry where
  contract : ScAddress
  key : ScVal
  durability : ContractDataDurability
  val : ScVal

structure ContractCodeEntry where
  hash : Hash
  code : Bytes
  deriving DecidableEq

inductive ConfigSettingId
  | contractMaxSizeBytes | contractComputeV0 | contractLedgerCostV0 | contractHistoricalDataV0
  | contractEventsV0 | contractBandwidthV0 | contractCostParamsCpuInstructions
  | contractCostParamsMemoryBytes | contractDataKeySizeBytes | contractDataEntrySizeBytes
  | stateArchival | contractExecutionLanes | evictionIterator | liveSorobanStateSizeWindow
  | contractParallelComputeV0 | contractLedgerCostExtV0 | scpTiming | frozenLedgerKeys
  | frozenLedgerKeysDelta | freezeBypassTxs | freezeBypassTxsDelta

inductive LedgerEntryData
  | account (entry : AccountEntry)
  | trustline (entry : TrustLineEntry)
  | offer (entry : OfferEntry)
  | data (entry : DataEntry)
  | claimableBalance (entry : ClaimableBalanceEntry)
  | liquidityPool (entry : LiquidityPoolEntry)
  | contractData (entry : ContractDataEntry)
  | contractCode (entry : ContractCodeEntry)
  | configSetting (id : ConfigSettingId)
  | ttl (keyHash : Hash) (liveUntilLedgerSeq : UInt32)

structure LedgerEntry where
  lastModifiedLedgerSeq : UInt32
  data : LedgerEntryData

inductive LedgerKey
  | account (accountId : AccountId)
  | trustline (accountId : AccountId) (asset : TrustLineAsset)
  | offer (sellerId : AccountId) (offerId : Int64)
  | data (accountId : AccountId) (dataName : Bytes)
  | claimableBalance (balanceId : Hash)
  | liquidityPool (liquidityPoolId : Hash)
  | contractData (contract : ScAddress) (key : ScVal) (durability : ContractDataDurability)
  | contractCode (hash : Hash)
  | configSetting (id : ConfigSettingId)
  | ttl (keyHash : Hash)

/-- The key of an entry. -/
def LedgerEntryData.key : LedgerEntryData → LedgerKey
  | .account entry => .account entry.accountId
  | .trustline entry => .trustline entry.accountId entry.asset
  | .offer entry => .offer entry.sellerId entry.offerId
  | .data entry => .data entry.accountId entry.dataName
  | .claimableBalance entry => .claimableBalance entry.balanceId
  | .liquidityPool entry => .liquidityPool entry.liquidityPoolId
  | .contractData entry => .contractData entry.contract entry.key entry.durability
  | .contractCode entry => .contractCode entry.hash
  | .configSetting id => .configSetting id
  | .ttl keyHash _ => .ttl keyHash

/-- A change of one entry.  `state` is the image before the change that
follows it. -/
inductive LedgerEntryChange
  | created (entry : LedgerEntry)
  | updated (entry : LedgerEntry)
  | removed (key : LedgerKey)
  | state (entry : LedgerEntry)
  | restored (entry : LedgerEntry)

/-! ## Events -/

inductive ContractEventType
  | system
  | contract
  | diagnostic
  deriving DecidableEq, Repr

structure ContractEvent where
  contractId : Option ContractId
  type : ContractEventType
  topics : List ScVal
  data : ScVal

inductive TransactionEventStage
  | beforeAllTxs
  | afterTx
  | afterAllTxs
  deriving DecidableEq, Repr

structure TransactionEvent where
  stage : TransactionEventStage
  event : ContractEvent

/-! ## Close meta -/

structure SorobanTransactionMeta where
  events : List ContractEvent
  returnValue : ScVal
  diagnosticEvents : List ContractEvent

structure OperationMetaV2 where
  changes : List LedgerEntryChange
  events : List ContractEvent

/-- What applying one transaction did; `v0` to `v2` are the shapes before smart
contracts. -/
inductive TransactionMeta
  | v0 (operations : List (List LedgerEntryChange))
  | v1 (txChanges : List LedgerEntryChange) (operations : List (List LedgerEntryChange))
  | v2 (txChangesBefore : List LedgerEntryChange) (operations : List (List LedgerEntryChange))
      (txChangesAfter : List LedgerEntryChange)
  | v3 (txChangesBefore : List LedgerEntryChange) (operations : List (List LedgerEntryChange))
      (txChangesAfter : List LedgerEntryChange) (sorobanMeta : Option SorobanTransactionMeta)
  | v4 (txChangesBefore : List LedgerEntryChange) (operations : List OperationMetaV2)
      (txChangesAfter : List LedgerEntryChange) (sorobanReturnValue : Option ScVal)
      (events : List TransactionEvent) (diagnosticEvents : List ContractEvent)

structure TransactionResultMeta where
  feeProcessing : List LedgerEntryChange
  txApplyProcessing : TransactionMeta

structure TransactionResultMetaV1 where
  feeProcessing : List LedgerEntryChange
  txApplyProcessing : TransactionMeta
  postTxApplyFeeProcessing : List LedgerEntryChange

inductive LedgerCloseMeta
  | v0 (ledgerSeq : UInt32) (closeTime : UInt64) (txProcessing : List TransactionResultMeta)
  | v1 (ledgerSeq : UInt32) (closeTime : UInt64) (txProcessing : List TransactionResultMeta)
  | v2 (ledgerSeq : UInt32) (closeTime : UInt64) (txProcessing : List TransactionResultMetaV1)

/-! ## Transactions -/

inductive MuxedAccount
  | ed25519 (key : AccountId)
  | muxedEd25519 (id : UInt64) (key : AccountId)
  deriving DecidableEq

structure TimeBounds where
  minTime : UInt64
  maxTime : UInt64
  deriving DecidableEq

structure PreconditionsV2 where
  timeBounds : Option TimeBounds
  /-- First and last ledger. -/
  ledgerBounds : Option (UInt32 × UInt32)
  minSeqNum : Option Int64
  minSeqAge : UInt64
  minSeqLedgerGap : UInt32
  extraSigners : List SignerKey
  deriving DecidableEq

inductive Preconditions
  | none
  | time (bounds : TimeBounds)
  | v2 (conditions : PreconditionsV2)
  deriving DecidableEq

inductive Memo
  | none
  | text (text : Bytes)
  | id (id : UInt64)
  | hash (hash : Hash)
  | retHash (hash : Hash)
  deriving DecidableEq

structure CreateContractArgs where
  contractIdPreimage : ContractIdPreimage
  executable : ContractExecutable

structure CreateContractArgsV2 where
  contractIdPreimage : ContractIdPreimage
  executable : ContractExecutable
  constructorArgs : List ScVal

structure InvokeContractArgs where
  contractAddress : ScAddress
  functionName : Bytes
  args : List ScVal

inductive HostFunction
  | invokeContract (args : InvokeContractArgs)
  | createContract (args : CreateContractArgs)
  | uploadContractWasm (wasm : Bytes)
  | createContractV2 (args : CreateContractArgsV2)

inductive SorobanAuthorizedFunction
  | contractFn (args : InvokeContractArgs)
  | createContractHostFn (args : CreateContractArgs)
  | createContractV2HostFn (args : CreateContractArgsV2)

inductive SorobanAuthorizedInvocation
  | mk (function : SorobanAuthorizedFunction) (subInvocations : List SorobanAuthorizedInvocation)

structure SorobanAddressCredentials where
  address : ScAddress
  nonce : Int64
  signatureExpirationLedger : UInt32
  signature : ScVal

inductive SorobanCredentials
  | sourceAccount
  | address (credentials : SorobanAddressCredentials)
  | addressV2 (credentials : SorobanAddressCredentials)
  /-- The delegates' signatures stay in their XDR. -/
  | addressWithDelegates (credentials : SorobanAddressCredentials) (delegates : Bytes)

structure SorobanAuthorizationEntry where
  credentials : SorobanCredentials
  rootInvocation : SorobanAuthorizedInvocation

/-- What an operation does.  Only host function calls are looked into; any other
operation stays in its XDR. -/
inductive OperationBody
  | invokeHostFunction (hostFunction : HostFunction) (auth : List SorobanAuthorizationEntry)
  | other (xdr : Bytes)

structure Operation where
  sourceAccount : Option MuxedAccount
  body : OperationBody

structure Transaction where
  sourceAccount : MuxedAccount
  fee : UInt32
  seqNum : Int64
  cond : Preconditions
  memo : Memo
  operations : List Operation
  /-- The XDR of the Soroban data, if there is any. -/
  ext : Option Bytes

structure TransactionV0 where
  sourceAccountEd25519 : AccountId
  fee : UInt32
  seqNum : Int64
  timeBounds : Option TimeBounds
  memo : Memo
  operations : List Operation

structure DecoratedSignature where
  hint : Bytes
  signature : Bytes
  deriving DecidableEq

structure FeeBumpTransaction where
  feeSource : MuxedAccount
  fee : Int64
  innerTx : Transaction
  innerSignatures : List DecoratedSignature

inductive TransactionEnvelope
  | txV0 (tx : TransactionV0) (signatures : List DecoratedSignature)
  | tx (tx : Transaction) (signatures : List DecoratedSignature)
  | txFeeBump (tx : FeeBumpTransaction) (signatures : List DecoratedSignature)

/-- What a transaction's hash is taken of, together with the network. -/
inductive TaggedTransaction
  | tx (tx : Transaction)
  | txFeeBump (tx : FeeBumpTransaction)

/-! ## Transaction sets -/

structure TxsMaybeDiscountedFee where
  baseFee : Option Int64
  txs : List TransactionEnvelope

structure ParallelTxsComponent where
  baseFee : Option Int64
  /-- Stages of clusters. -/
  executionStages : List (List (List TransactionEnvelope))

/-- A phase of a generalized transaction set. -/
inductive TransactionPhase
  | v0 (components : List TxsMaybeDiscountedFee)
  | v1 (parallel : ParallelTxsComponent)

/-- The transactions of a close meta: its transaction set, in hash order, and the
hashes of the processed transactions, in apply order. -/
inductive LedgerTransactions
  | v0 (txSet : List TransactionEnvelope) (txProcessing : List Hash)
  | v1 (txSet : List TransactionPhase) (txProcessing : List Hash)
  | v2 (txSet : List TransactionPhase) (txProcessing : List Hash)

end SorobanExplorer
