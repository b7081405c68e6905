import SorobanExplorer.Parser.PoolConfigFactory
import SorobanExplorer.Persist.ClassicPools

/-!
# Registry rows of contract pools

An announcement becomes a registry row only where the pool's own entries of the ledger
bear it out.  Each family has its gate: a router's pool names the router, or names none
and was created in the ledger; a pair was created, names the factory and has the legs
announced; a pool without a word on its factory was created with its `CONFIG`, and one
announcer alone lists it.
-/

namespace SorobanExplorer

open KeyedFold Persist Text

/-! ## The seam of the families -/

inductive PoolFamilyWrite
  | routerPlane (write : ExtractedPlanePoolData)
  | routerPool (write : ExtractedPoolInstance)
  | factoryPair (write : ExtractedFactoryPair)
  | configPool (write : ExtractedConfigPool)
  | addressList (write : ExtractedAddressListWrite)
  deriving DecidableEq

/-- What one transaction wrote, family by family. -/
def extractPoolFamilyWrites (changes : List ExtractedLedgerEntryChange) : List PoolFamilyWrite :=
  (extractPlanePoolData changes).map .routerPlane ++
    (extractPoolInstances changes).map .routerPool ++
    (extractFactoryPairs changes).map .factoryPair ++
    (extractConfigPools changes).map .configPool ++
    (extractAddressListWrites changes).map .addressList

def PoolFamilyWrite.poolInstance? : PoolFamilyWrite → Option ExtractedPoolInstance
  | .routerPool write => some write
  | _ => none

def PoolFamilyWrite.factoryPair? : PoolFamilyWrite → Option ExtractedFactoryPair
  | .factoryPair write => some write
  | _ => none

def PoolFamilyWrite.configPool? : PoolFamilyWrite → Option ExtractedConfigPool
  | .configPool write => some write
  | _ => none

def PoolFamilyWrite.addressList? : PoolFamilyWrite → Option ExtractedAddressListWrite
  | .addressList write => some write
  | _ => none

/-! ## Registry rows -/

section

variable [Crates]

/-- The asset of a token named by its contract: the wrapped asset of an asset
contract, else the token itself. -/
def contractTokenAssetId (token : String) (sacClassic : Table Int64 Int64) : Int64 :=
  (sacClassic.lookup (Ids.contractId token)).getD
    (Ids.assetId 3 "" 0 (Ids.contractId token))

def sorobanPoolRow (poolId : Hash) (feeBps : Int32) (ledgerSequence : ℤ) (legs : List Int64)
    (deploymentId : Int64) (poolTypeRaw : String) : LiquidityPoolRow :=
  { poolId := poolId.bytes
    assetAType := 0
    assetACode := ""
    assetAIssuerId := 0
    assetBType := 0
    assetBCode := ""
    assetBIssuerId := 0
    feeBps
    lastUpdatedLedger := ledgerSequence
    poolKind := .soroban
    legs
    deploymentId
    poolTypeRaw }

/-- `parse::<i32>`. -/
def parseI32 (text : String) : Option Int32 :=
  (parseInt (-2 ^ 31) (2 ^ 31 - 1) text.toList).toOption.map Int32.ofInt

/-- `i32::try_from`. -/
def i32TryFrom (value : ℤ) : Option Int32 :=
  if -2 ^ 31 ≤ value ∧ value < 2 ^ 31 then some (.ofInt value) else none

def factoryPairRegistryRow (reg : PairRegistration) (ledgerSequence : ℤ)
    (sacClassic : Table Int64 Int64) : Except String LiquidityPoolRow := do
  let poolId ← okOr (Ids.contractPayload reg.event.pair) "pair address is not a valid C… strkey"
  return sorobanPoolRow poolId 30 ledgerSequence
    [contractTokenAssetId reg.event.token0 sacClassic,
      contractTokenAssetId reg.event.token1 sacClassic]
    (Ids.contractId reg.factory) ""

def configPoolRegistryRow (reg : ConfigPoolRegistration) (config : PoolConfig)
    (ledgerSequence : ℤ) (sacClassic : Table Int64 Int64) : Except String LiquidityPoolRow := do
  let poolId ← okOr (Ids.contractPayload reg.pool) "pool address is not a valid C… strkey"
  let feeBps ← okOr (i32TryFrom config.totalFeeBps) "total_fee_bps out of i32 range"
  return sorobanPoolRow poolId feeBps ledgerSequence
    [contractTokenAssetId config.tokenA sacClassic, contractTokenAssetId config.tokenB sacClassic]
    (Ids.contractId reg.factory) (toString config.poolType)

def poolRegistryRow (reg : AddPoolEvent) (routerStrkey : String) (ledgerSequence : ℤ)
    (sacClassic : Table Int64 Int64) : Except String LiquidityPoolRow := do
  let poolId ← okOr (Ids.contractPayload reg.pool) "pool address is not a valid C… strkey"
  let feeBps ← okOr (reg.initArgs.head?.bind parseI32) "init_args[0] is not a parseable fee"
  return sorobanPoolRow poolId feeBps ledgerSequence
    (reg.tokens.map (contractTokenAssetId · sacClassic)) (Ids.contractId routerStrkey)
    reg.poolType

end

/-! ## What the pools declare -/

section

variable {α β : Type}

/-- The word each contract's writes come to, and whether one of them created it. -/
def declared (keyOf : α → String) (word : Option β → α → β) (created : α → Bool)
    (writes : List α) : Table String (β × Bool) :=
  runAll (writes.map fun write => ⟨keyOf write, fun held =>
    (word (held.map Prod.fst) write, (held.map Prod.snd).getD false || created write)⟩) ∅

end

/-- The last write's router. -/
def declaredRouter (poolInstances : List ExtractedPoolInstance) :
    Table String (Option String × Bool) :=
  declared (·.state.pool) (fun _ write => write.state.router) (·.created) poolInstances

/-- The last write's factory and legs. -/
def declaredFactory (factoryPairs : List ExtractedFactoryPair) :
    Table String ((String × String × String) × Bool) :=
  declared (·.state.pair)
    (fun _ write => (write.state.factory, write.state.token0, write.state.token1)) (·.created)
    factoryPairs

/-- The last `CONFIG` written. -/
def declaredConfig (configPools : List ExtractedConfigPool) :
    Table String (Option PoolConfig × Bool) :=
  declared (·.state.pool) (fun held write => write.state.config.or (held.getD none)) (·.created)
    configPools

/-! ## The gates -/

/-- What staging reads of a ledger for its contract pools. -/
structure PoolLedger where
  ledgerSequence : UInt32
  events : List (String × List ExtractedEvent)
  /-- The changes of its transactions, in order. -/
  changes : List (List ExtractedLedgerEntryChange)
  sacMap : Table Int64 Int64

namespace PoolLedger

variable (ledger : PoolLedger)

def writes : List PoolFamilyWrite :=
  ledger.changes.flatMap extractPoolFamilyWrites

def poolInstances : List ExtractedPoolInstance :=
  ledger.writes.filterMap (·.poolInstance?)

def factoryPairs : List ExtractedFactoryPair :=
  ledger.writes.filterMap (·.factoryPair?)

def configPools : List ExtractedConfigPool :=
  ledger.writes.filterMap (·.configPool?)

def addressLists : List ExtractedAddressListWrite :=
  ledger.writes.filterMap (·.addressList?)

/-- The pool names this router, or names none and was created in the ledger. -/
def admitsRouter (reg : PoolRegistration) : Bool :=
  match (declaredRouter ledger.poolInstances).lookup reg.event.pool with
  | some (some router, _) => router = reg.router
  | some (none, created) => created
  | none => false

/-- The pair was created, names this factory and has these legs. -/
def admitsPair (reg : PairRegistration) : Bool :=
  match (declaredFactory ledger.factoryPairs).lookup reg.event.pair with
  | some ((factory, token0, token1), created) =>
      created && factory = reg.factory && token0 = reg.event.token0 && token1 = reg.event.token1
  | none => false

/-- The announcer listed the pool in its own storage. -/
def lists (owner pool : String) : Bool :=
  ledger.addressLists.any fun write => write.owner = owner ∧ pool ∈ write.members

/-- The announcements whose announcer lists the pool. -/
def configRegs : List ConfigPoolRegistration :=
  (detectConfigPoolRegistrations ledger.events).filter fun reg => ledger.lists reg.factory reg.pool

/-- No other announcer lists the pool. -/
def uncontested (reg : ConfigPoolRegistration) : Bool :=
  ledger.configRegs.all fun other => other.pool = reg.pool → other.factory = reg.factory

/-- The configuration of a pool that was created in the ledger. -/
def createdConfig (pool : String) : Option PoolConfig :=
  match (declaredConfig ledger.configPools).lookup pool with
  | some (some config, true) => some config
  | _ => none

variable [Crates]

def routerRows : List LiquidityPoolRow :=
  ((detectPoolRegistrations ledger.events).filter ledger.admitsRouter).filterMap fun reg =>
    (poolRegistryRow reg.event reg.router ledger.ledgerSequence.toNat ledger.sacMap).toOption

def pairRows : List LiquidityPoolRow :=
  ((detectPairRegistrations ledger.events).filter ledger.admitsPair).filterMap fun reg =>
    (factoryPairRegistryRow reg ledger.ledgerSequence.toNat ledger.sacMap).toOption

/-- One row a pool, however often its announcer announced it. -/
def configRowsFrom (staged : List String) : List ConfigPoolRegistration → List LiquidityPoolRow
  | [] => []
  | reg :: rest =>
      if ¬ ledger.uncontested reg ∨ reg.pool ∈ staged then configRowsFrom staged rest
      else
        (do
          let config ← ledger.createdConfig reg.pool
          (configPoolRegistryRow reg config ledger.ledgerSequence.toNat
            ledger.sacMap).toOption).toList ++ configRowsFrom (reg.pool :: staged) rest

def configRows : List LiquidityPoolRow :=
  ledger.configRowsFrom [] ledger.configRegs

/-- The rows of contract pools that staging adds to a ledger's pool rows. -/
def registryRows : List LiquidityPoolRow :=
  ledger.routerRows ++ ledger.pairRows ++ ledger.configRows

end PoolLedger

/-- Whether any event of a ledger announces a pool, in any of the families. -/
def registersSorobanPools (events : List (String × List ExtractedEvent)) : Bool :=
  !(detectPoolRegistrations events).isEmpty || !(detectPairRegistrations events).isEmpty ||
    !(detectConfigPoolRegistrations events).isEmpty

end SorobanExplorer
