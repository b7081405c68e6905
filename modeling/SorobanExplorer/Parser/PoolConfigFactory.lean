import SorobanExplorer.Lib.Ranked
import SorobanExplorer.Parser.PoolPairFactory
import Mathlib.Data.String.Basic

/-!
# The config family of pools

A factory announces a pool by its address alone.  The pool keeps what it is in entries
of its own, a `CONFIG` map and numbered amounts, and its instance holds nothing; it
does not record its factory.  The factory records the pool in a list in its own storage.
-/

namespace SorobanExplorer

open KeyedFold Ranked

/-! ## Announcements -/

structure ConfigPoolRegistration where
  factory : String
  pool : String
  ledgerSequence : UInt32
  deriving DecidableEq

inductive ConfigPoolReject
  | notRegistration
  | malformed (reason : String)
  deriving DecidableEq

def parsePoolCreated (topics data : Json) : Except ConfigPoolReject String := do
  let topics ← okOr topics.asArray .notRegistration
  let first ← okOr topics.head? .notRegistration
  ensure (typedStr first "string" = some "create") .notRegistration
  let second ← okOr topics[1]? .notRegistration
  ensure (typedStr second "string" = some "liquidity_pool") .notRegistration
  okOr (addressOf data) (.malformed "data is not an address")

def detectConfigPoolRegistrations (events : List (String × List ExtractedEvent)) :
    List ConfigPoolRegistration :=
  detectRegistrations parsePoolCreated
    (fun event factory pool => ⟨factory, pool, event.eventId.ledgerSequence⟩) events

/-! ## The pool's own entries -/

structure PoolConfig where
  tokenA : String
  tokenB : String
  shareToken : String
  poolType : ℕ
  totalFeeBps : ℤ
  deriving DecidableEq

def parsePoolConfig (val : Json) : Option PoolConfig := do
  let addressField (name : String) : Option String := (mapGet val name).bind addressOf
  return {
    tokenA := ← addressField "token_a"
    tokenB := ← addressField "token_b"
    shareToken := ← addressField "share_token"
    poolType := ← (mapGet val "pool_type").bind u32Of
    totalFeeBps := ← ((mapGet val "total_fee_bps").bind (typed · "i64")).bind Json.asI64 }

structure ConfigPoolState where
  pool : String
  config : Option PoolConfig
  reserves : Option (String × String)
  totalShares : Option String
  deriving DecidableEq

structure ExtractedConfigPool where
  state : ConfigPoolState
  ledgerSequence : UInt32
  /-- The transaction created the pool's instance. -/
  created : Bool
  deriving DecidableEq

/-- What one transaction wrote of one contract. -/
structure ConfigPoolAcc where
  config : Option PoolConfig
  reserveA : Option String
  reserveB : Option String
  totalShares : Option String
  instanceCreated : Bool
  ledgerSequence : UInt32

def ConfigPoolAcc.empty : ConfigPoolAcc := ⟨none, none, none, none, false, 0⟩

def ConfigPoolAcc.setAmount (acc : ConfigPoolAcc) (n : ℕ) (value : String)
    (ledgerSequence : UInt32) : ConfigPoolAcc :=
  match n with
  | 0 => { acc with totalShares := some value, ledgerSequence }
  | 1 => { acc with reserveA := some value, ledgerSequence }
  | 2 => { acc with reserveB := some value, ledgerSequence }
  | _ => acc

/-- What a change adds to its contract; `state` images and removals add nothing. -/
def configPoolUpdate (change : ExtractedLedgerEntryChange) :
    Option (Update String ConfigPoolAcc) := do
  guard (change.entryType = "contract_data")
  let owner ← changeOwner change
  let key ← change.key.get? "key"
  guard (hasPostImage change)
  let update (write : ConfigPoolAcc → ConfigPoolAcc) : Update String ConfigPoolAcc :=
    ⟨owner, fun held => write (held.getD .empty)⟩
  if isContractInstanceKey change.key then
    guard (change.changeType = "created")
    return update fun acc =>
      { acc with instanceCreated := true, ledgerSequence := change.ledgerSequence }
  let val ← changeVal change
  if symbolOf key = some "CONFIG" then
    let config ← parsePoolConfig val
    return update fun acc =>
      { acc with config := some config, ledgerSequence := change.ledgerSequence }
  let n ← (typed key "u32").bind Json.asU64
  let value ← typedStr val "i128"
  return update fun acc => acc.setAmount n value change.ledgerSequence

/-- Only a `CONFIG` or a whole pair of reserves makes an owner a pool. -/
def configPoolOf (pool : String) (acc : ConfigPoolAcc) : Option ExtractedConfigPool := do
  let reserves ← bothOrNeither acc.reserveA acc.reserveB
  guard (acc.config.isSome ∨ reserves.isSome)
  return ⟨⟨pool, acc.config, reserves, acc.totalShares⟩, acc.ledgerSequence, acc.instanceCreated⟩

/-- The pools among the contracts one transaction wrote, by address. -/
def extractConfigPools (changes : List ExtractedLedgerEntryChange) : List ExtractedConfigPool :=
  (sortBy Prod.fst (pairs (runAll (changes.filterMap configPoolUpdate) ∅))).filterMap
    fun held => configPoolOf held.1 held.2

/-! ## The factory's list -/

structure ExtractedAddressListWrite where
  owner : String
  members : List String
  ledgerSequence : UInt32
  deriving DecidableEq

/-- A `vec` of addresses only, and of at least one, under any key. -/
def addressListWrite (change : ExtractedLedgerEntryChange) : Option ExtractedAddressListWrite := do
  guard (change.entryType = "contract_data")
  guard (hasPostImage change)
  let owner ← changeOwner change
  let val ← changeVal change
  let elements ← (typed val "vec").bind Json.asArray
  guard (elements ≠ [])
  let members ← elements.mapM addressOf
  return ⟨owner, members, change.ledgerSequence⟩

def extractAddressListWrites (changes : List ExtractedLedgerEntryChange) :
    List ExtractedAddressListWrite :=
  changes.filterMap addressListWrite

/-! ## Where an extracted pool comes from -/

/-- A change that wrote a contract's `CONFIG`. -/
structure ConfigWrite (change : ExtractedLedgerEntryChange) (owner : String)
    (config : PoolConfig) : Prop where
  entry : change.entryType = "contract_data"
  isWrite : hasPostImage change
  owner : changeOwner change = some owner
  key : (change.key.get? "key").bind symbolOf = some "CONFIG"
  val : (changeVal change).bind parsePoolConfig = some config

/-- What the changes of a transaction must show for what was read of a contract. -/
structure ConfigEvidence (changes : List ExtractedLedgerEntryChange) (owner : String)
    (acc : ConfigPoolAcc) : Prop where
  config : ∀ config, acc.config = some config → ∃ change ∈ changes, ConfigWrite change owner config
  created : acc.instanceCreated → ∃ change ∈ changes, InstanceCreated change owner

theorem ConfigEvidence.empty (changes : List ExtractedLedgerEntryChange) (owner : String) :
    ConfigEvidence changes owner .empty :=
  ⟨nofun, nofun⟩

/-- One change keeps the evidence. -/
theorem ConfigEvidence.step {changes : List ExtractedLedgerEntryChange} {owner : String}
    {change : ExtractedLedgerEntryChange} (hchange : change ∈ changes)
    {update : Update String ConfigPoolAcc} (hupdate : configPoolUpdate change = some update)
    (hkey : update.key = owner) {held : Option ConfigPoolAcc}
    (hheld : ∀ acc ∈ held, ConfigEvidence changes owner acc) :
    ConfigEvidence changes owner (update.apply held) := by
  -- a writer not seen before has nothing to show
  have hacc : ConfigEvidence changes owner (held.getD .empty) := by
    cases held with
    | none => exact .empty changes owner
    | some acc => exact hheld acc rfl
  unfold configPoolUpdate at hupdate
  simp only [Option.bind_eq_bind, Option.bind_eq_some_iff, Option.guard_eq_some'] at hupdate
  obtain ⟨-, hentry, writer, hwriter, key, hentryKey, -, hkind, hupdate⟩ := hupdate
  split at hupdate
  · rename_i hinstance
    simp only [Option.bind_eq_some_iff, Option.guard_eq_some', Option.pure_def,
      Option.some.injEq] at hupdate
    obtain ⟨-, hcreated, rfl⟩ := hupdate
    subst hkey
    exact ⟨hacc.config, fun _ => ⟨change, hchange, hentry, hcreated, hinstance, hwriter⟩⟩
  · simp only [Option.bind_eq_some_iff] at hupdate
    obtain ⟨val, hval, hupdate⟩ := hupdate
    split at hupdate
    · rename_i hname
      simp only [Option.bind_eq_some_iff, Option.pure_def, Option.some.injEq] at hupdate
      obtain ⟨config, hconfig, rfl⟩ := hupdate
      subst hkey
      refine ⟨fun read hread => ⟨change, hchange, hentry, hkind, hwriter, ?_, ?_⟩, hacc.created⟩
      · rw [hentryKey, Option.bind_some, hname]
      · obtain rfl : config = read := Option.some.inj hread
        rw [hval, Option.bind_some, hconfig]
    · simp only [Option.bind_eq_some_iff, Option.pure_def, Option.some.injEq] at hupdate
      obtain ⟨n, -, value, -, rfl⟩ := hupdate
      subst hkey
      show ConfigEvidence changes writer ((held.getD .empty).setAmount n value _)
      unfold ConfigPoolAcc.setAmount
      split <;> exact ⟨hacc.config, hacc.created⟩

theorem mem_extractConfigPools {changes : List ExtractedLedgerEntryChange}
    {image : ExtractedConfigPool} (h : image ∈ extractConfigPools changes) :
    (∀ config, image.state.config = some config →
        ∃ change ∈ changes, ConfigWrite change image.state.pool config) ∧
      (image.created → ∃ change ∈ changes, InstanceCreated change image.state.pool) := by
  obtain ⟨⟨pool, acc⟩, hheld, hread⟩ := List.mem_filterMap.mp h
  have hlookup := mem_pairs.mp (mem_sortBy.mp hheld)
  rw [lookup_runAll] at hlookup
  have hevidence : ConfigEvidence changes pool acc := by
    refine history_induction (P := ConfigEvidence changes pool) ?_ _ (by simp) acc hlookup
    intro update hupdate hkey held hheld
    obtain ⟨change, hchange, hread⟩ := List.mem_filterMap.mp hupdate
    exact .step hchange hread hkey hheld
  simp only [configPoolOf, Option.bind_eq_bind, Option.bind_eq_some_iff, Option.guard_eq_some',
    Option.pure_def, Option.some.injEq] at hread
  obtain ⟨reserves, -, -, -, rfl⟩ := hread
  exact ⟨hevidence.config, hevidence.created⟩

end SorobanExplorer
