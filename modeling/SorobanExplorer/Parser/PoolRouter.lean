import SorobanExplorer.Lib.KeyedFold
import SorobanExplorer.Parser.Deployments
import SorobanExplorer.Parser.Event

/-!
# The router family of pools

A router announces each pool with an `add_pool` event; the pool's own instance says
which router and plane it belongs to and what it holds.  An event is recognised by its
shape alone, so anyone can emit one: what is read here is a claim, and the instance is
what it is held against later.
-/

namespace SorobanExplorer

open KeyedFold

section

variable {α β ε : Type}

/-- `ok_or`. -/
def okOr (value : Option α) (reason : ε) : Except ε α :=
  match value with
  | some value => .ok value
  | none => .error reason

/-- An early `Err` unless the condition holds. -/
def ensure (holds : Prop) [Decidable holds] (reason : ε) : Except ε Unit :=
  if holds then .ok () else .error reason

@[simp] theorem toOption_okOr (value : Option α) (reason : ε) :
    (okOr value reason).toOption = value := by
  cases value <;> rfl

@[simp] theorem toOption_okOr_bind (value : Option α) (reason : ε) (next : α → Except ε β) :
    (okOr value reason >>= next).toOption = value.bind fun a => (next a).toOption := by
  cases value <;> rfl

@[simp] theorem toOption_ensure_bind (holds : Prop) [Decidable holds] (reason : ε)
    (next : Unit → Except ε β) :
    (ensure holds reason >>= next).toOption = if holds then (next ()).toOption else none := by
  unfold ensure
  split <;> rfl

end

/-! ## A value as text -/

/-- One character of a JSON text. -/
def escapeJsonChar (c : Char) : List Char :=
  if c = '"' then ['\\', '"']
  else if c = '\\' then ['\\', '\\']
  else if c = '\n' then ['\\', 'n']
  else if c = '\r' then ['\\', 'r']
  else if c = '\t' then ['\\', 't']
  else if c.toNat = 8 then ['\\', 'b']
  else if c.toNat = 12 then ['\\', 'f']
  else if c.toNat < 32 then
    ['\\', 'u', '0', '0', Nat.digitChar (c.toNat / 16), Nat.digitChar (c.toNat % 16)]
  else [c]

def jsonString (text : String) : String :=
  "\"" ++ String.ofList (text.toList.flatMap escapeJsonChar) ++ "\""

mutual

/-- `Value::to_string`: no spaces, the fields of an object by name. -/
def Json.toText : Json → String
  | .null => "null"
  | .bool value => if value then "true" else "false"
  | .num value => toString value
  | .str value => jsonString value
  | .arr elements => "[" ++ ",".intercalate (Json.texts elements) ++ "]"
  | .obj fields =>
      let sorted := (Json.fieldTexts fields).mergeSort fun a b => !decide (b.1 < a.1)
      "\x7b" ++ ",".intercalate (sorted.map fun field => jsonString field.1 ++ ":" ++ field.2) ++
        "\x7d"

def Json.texts : List Json → List String
  | [] => []
  | value :: rest => value.toText :: Json.texts rest

def Json.fieldTexts : List (String × Json) → List (String × String)
  | [] => []
  | (key, value) :: rest => (key, value.toText) :: Json.fieldTexts rest

end

/-- Any scalar's value as text; empty without one. -/
def rawScalar (node : Json) : String :=
  match node.get? "value" with
  | some (.str text) => text
  | some other => other.toText
  | none => ""

/-! ## Announcements -/

structure AddPoolEvent where
  pool : String
  /-- As the router wrote it. -/
  poolType : String
  tokens : List String
  /-- As text, in emitted order. -/
  initArgs : List String
  deriving DecidableEq

/-- An announcement, and the contract that made it. -/
structure PoolRegistration where
  router : String
  event : AddPoolEvent
  deriving DecidableEq

inductive AddPoolReject
  | notAddPool
  /-- Claimed to be a registration and cannot be read. -/
  | malformed (reason : String)
  deriving DecidableEq

def parseAddPool (topics data : Json) : Except AddPoolReject AddPoolEvent := do
  let topics ← okOr topics.asArray .notAddPool
  let name ← okOr topics.head? .notAddPool
  ensure (symbolOf name = some "add_pool") .notAddPool
  let legs ← okOr (topics[1]?.bind vecElements)
    (.malformed "legs missing or not a vec of addresses")
  let tokens ← okOr (legs.mapM addressOf) (.malformed "legs missing or not a vec of addresses")
  ensure (tokens ≠ []) (.malformed "empty leg list")
  let fields ← okOr (vecElements data) (.malformed "data is not the expected tuple")
  let pool ← okOr (fields.head?.bind addressOf)
    (.malformed "pool address missing or not an address")
  let poolType ← okOr (fields[1]?.bind symbolOf) (.malformed "pool type missing or not a symbol")
  return {
    pool
    poolType
    tokens
    initArgs := ((fields[3]?.bind vecElements).map (·.map rawScalar)).getD [] }

/-- What the events of a ledger that name their contract are read as; the rejected
are dropped. -/
def detectRegistrations {ε α β : Type} (parse : Json → Json → Except ε α)
    (registration : ExtractedEvent → String → α → β)
    (events : List (String × List ExtractedEvent)) : List β :=
  events.flatMap fun transaction => transaction.2.filterMap fun event => do
    let emitter ← event.body.contractId
    let read ← (parse event.body.topics event.body.data).toOption
    return registration event emitter read

def detectPoolRegistrations (events : List (String × List ExtractedEvent)) :
    List PoolRegistration :=
  detectRegistrations parseAddPool (fun _ router event => ⟨router, event⟩) events

theorem parseAddPool_poolType {topics data : Json} {event : AddPoolEvent}
    (h : (parseAddPool topics data).toOption = some event) : event.poolType ≠ "" := by
  simp only [parseAddPool, toOption_okOr_bind, toOption_ensure_bind, Option.bind_eq_some_iff,
    Option.ite_none_right_eq_some] at h
  obtain ⟨_, -, _, -, -, _, -, tokens, -, -, fields, -, pool, -, poolType, hpoolType, hevent⟩ := h
  obtain rfl := Option.some.inj hevent
  obtain ⟨node, -, hsymbol⟩ := hpoolType
  simpa using (Option.filter_eq_some_iff.mp hsymbol).2

/-! ## The plane -/

/-- `vec` of `u128` as raw decimals. -/
def rawU128Vec (node : Json) : Option (List String) := do
  let elements ← (typed node "vec").bind Json.asArray
  elements.mapM (typedStr · "u128")

structure PlanePoolData where
  plane : String
  pool : String
  reserves : List String
  deriving DecidableEq

def parsePlanePoolData (owner : String) (key val : Json) : Option PlanePoolData := do
  let parts ← (typed key "vec").bind Json.asArray
  let name ← parts.head?
  guard (symbolOf name = some "PoolData")
  let pool ← (parts[1]?).bind addressOf
  let reserves ← (mapGet val "reserves").bind rawU128Vec
  return ⟨owner, pool, reserves⟩

structure ExtractedPlanePoolData where
  data : PlanePoolData
  ledgerSequence : UInt32
  deriving DecidableEq

/-- A change that leaves a value behind. -/
def hasPostImage (change : ExtractedLedgerEntryChange) : Bool :=
  change.changeType = "created" || change.changeType = "updated" ||
    change.changeType = "restored"

def changeVal (change : ExtractedLedgerEntryChange) : Option Json :=
  change.data.bind (·.get? "val")

def changeOwner (change : ExtractedLedgerEntryChange) : Option String :=
  (change.key.get? "contract").bind Json.asStr

def extractPlanePoolData (changes : List ExtractedLedgerEntryChange) :
    List ExtractedPlanePoolData :=
  changes.filterMap fun change => do
    guard (change.entryType = "contract_data")
    guard (hasPostImage change)
    let owner ← changeOwner change
    let key ← change.key.get? "key"
    let val ← changeVal change
    let data ← parsePlanePoolData owner key val
    return ⟨data, change.ledgerSequence⟩

/-! ## The instance -/

structure PoolInstanceState where
  pool : String
  tokenShare : Option String
  totalShares : Option String
  plane : Option String
  /-- The router, as the pool itself records it; older contracts record none. -/
  router : Option String
  reserves : List String
  deriving DecidableEq

/-- The value of an instance key: a `vec` of the one symbol `name`. -/
def instanceGet (entries : List Json) (name : String) : Option Json :=
  entries.findSome? fun entry => do
    let key ← entry.get? "key"
    let parts ← (typed key "vec").bind Json.asArray
    if parts.length = 1 ∧ (parts.head?.bind (typedStr · "sym")) = some name then
      entry.get? "value"
    else none

/-- An instance with a `Plane` key is a pool of this family. -/
def parsePoolInstance (pool : String) (storage : Json) : Option PoolInstanceState := do
  let entries ← storage.asArray
  let plane ← instanceGet entries "Plane"
  let amount (name : String) : Option String :=
    (instanceGet entries name).bind (typedStr · "u128")
  let pair (a b : String) : Option (List String) := do return [← amount a, ← amount b]
  return {
    pool
    tokenShare := (instanceGet entries "TokenShare").bind addressOf
    totalShares := amount "TotalShares"
    plane := addressOf plane
    router := (instanceGet entries "Router").bind addressOf
    reserves := (((pair "ReserveA" "ReserveB").or
      ((instanceGet entries "Reserves").bind rawU128Vec)).or
        (pair "Reserve0" "Reserve1")).getD [] }

structure ExtractedPoolInstance where
  state : PoolInstanceState
  ledgerSequence : UInt32
  /-- The entry was created, not updated or restored. -/
  created : Bool
  /-- The reserves differ from the image before, or there is none. -/
  reservesChanged : Bool
  deriving DecidableEq

/-- The contract whose instance a change is of, and the storage in its value. -/
def instanceStorage (change : ExtractedLedgerEntryChange) : Option (String × Json) := do
  guard (change.entryType = "contract_data")
  guard (isContractInstanceKey change.key)
  let owner ← changeOwner change
  let val ← changeVal change
  let storage ← (typed val "contract_instance").bind (·.get? "storage")
  return (owner, storage)

def poolInstanceImage (change : ExtractedLedgerEntryChange) : Option PoolInstanceState := do
  guard (hasPostImage change ∨ change.changeType = "state")
  let (pool, storage) ← instanceStorage change
  parsePoolInstance pool storage

/-- With the reserves of the `state` images not yet followed by their change. -/
def extractPoolInstancesFrom :
    Table String (List String) → List ExtractedLedgerEntryChange → List ExtractedPoolInstance
  | _, [] => []
  | preImage, change :: rest =>
      match poolInstanceImage change with
      | none => extractPoolInstancesFrom preImage rest
      | some state =>
          if change.changeType = "state" then
            extractPoolInstancesFrom (preImage.insert state.pool state.reserves) rest
          else
            { state
              ledgerSequence := change.ledgerSequence
              created := change.changeType = "created"
              reservesChanged := (preImage.lookup state.pool) ≠ some state.reserves } ::
              extractPoolInstancesFrom (preImage.erase state.pool) rest

def extractPoolInstances (changes : List ExtractedLedgerEntryChange) :
    List ExtractedPoolInstance :=
  extractPoolInstancesFrom ∅ changes

/-! ## Where an extracted instance comes from -/

theorem parsePoolInstance_pool {pool : String} {storage : Json} {state : PoolInstanceState}
    (h : parsePoolInstance pool storage = some state) : state.pool = pool := by
  simp only [parsePoolInstance, Option.bind_eq_bind, Option.bind_eq_some_iff, Option.pure_def,
    Option.some.injEq] at h
  obtain ⟨entries, -, plane, -, rfl⟩ := h
  rfl

theorem parsePoolInstance_router {pool : String} {storage : Json} {state : PoolInstanceState}
    (h : parsePoolInstance pool storage = some state) :
    ∃ entries, storage.asArray = some entries ∧
      state.router = (instanceGet entries "Router").bind addressOf := by
  simp only [parsePoolInstance, Option.bind_eq_bind, Option.bind_eq_some_iff, Option.pure_def,
    Option.some.injEq] at h
  obtain ⟨entries, hentries, plane, -, rfl⟩ := h
  exact ⟨entries, hentries, rfl⟩

/-- A change that wrote the storage of a contract's instance. -/
structure InstanceWrite (change : ExtractedLedgerEntryChange) (owner : String)
    (entries : List Json) : Prop where
  isWrite : hasPostImage change
  storage : ∃ storage, instanceStorage change = some (owner, storage) ∧
    storage.asArray = some entries

/-- A change that created a contract's instance. -/
structure InstanceCreated (change : ExtractedLedgerEntryChange) (owner : String) : Prop where
  entry : change.entryType = "contract_data"
  kind : change.changeType = "created"
  key : isContractInstanceKey change.key
  owner : changeOwner change = some owner

theorem InstanceWrite.created {change : ExtractedLedgerEntryChange} {owner : String}
    {entries : List Json} (h : InstanceWrite change owner entries)
    (hcreated : change.changeType = "created") : InstanceCreated change owner := by
  obtain ⟨storage, hstorage, -⟩ := h.storage
  simp only [instanceStorage, Option.bind_eq_bind, Option.bind_eq_some_iff, Option.guard_eq_some',
    Option.pure_def, Option.some.injEq, Prod.mk.injEq] at hstorage
  obtain ⟨-, hentry, -, hkey, _, howner, -, -, -, -, rfl, -⟩ := hstorage
  exact ⟨hentry, hcreated, hkey, howner⟩

theorem mem_extractPoolInstancesFrom {preImage : Table String (List String)}
    {changes : List ExtractedLedgerEntryChange} {image : ExtractedPoolInstance}
    (h : image ∈ extractPoolInstancesFrom preImage changes) :
    ∃ change ∈ changes, ∃ entries, InstanceWrite change image.state.pool entries ∧
      image.state.router = (instanceGet entries "Router").bind addressOf ∧
      image.created = decide (change.changeType = "created") := by
  induction changes generalizing preImage with
  | nil => exact absurd h List.not_mem_nil
  | cons change rest ih =>
      -- the image before plays no part in what is kept
      have later : ∀ preImage, image ∈ extractPoolInstancesFrom preImage rest → _ :=
        fun preImage hrest => (ih hrest).imp fun _ hwrite => hwrite.imp_left
          (List.mem_cons_of_mem change)
      unfold extractPoolInstancesFrom at h
      cases himage : poolInstanceImage change with
      | none =>
          rw [himage] at h
          exact later preImage h
      | some state =>
          simp only [himage] at h
          by_cases hstate : change.changeType = "state"
          · rw [if_pos hstate] at h
            exact later _ h
          · rw [if_neg hstate] at h
            rcases List.mem_cons.mp h with rfl | h
            · simp only [poolInstanceImage, Option.bind_eq_bind, Option.bind_eq_some_iff,
                Option.guard_eq_some', Prod.exists] at himage
              obtain ⟨-, hkind, owner, storage, hstorage, hparse⟩ := himage
              have hpool := parsePoolInstance_pool hparse
              obtain ⟨entries, hentries, hrouter⟩ := parsePoolInstance_router hparse
              exact ⟨change, List.mem_cons_self, entries,
                ⟨hkind.resolve_right hstate, storage, hpool ▸ hstorage, hentries⟩, hrouter, rfl⟩
            · exact later _ h

end SorobanExplorer
