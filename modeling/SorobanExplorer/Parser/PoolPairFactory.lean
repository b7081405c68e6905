import SorobanExplorer.Parser.PoolRouter

/-!
# The pair family of pools

A factory announces the pair it deployed with a `new_pair` event.  The pair is its own
share token, and its instance names the factory and both legs under numbered keys.
-/

namespace SorobanExplorer

structure NewPairEvent where
  pair : String
  token0 : String
  token1 : String
  /-- The factory's own count of its pairs. -/
  newPairsLength : ℕ
  deriving DecidableEq

structure PairRegistration where
  factory : String
  event : NewPairEvent
  deriving DecidableEq

inductive NewPairReject
  | notNewPair
  | malformed (reason : String)
  deriving DecidableEq

/-- A number that fits 32 bits, under the tag `u32`. -/
def u32Of (node : Json) : Option ℕ :=
  ((typed node "u32").bind Json.asU64).filter (· < 2 ^ 32)

def parseNewPair (topics data : Json) : Except NewPairReject NewPairEvent := do
  let topics ← okOr topics.asArray .notNewPair
  let label ← okOr topics.head? .notNewPair
  ensure (typedStr label "string" = some "SoroswapFactory") .notNewPair
  let name ← okOr topics[1]? .notNewPair
  ensure (symbolOf name = some "new_pair") .notNewPair
  let addressField (field : String) : Option String := (mapGet data field).bind addressOf
  let pair ← okOr (addressField "pair") (.malformed "pair missing or not an address")
  let token0 ← okOr (addressField "token_0") (.malformed "token_0 missing or not an address")
  let token1 ← okOr (addressField "token_1") (.malformed "token_1 missing or not an address")
  let newPairsLength ← okOr ((mapGet data "new_pairs_length").bind u32Of)
    (.malformed "new_pairs_length missing or not a u32")
  return ⟨pair, token0, token1, newPairsLength⟩

def detectPairRegistrations (events : List (String × List ExtractedEvent)) :
    List PairRegistration :=
  detectRegistrations parseNewPair (fun _ factory event => ⟨factory, event⟩) events

/-! ## The instance -/

structure FactoryPairState where
  pair : String
  token0 : String
  token1 : String
  /-- The factory, as the pair itself records it. -/
  factory : String
  reserves : Option (String × String)
  totalSupply : Option String
  deriving DecidableEq

/-- The value of the instance key `n`. -/
def u32Key (entries : List Json) (n : ℕ) : Option Json :=
  entries.findSome? fun entry => do
    let key ← entry.get? "key"
    if (typed key "u32").bind Json.asU64 = some n then entry.get? "value" else none

/-- The value of an instance key that is a symbol, or a `vec` of the one symbol. -/
def symKey (entries : List Json) (name : String) : Option Json :=
  entries.findSome? fun entry => do
    let key ← entry.get? "key"
    let wrapped := (typed key "vec").bind Json.asArray
    if symbolOf key = some name ∨
        wrapped.any (fun parts => parts.length = 1 ∧ parts.head?.bind symbolOf = some name) then
      entry.get? "value"
    else none

/-- Half a pair of reserves is a layout that is not read. -/
def bothOrNeither : (reserve0 reserve1 : Option String) → Option (Option (String × String))
  | some reserve0, some reserve1 => some (some (reserve0, reserve1))
  | none, none => some none
  | _, _ => none

def parseFactoryPair (pair : String) (storage : Json) : Option FactoryPairState := do
  let entries ← storage.asArray
  let token0 ← (u32Key entries 0).bind addressOf
  let token1 ← (u32Key entries 1).bind addressOf
  let factory ← (u32Key entries 4).bind addressOf
  let amount (n : ℕ) : Option String := (u32Key entries n).bind (typedStr · "i128")
  let reserves ← bothOrNeither (amount 2) (amount 3)
  return {
    pair
    token0
    token1
    factory
    reserves
    totalSupply := (symKey entries "TotalSupply").bind (typedStr · "i128") }

structure ExtractedFactoryPair where
  state : FactoryPairState
  ledgerSequence : UInt32
  created : Bool
  deriving DecidableEq

def extractFactoryPairs (changes : List ExtractedLedgerEntryChange) : List ExtractedFactoryPair :=
  changes.filterMap fun change => do
    guard (hasPostImage change)
    let (pair, storage) ← instanceStorage change
    let state ← parseFactoryPair pair storage
    return ⟨state, change.ledgerSequence, change.changeType = "created"⟩

/-! ## Where an extracted pair comes from -/

/-- What a pair's instance says of its legs and its factory. -/
structure PairEntries (entries : List Json) (state : FactoryPairState) : Prop where
  token0 : (u32Key entries 0).bind addressOf = some state.token0
  token1 : (u32Key entries 1).bind addressOf = some state.token1
  factory : (u32Key entries 4).bind addressOf = some state.factory

theorem parseFactoryPair_spec {pair : String} {storage : Json} {state : FactoryPairState}
    (h : parseFactoryPair pair storage = some state) :
    state.pair = pair ∧ ∃ entries, storage.asArray = some entries ∧ PairEntries entries state := by
  simp only [parseFactoryPair, Option.bind_eq_bind, Option.bind_eq_some_iff, Option.pure_def,
    Option.some.injEq] at h
  obtain ⟨entries, hentries, token0, h0, token1, h1, factory, h4, reserves, -, rfl⟩ := h
  have heq : ∀ {n : ℕ} {address : String},
      (∃ node, u32Key entries n = some node ∧ addressOf node = some address) →
        (u32Key entries n).bind addressOf = some address :=
    fun h => Option.bind_eq_some_iff.mpr h
  exact ⟨rfl, entries, hentries, heq h0, heq h1, heq h4⟩

theorem mem_extractFactoryPairs {changes : List ExtractedLedgerEntryChange}
    {image : ExtractedFactoryPair} (h : image ∈ extractFactoryPairs changes) :
    ∃ change ∈ changes, ∃ entries, InstanceWrite change image.state.pair entries ∧
      PairEntries entries image.state ∧
      image.created = decide (change.changeType = "created") := by
  obtain ⟨change, hchange, hread⟩ := List.mem_filterMap.mp h
  simp only [Option.bind_eq_bind, Option.bind_eq_some_iff, Option.guard_eq_some', Option.pure_def,
    Option.some.injEq, Prod.exists] at hread
  obtain ⟨-, hkind, owner, storage, hstorage, state, hparse, rfl⟩ := hread
  obtain ⟨hpair, entries, hentries, hstates⟩ := parseFactoryPair_spec hparse
  exact ⟨change, hchange, entries, ⟨hkind, storage, hpair ▸ hstorage, hentries⟩, hstates, rfl⟩

end SorobanExplorer
