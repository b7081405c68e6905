import SorobanExplorer.Indexer.TransferRows
import SorobanExplorer.Parser.Nft
import SorobanExplorer.Parser.PoolRouter
import SorobanExplorer.Persist.NftRows
import SorobanExplorer.Persist.OperationsSpec

/-!
# Who owns a token after a ledger

The NFT events of a ledger become token rows and ownership changes, in two separate folds.
Both read an event alike (`detectNft_eq`), both are routed by the event's contract, and the
row a token ends with has the owner of the last change (`nftOwnership_ofLedger`).

* `filter_foldl_stageNft`: the rows of one token are one row, folded from its own;
* `currentOwnerId_foldl_absorb`: in one ledger the last one's owner stays;
* `consecutiveMint_spec`: a range stands for each of its ids once.
-/

namespace SorobanExplorer

open Text

/-! ## The two folds -/

/-- The id of a token as text; empty when there is none. -/
def tokenIdToString (tokenId : Json) : String :=
  match tokenId.get? "value" with
  | none | some .null => ""
  | some (.str text) => text
  | some (.num n) => toString n
  | some value => value.toText

def NftEventKind.eventType : NftEventKind → NftEventType
  | .mint => .mint
  | .transfer => .transfer
  | .burn => .burn

def detectNft (event : NftEvent) : Option ExtractedNft :=
  let tokenId := tokenIdToString event.tokenId
  if tokenId = "" then none
  else
    let (owner, mintedAtLedger) : Option String × Option UInt32 :=
      match event.eventKind with
      | .mint => (event.recipient, some event.eventId.ledgerSequence)
      | .transfer => (event.recipient, none)
      | .burn => (none, none)
    some
      { contractId := event.contractId
        tokenId
        collectionName := none
        owner
        name := none
        mediaUrl := none
        mintedAtLedger
        lastSeenLedger := event.eventId.ledgerSequence }

def detectNfts (nftEvents : List NftEvent) : List ExtractedNft :=
  nftEvents.filterMap detectNft

def extractNftOwnershipEvent (event : NftEvent) : Option ExtractedNftEvent :=
  let tokenId := tokenIdToString event.tokenId
  if tokenId = "" then none
  else
    let eventType := event.eventKind.eventType
    let owner : Option String :=
      match eventType with
      | .mint | .transfer => event.recipient
      | .burn => none
    some
      { transactionHash := event.transactionHash
        contractId := event.contractId
        tokenId
        eventType
        owner
        eventId := event.eventId }

def extractNftOwnershipEvents (events : List NftEvent) : List ExtractedNftEvent :=
  events.filterMap extractNftOwnershipEvent

/-! ## The range of a consecutive mint -/

/-- An inclusive range while it is walked. -/
structure RangeInclusive where
  start : UInt64
  stop : UInt64
  exhausted : Bool

namespace RangeInclusive

/-- The last value sets a flag, so that the largest number needs no successor. -/
def next (range : RangeInclusive) : Option (UInt64 × RangeInclusive) :=
  if range.exhausted ∨ range.stop < range.start then none
  else if range.start < range.stop then
    some (range.start, { range with start := range.start + 1 })
  else some (range.start, { range with exhausted := true })

/-- How many values are left. -/
def left (range : RangeInclusive) : ℕ :=
  if range.exhausted then 0 else range.stop.toNat + 1 - range.start.toNat

theorem toNat_succ_of_lt {a b : UInt64} (h : a < b) : (a + 1).toNat = a.toNat + 1 := by
  have hlt := UInt64.lt_iff_toNat_lt.mp h
  have hb := b.toNat_lt
  rw [UInt64.toNat_add]
  exact Nat.mod_eq_of_lt (by simp; omega)

/-- One step yields the first value and leaves one fewer. -/
theorem next_eq_some {range rest : RangeInclusive} {id : UInt64}
    (h : range.next = some (id, rest)) : id = range.start ∧ range.left = rest.left + 1 ∧
      (rest.left ≠ 0 → rest.start.toNat = range.start.toNat + 1) := by
  unfold next at h
  split_ifs at h with hdone hmore
  · obtain ⟨rfl, rfl⟩ := Prod.mk.inj (Option.some.inj h)
    have hlt := UInt64.lt_iff_toNat_lt.mp hmore
    have hsucc := toNat_succ_of_lt hmore
    have hrunning : range.exhausted = false := by simpa using fun he => hdone (Or.inl he)
    refine ⟨rfl, ?_, fun _ => hsucc⟩
    simp only [left, hrunning, hsucc]
    simp only [Bool.false_eq_true, if_false]
    omega
  · obtain ⟨rfl, rfl⟩ := Prod.mk.inj (Option.some.inj h)
    have hge : ¬ range.stop.toNat < range.start.toNat :=
      fun hlt => hdone (Or.inr (UInt64.lt_iff_toNat_lt.mpr hlt))
    have hle : ¬ range.start.toNat < range.stop.toNat :=
      fun hlt => hmore (UInt64.lt_iff_toNat_lt.mpr hlt)
    have hrunning : range.exhausted = false := by simpa using fun he => hdone (Or.inl he)
    refine ⟨rfl, ?_, fun hleft => absurd rfl hleft⟩
    simp only [left, hrunning]
    simp only [Bool.false_eq_true, if_false, if_true]
    omega

/-- The values of a range, in order. -/
def toList (range : RangeInclusive) : List UInt64 :=
  match _h : range.next with
  | none => []
  | some (id, rest) => id :: rest.toList
termination_by range.left
decreasing_by
  have hleft := (next_eq_some _h).2.1
  omega

theorem next_eq_none_iff {range : RangeInclusive} : range.next = none ↔ range.left = 0 := by
  unfold next left
  by_cases hdone : range.exhausted = true
  · simp [hdone]
  · by_cases hpast : range.stop < range.start
    · have hlt := UInt64.lt_iff_toNat_lt.mp hpast
      simp only [hpast, or_true, if_true, hdone]
      simp only [Bool.false_eq_true, if_false, true_iff]
      omega
    · have hle : ¬ range.stop.toNat < range.start.toNat :=
        fun hlt => hpast (UInt64.lt_iff_toNat_lt.mpr hlt)
      simp only [hpast, or_false, hdone]
      simp only [Bool.false_eq_true, if_false]
      constructor
      · intro hnone
        split_ifs at hnone
      · intro hleft
        omega

/-- A range is walked to its end, whatever its end is. -/
theorem toList_eq (range : RangeInclusive) :
    range.toList.map UInt64.toNat = List.range' range.start.toNat range.left := by
  induction hleft : range.left generalizing range with
  | zero =>
      rw [toList]
      split
      · rfl
      · rename_i id rest hnext
        rw [next_eq_none_iff.mpr hleft] at hnext
        cases hnext
  | succ n ih =>
      rw [toList]
      split
      · rename_i hnext
        rw [next_eq_none_iff.mp hnext] at hleft
        cases hleft
      · rename_i id rest hnext
        obtain ⟨rfl, hcount, hstart⟩ := next_eq_some hnext
        have hrest : rest.left = n := by omega
        rw [List.map_cons, ih rest hrest, List.range'_succ]
        rcases Nat.eq_zero_or_pos n with rfl | hpos
        · rfl
        · rw [hstart (by omega)]

end RangeInclusive

/-- The bounds of a consecutive mint, as the parser reads them from its data. -/
def consecutiveRange (data : Json) : Option (ℕ × ℕ) := do
  let (low, high) ← consecutiveBounds data
  return (← rangeBound low, ← rangeBound high)

theorem rangeBound_lt {value : Json} {n : ℕ} (h : rangeBound value = some n) : n < 2 ^ 64 := by
  simp only [rangeBound, Option.bind_eq_bind, Option.bind_eq_some_iff] at h
  obtain ⟨_, -, h⟩ := h
  split_ifs at h
  obtain ⟨value, -, hvalue⟩ := Option.bind_eq_some_iff.mp h
  cases value with
  | num m =>
      change (if 0 ≤ m ∧ m < 2 ^ 64 then some m.toNat else none) = some n at hvalue
      split_ifs at hvalue with hfits
      obtain rfl := Option.some.inj hvalue
      omega
  | _ => cases hvalue

/-- The ids a consecutive mint stands for. -/
def mintedIds (low high : ℕ) : List ℕ :=
  (RangeInclusive.mk (.ofNat low) (.ofNat high) false).toList.map UInt64.toNat

theorem mintedIds_eq {low high : ℕ} (hlow : low < 2 ^ 64) (hhigh : high < 2 ^ 64) :
    mintedIds low high = List.range' low (high + 1 - low) := by
  unfold mintedIds
  rw [RangeInclusive.toList_eq, RangeInclusive.left, if_neg Bool.false_ne_true,
    UInt64.toNat_ofNat_of_lt' hlow, UInt64.toNat_ofNat_of_lt' hhigh]

/-- An unsigned number as an event carries it. -/
def IsUnsigned (value : Json) (n : ℕ) : Prop :=
  ∃ typeName ∈ ["u32", "u64"], value = typedJson typeName (.num n) ∧ n < 2 ^ 64

/-- The range of a consecutive mint: the first two elements of a vector, or the two named
entries of a map. -/
inductive MintsRange : Json → ℕ → ℕ → Prop
  | vec {lowValue highValue : Json} {rest : List Json} {low high : ℕ}
      (hlow : IsUnsigned lowValue low) (hhigh : IsUnsigned highValue high) :
      MintsRange (typedJson "vec" (.arr (lowValue :: highValue :: rest))) low high
  | map {data lowValue highValue : Json} {low high : ℕ}
      (hfrom : mapGet data "from_token_id" = some lowValue)
      (hto : mapGet data "to_token_id" = some highValue)
      (hlow : IsUnsigned lowValue low) (hhigh : IsUnsigned highValue high) :
      MintsRange data low high

theorem rangeBound_of_isUnsigned {value : Json} {n : ℕ} (h : IsUnsigned value n) :
    rangeBound value = some n := by
  obtain ⟨typeName, htype, rfl, hn⟩ := h
  have htypes : typeName = "u32" ∨ typeName = "u64" := by
    simpa using htype
  have hread : Json.asU64 (.num n) = some n := by
    rw [Json.asU64, if_pos ⟨by omega, by omega⟩, Int.toNat_natCast]
  simp only [rangeBound, Option.bind_eq_bind, Option.bind_eq_some_iff]
  refine ⟨typeName, ⟨.str typeName, rfl, rfl⟩, ?_⟩
  rw [if_pos htypes]
  exact Option.bind_eq_some_iff.mpr ⟨.num n, rfl, hread⟩

theorem consecutiveRange_of_mintsRange {data : Json} {low high : ℕ} (h : MintsRange data low high) :
    consecutiveRange data = some (low, high) := by
  cases h with
  | @vec lowValue highValue rest _ _ hlow hhigh =>
      have hbounds : consecutiveBounds (typedJson "vec" (.arr (lowValue :: highValue :: rest))) =
          some (lowValue, highValue) := rfl
      simp only [consecutiveRange, hbounds, rangeBound_of_isUnsigned hlow,
        rangeBound_of_isUnsigned hhigh, Option.bind_eq_bind, Option.bind_some, Option.pure_def]
  | @map _ lowValue highValue _ _ hfrom hto hlow hhigh =>
      -- a map is no vector
      have hnotVec : dataVecElements data = none := by
        have htype : (data.get? "type").bind Json.asStr = some "map" := by
          by_contra hother
          rw [mapGet, if_pos hother] at hfrom
          cases hfrom
        rw [dataVecElements, htype]
        rfl
      have hbounds : consecutiveBounds data = some (lowValue, highValue) := by
        rw [consecutiveBounds, hnotVec, hfrom, hto]
        rfl
      simp only [consecutiveRange, hbounds, rangeBound_of_isUnsigned hlow,
        rangeBound_of_isUnsigned hhigh, Option.bind_eq_bind, Option.bind_some, Option.pure_def]

/-- **A consecutive mint** stands for the ids of its range, each once and in order; one that
is inverted or has more than 65,535 ids stands for none.  Walking the range ends. -/
theorem consecutiveMint_spec {contractId recipient : String} {remaining : List Json} {data : Json}
    {event : ExtractedEvent} {low high : ℕ}
    (hrecipient : remaining.head?.bind topicAddressValue = some recipient)
    (hmints : MintsRange data low high) :
    (high < low ∨ 65535 ≤ high - low →
      tryParseConsecutiveMint contractId remaining data event = none) ∧
    (low ≤ high → high - low < 65535 →
      tryParseConsecutiveMint contractId remaining data event =
          some ((mintedIds low high).map fun id : ℕ =>
            ⟨event.transactionHash, contractId, .mint, typedJson "u64" (.num id), none,
              some recipient, event.createdAt, event.eventId⟩) ∧
        (∀ id, (mintedIds low high).count id = if low ≤ id ∧ id ≤ high then 1 else 0) ∧
        (mintedIds low high).length ≤ 65535) := by
  have hrange := consecutiveRange_of_mintsRange hmints
  simp only [consecutiveRange, Option.bind_eq_bind, Option.bind_eq_some_iff, Option.pure_def,
    Option.some.injEq, Prod.mk.injEq, Prod.exists] at hrange
  obtain ⟨lowJson, highJson, hbounds, low, hlow, high, hhigh, rfl, rfl⟩ := hrange
  -- the parser has read the two bounds; only the check of the range is left
  have hparse : tryParseConsecutiveMint contractId remaining data event =
      if high < low ∨ 65535 ≤ high - low then none
      else some ((List.range' low (high - low + 1)).map fun id : ℕ =>
        nftEvent contractId event .mint (typedJson "u64" (.num id)) none (some recipient)) := by
    simp only [tryParseConsecutiveMint, hrecipient, hbounds, hlow, hhigh, Option.bind_eq_bind,
      Option.bind_some, maxConsecutiveRange]
    rw [List.bind_eq_flatMap, List.map_flatMap, List.map_eq_flatMap]
    rfl
  refine ⟨fun hbad => by rw [hparse, if_pos hbad], fun hle hfew => ?_⟩
  -- below 2 ^ 32 no id of the range wraps
  have hids := mintedIds_eq (rangeBound_lt hlow) (rangeBound_lt hhigh)
  have hcount : high + 1 - low = high - low + 1 := by omega
  rw [hids, hcount]
  refine ⟨by rw [hparse, if_neg (by omega)]; rfl, fun id => ?_, by simp; omega⟩
  have hmem : id ∈ List.range' low (high - low + 1) ↔ low ≤ id ∧ id ≤ high := by
    rw [List.mem_range'_1]
    omega
  simp only [(List.nodup_range' 1).count, hmem]

/-! ## One token -/

/-- The token a row is about. -/
def NftRow.token (row : NftRow) : Int64 × String := (row.contractId, row.tokenId)

def NftOwnershipChangeRow.token (row : NftOwnershipChangeRow) : Int64 × String :=
  (row.contractId, row.tokenId)

@[simp] theorem NftRow.token_absorb (existing later : NftRow) :
    (existing.absorb later).token = existing.token := rfl

/-- What a token holds once one more of its rows is staged. -/
def absorbInto : List NftRow → NftRow → List NftRow
  | [], row => [row]
  | existing :: rest, row => existing.absorb row :: rest

theorem filter_stageNft (rows : List NftRow) (row : NftRow) (token : Int64 × String) :
    (stageNft rows row).filter (·.token = token) =
      if row.token = token then absorbInto (rows.filter (·.token = token)) row
      else rows.filter (·.token = token) := by
  induction rows with
  | nil =>
      by_cases h : row.token = token
      · simp [stageNft, absorbInto, h]
      · simp [stageNft, h]
  | cons existing rest ih =>
      unfold stageNft
      by_cases hsame : (existing.contractId, existing.tokenId) = (row.contractId, row.tokenId)
      · have htoken : existing.token = row.token := hsame
        rw [if_pos hsame]
        by_cases h : row.token = token
        · simp [absorbInto, htoken, h]
        · simp [htoken, h]
      · have htoken : existing.token ≠ row.token := hsame
        rw [if_neg hsame, List.filter_cons, List.filter_cons, ih]
        by_cases h : row.token = token
        · have hother : existing.token ≠ token := h ▸ htoken
          simp [h, hother]
        · simp [h]

/-- The rows of one token are folded from its own. -/
theorem filter_foldl_stageNft (rows staged : List NftRow) (token : Int64 × String) :
    (rows.foldl stageNft staged).filter (·.token = token) =
      (rows.filter (·.token = token)).foldl absorbInto (staged.filter (·.token = token)) := by
  induction rows generalizing staged with
  | nil => rfl
  | cons row rows ih =>
      rw [List.foldl_cons, ih, filter_stageNft]
      by_cases h : row.token = token
      · rw [if_pos h, List.filter_cons_of_pos (by simpa using h), List.foldl_cons]
      · rw [if_neg h, List.filter_cons_of_neg (by simpa using h)]

theorem foldl_absorbInto (first : NftRow) (later : List NftRow) :
    later.foldl absorbInto [first] = [later.foldl NftRow.absorb first] := by
  induction later generalizing first with
  | nil => rfl
  | cons row later ih => exact ih _

/-- Of the rows of one ledger the last one's owner stays. -/
theorem currentOwnerId_foldl_absorb {ledger : ℤ} {first : NftRow} {later : List NftRow}
    (hledger : ∀ row ∈ first :: later, row.currentOwnerLedger = ledger) :
    (later.foldl NftRow.absorb first).currentOwnerId =
      ((first :: later).getLast (List.cons_ne_nil _ _)).currentOwnerId := by
  induction later generalizing first with
  | nil => rfl
  | cons row later ih =>
      have hfirst := hledger first (by simp)
      have hrow := hledger row (by simp)
      -- watermarks are equal, so the later row replaces the owner
      have howner : (first.absorb row).currentOwnerId = row.currentOwnerId := by
        simp [NftRow.absorb, hfirst, hrow]
      have hmark : (first.absorb row).currentOwnerLedger = ledger := by
        simp [NftRow.absorb, hfirst, hrow]
      have hrest : ∀ other ∈ first.absorb row :: later, other.currentOwnerLedger = ledger := by
        intro other hother
        rcases List.mem_cons.mp hother with rfl | hother
        · exact hmark
        · exact hledger other (by simp [hother])
      rw [List.foldl_cons, ih hrest]
      cases later with
      | nil => exact howner
      | cons next later => rfl

/-- The owner a token's rows end with, if it has any. -/
theorem map_currentOwnerId_foldl_stageNft {ledger : ℤ} {rows : List NftRow}
    (hledger : ∀ row ∈ rows, row.currentOwnerLedger = ledger) (token : Int64 × String) :
    ((rows.foldl stageNft []).filter (·.token = token)).map (·.currentOwnerId) =
      (((rows.filter (·.token = token)).map (·.currentOwnerId)).getLast?).toList := by
  rw [filter_foldl_stageNft, List.filter_nil]
  cases hown : rows.filter (·.token = token) with
  | nil => rfl
  | cons first later =>
      have hmarks : ∀ row ∈ first :: later, row.currentOwnerLedger = ledger := by
        intro row hrow
        rw [← hown] at hrow
        exact hledger row (List.mem_filter.mp hrow).1
      rw [List.foldl_cons, absorbInto, foldl_absorbInto, List.map_singleton,
        currentOwnerId_foldl_absorb hmarks, List.getLast?_map,
        List.getLast?_eq_getLast_of_ne_nil (List.cons_ne_nil _ _)]
      rfl

/-! ## One event -/

/-- Who has a token after an event: whoever received it, and nobody after a burn. -/
def NftEvent.ownerAfter (event : NftEvent) : Option String :=
  if event.eventKind = .burn then none else event.recipient

theorem detectNft_of_token {event : NftEvent} (h : tokenIdToString event.tokenId ≠ "") :
    detectNft event = some ⟨event.contractId, tokenIdToString event.tokenId, none,
      event.ownerAfter, none, none,
      if event.eventKind = .mint then some event.eventId.ledgerSequence else none,
      event.eventId.ledgerSequence⟩ := by
  unfold detectNft NftEvent.ownerAfter
  dsimp only
  rw [if_neg h]
  cases event.eventKind <;> rfl

theorem extractNftOwnershipEvent_of_token {event : NftEvent}
    (h : tokenIdToString event.tokenId ≠ "") :
    extractNftOwnershipEvent event = some ⟨event.transactionHash, event.contractId,
      tokenIdToString event.tokenId, event.eventKind.eventType, event.ownerAfter,
      event.eventId⟩ := by
  unfold extractNftOwnershipEvent NftEvent.ownerAfter
  dsimp only
  rw [if_neg h]
  cases event.eventKind <;> rfl

/-- **Both folds read an event alike**: they leave out the same events, and of the others
they keep the same token, owner and ledger. -/
theorem detectNft_eq (event : NftEvent) :
    (detectNft event).map (fun nft =>
        (nft.contractId, nft.tokenId, nft.owner, nft.lastSeenLedger)) =
      (extractNftOwnershipEvent event).map fun change =>
        (change.contractId, change.tokenId, change.owner, change.eventId.ledgerSequence) := by
  by_cases h : tokenIdToString event.tokenId = ""
  · rw [detectNft, extractNftOwnershipEvent, if_pos h, if_pos h]
    rfl
  · rw [detectNft_of_token h, extractNftOwnershipEvent_of_token h]
    rfl

/-- The owner both folds read of an event. -/
theorem owner_of_event {event : NftEvent} {nft : ExtractedNft} {change : ExtractedNftEvent}
    (hnft : detectNft event = some nft) (hchange : extractNftOwnershipEvent event = some change) :
    (event.eventKind = .mint → nft.owner = event.recipient ∧ change.owner = event.recipient) ∧
    (event.eventKind = .transfer → nft.owner = event.recipient ∧ change.owner = event.recipient) ∧
    (event.eventKind = .burn → nft.owner = none ∧ change.owner = none) := by
  have htoken : tokenIdToString event.tokenId ≠ "" := by
    intro h
    rw [detectNft, if_pos h] at hnft
    cases hnft
  rw [detectNft_of_token htoken] at hnft
  rw [extractNftOwnershipEvent_of_token htoken] at hchange
  obtain rfl := Option.some.inj hnft
  obtain rfl := Option.some.inj hchange
  refine ⟨fun hkind => ?_, fun hkind => ?_, fun hkind => ?_⟩ <;>
    simp [NftEvent.ownerAfter, hkind]

/-! ## The ends of an event -/

/-- An address as an event carries it. -/
def addressOperand (address : String) : Json :=
  typedJson "address" (.str address)

/-- Addresses and a token id in one of the three layouts: the addresses in the topics and the
id as the data, all of them packed in a vector, or the id in a data map. -/
inductive Carries (remaining : List Json) : Json → List String → Json → Prop
  | topics {data : Json} {addrs : List String} {rest : List Json}
      (hremaining : remaining = addrs.map addressOperand ++ rest) (hid : looksLikeTokenId data) :
      Carries remaining data addrs data
  | packed {addrs : List String} {tokenId : Json} (hid : looksLikeTokenId tokenId) :
      Carries remaining (typedJson "vec" (.arr (addrs.map addressOperand ++ [tokenId]))) addrs
        tokenId
  | mapped {data tokenId : Json} {addrs : List String} {rest : List Json}
      (hremaining : remaining = addrs.map addressOperand ++ rest)
      (hdata : mapGet data "token_id" = some tokenId) (hid : looksLikeTokenId tokenId) :
      Carries remaining data addrs tokenId

theorem collectAddresses_map {addrs : List String} (hne : ∀ address ∈ addrs, address ≠ "") :
    collectAddresses (addrs.map addressOperand) = some addrs := by
  unfold collectAddresses
  induction addrs with
  | nil => rfl
  | cons address addrs ih =>
      have hvalue : topicAddressValue (addressOperand address) = some address := by
        simp [topicAddressValue, addressOperand, typedJson, hne address List.mem_cons_self]
      rw [List.map_cons, List.mapM_cons, hvalue,
        ih fun other hother => hne other (List.mem_cons_of_mem _ hother)]
      rfl

/-- The operands are read in whichever layout they come. -/
theorem extractArgs_of_carries {remaining : List Json} {data tokenId : Json}
    {addrs : List String} (h : Carries remaining data addrs tokenId)
    (hne : ∀ address ∈ addrs, address ≠ "") :
    extractArgs remaining data addrs.length = some (addrs, tokenId) := by
  have htake : ∀ rest : List Json,
      (addrs.map addressOperand ++ rest).take addrs.length = addrs.map addressOperand := by
    intro rest
    exact List.take_left' (List.length_map _)
  cases h with
  | @topics _ _ rest hremaining hid =>
      have hfits : addrs.length ≤ remaining.length ∧ looksLikeTokenId data := by
        refine ⟨?_, hid⟩
        rw [hremaining, List.length_append, List.length_map]
        exact Nat.le_add_right _ _
      rw [extractArgs, argsInTopics, if_pos hfits, hremaining, htake, collectAddresses_map hne]
      rfl
  | packed hid =>
      have hvec : looksLikeTokenId
          (typedJson "vec" (.arr (addrs.map addressOperand ++ [tokenId]))) = false := rfl
      have helems : dataVecElements (typedJson "vec" (.arr (addrs.map addressOperand ++
          [tokenId]))) = some (addrs.map addressOperand ++ [tokenId]) := rfl
      have hlength : (addrs.map addressOperand ++ [tokenId]).length = addrs.length + 1 := by
        simp
      have hlast : (addrs.map addressOperand ++ [tokenId])[addrs.length]? = some tokenId := by
        rw [List.getElem?_append_right (by simp), List.length_map, Nat.sub_self]
        rfl
      -- one short of its topics, so the vector is tried
      have hnone : argsInTopics remaining (typedJson "vec" (.arr (addrs.map addressOperand ++
          [tokenId]))) addrs.length = none := by
        rw [argsInTopics, hvec]
        exact if_neg fun h => Bool.false_ne_true h.2
      rw [extractArgs, hnone, Option.none_or, argsPacked, helems]
      simp only [Option.bind_eq_bind, Option.bind_some, hlength, if_pos, hlast, hid, htake,
        collectAddresses_map hne, Option.map_some, Option.some_or]
  | @mapped _ _ _ rest hremaining hdata hid =>
      have htype : (data.get? "type").bind Json.asStr = some "map" := by
        by_contra hother
        rw [mapGet, if_pos hother] at hdata
        cases hdata
      -- a map is no token id and no vector: its named value is read
      have hnotId : looksLikeTokenId data = false := by
        rw [looksLikeTokenId, htype]
        rfl
      have hnotVec : dataVecElements data = none := by
        rw [dataVecElements, htype]
        rfl
      have hfits : addrs.length ≤ remaining.length := by
        rw [hremaining, List.length_append, List.length_map]
        exact Nat.le_add_right _ _
      rw [extractArgs, argsInTopics, hnotId, argsPacked, hnotVec, argsWithMap, if_pos hfits, hdata,
        hremaining, htake, collectAddresses_map hne]
      simp [hid]

/-- A transfer goes from its first address to its second, a mint goes to its address, and a
burn takes from it. -/
theorem parse_of_carries {contractId : String} {remaining : List Json} {data tokenId : Json}
    {event : ExtractedEvent} {first second : String} (hfirst : first ≠ "")
    (hsecond : second ≠ "") :
    (Carries remaining data [first, second] tokenId →
      tryParseTransfer contractId remaining data event =
        some ⟨event.transactionHash, contractId, .transfer, tokenId, some first, some second,
          event.createdAt, event.eventId⟩) ∧
    (Carries remaining data [first] tokenId →
      tryParseMint contractId remaining data event =
          some ⟨event.transactionHash, contractId, .mint, tokenId, none, some first,
            event.createdAt, event.eventId⟩ ∧
        tryParseBurn contractId remaining data event =
          some ⟨event.transactionHash, contractId, .burn, tokenId, some first, none,
            event.createdAt, event.eventId⟩) := by
  constructor
  · intro h
    have hargs : extractArgs remaining data 2 = some ([first, second], tokenId) :=
      extractArgs_of_carries h (by simp [hfirst, hsecond])
    rw [tryParseTransfer, hargs]
    rfl
  · intro h
    have hargs : extractArgs remaining data 1 = some ([first], tokenId) :=
      extractArgs_of_carries h (by simp [hfirst])
    rw [tryParseMint, tryParseBurn, hargs]
    exact ⟨rfl, rfl⟩

/-- Made from an event: at its place, in its transaction. -/
def MadeFrom (event : ExtractedEvent) (nft : NftEvent) : Prop :=
  nft.transactionHash = event.transactionHash ∧ nft.eventId = event.eventId

theorem madeFrom_of_mem_consecutive {contractId : String} {remaining : List Json} {data : Json}
    {event : ExtractedEvent} {made : List NftEvent}
    (h : tryParseConsecutiveMint contractId remaining data event = some made) :
    ∀ nft ∈ made, MadeFrom event nft := by
  simp only [tryParseConsecutiveMint, Option.bind_eq_bind, Option.bind_eq_some_iff] at h
  obtain ⟨recipient, -, bounds, -, low, -, high, -, h⟩ := h
  split_ifs at h
  obtain rfl := Option.some.inj h
  intro nft hnft
  obtain ⟨id, -, rfl⟩ := List.mem_map.mp hnft
  exact ⟨rfl, rfl⟩

theorem madeFrom_of_mem_nftEventsOf [Crates] {netId : Hash} {event : ExtractedEvent}
    {nft : NftEvent} (h : nft ∈ nftEventsOf netId event) : MadeFrom event nft := by
  unfold nftEventsOf at h
  split at h
  · rename_i contractId verb remaining hcontract htopics
    dsimp only at h
    split_ifs at h
    · cases h
    · cases hmade : tryParseConsecutiveMint contractId remaining event.body.data event with
      | none =>
          rw [hmade] at h
          cases h
      | some made =>
          rw [hmade] at h
          exact madeFrom_of_mem_consecutive hmade nft h
    · simp only [tryParseTransfer, Option.mem_toList, Option.bind_eq_bind,
        Option.bind_eq_some_iff, Option.some.injEq] at h
      obtain ⟨_, -, rfl⟩ := h
      exact ⟨rfl, rfl⟩
    · simp only [tryParseMint, Option.mem_toList, Option.bind_eq_bind,
        Option.bind_eq_some_iff, Option.some.injEq] at h
      obtain ⟨_, -, rfl⟩ := h
      exact ⟨rfl, rfl⟩
    · simp only [tryParseBurn, Option.mem_toList, Option.bind_eq_bind,
        Option.bind_eq_some_iff, Option.some.injEq] at h
      obtain ⟨_, -, rfl⟩ := h
      exact ⟨rfl, rfl⟩
    · cases h
  · cases h

section

variable [Crates]

/-- The surrogate of the owner an event leaves a token with. -/
def NftEvent.ownerId (event : NftEvent) : Option Int64 :=
  event.ownerAfter.map Ids.accountId

/-- The events of one token that are routed to one place, in order. -/
def tokenEvents (route : String → NftRoute) (place : NftRoute) (events : List NftEvent)
    (token : Int64 × String) : List NftEvent :=
  events.filter fun event => route event.contractId = place ∧
    tokenIdToString event.tokenId ≠ "" ∧
    (Ids.contractId event.contractId, tokenIdToString event.tokenId) = token

theorem map_currentOwnerId_detectNfts (route : String → NftRoute) (place : NftRoute)
    (events : List NftEvent) (token : Int64 × String) :
    (((((detectNfts events).filter (route ·.contractId = place)).map nftRow).filter
        (·.token = token)).map (·.currentOwnerId)) =
      (tokenEvents route place events token).map NftEvent.ownerId := by
  induction events with
  | nil => rfl
  | cons event events ih =>
      unfold tokenEvents detectNfts at ih ⊢
      rw [List.filter_cons]
      by_cases hid : tokenIdToString event.tokenId = ""
      · have hskip : detectNft event = none := by simp [detectNft, hid]
        rw [List.filterMap_cons_none hskip, ih, if_neg (by simp [hid])]
      · -- Where the row says it was minted plays no part here.
        obtain ⟨minted, hdetect⟩ : ∃ minted, detectNft event = some ⟨event.contractId,
            tokenIdToString event.tokenId, none, event.ownerAfter, none, none, minted,
            event.eventId.ledgerSequence⟩ := ⟨_, detectNft_of_token hid⟩
        rw [List.filterMap_cons_some hdetect, List.filter_cons]
        by_cases hroute : route event.contractId = place
        · by_cases htoken :
              (Ids.contractId event.contractId, tokenIdToString event.tokenId) = token
          · rw [if_pos (by simpa using hroute), if_pos (by simp [hroute, hid, htoken]),
              List.map_cons, List.filter_cons_of_pos (by exact decide_eq_true htoken),
              List.map_cons, List.map_cons, ih]
            rfl
          · rw [if_pos (by simpa using hroute), if_neg (by simp [htoken]),
              List.map_cons,
              List.filter_cons_of_neg (by exact fun h => htoken (of_decide_eq_true h)), ih]
        · rw [if_neg (by simpa using hroute), if_neg (by simp [hroute]), ih]

theorem map_ownerId_extractNftOwnershipEvents {appOrderByHash : String → Option Int16}
    (route : String → NftRoute) (place : NftRoute) {events : List NftEvent}
    (horder : ∀ event ∈ events, (appOrderByHash event.transactionHash).isSome)
    (token : Int64 × String) :
    ((((extractNftOwnershipEvents events).filter (route ·.contractId = place)).filterMap
        (nftOwnershipChangeRow appOrderByHash)).filter (·.token = token)).map (·.ownerId) =
      (tokenEvents route place events token).map NftEvent.ownerId := by
  induction events with
  | nil => rfl
  | cons event events ih =>
      replace ih := ih fun other hother => horder other (List.mem_cons_of_mem _ hother)
      obtain ⟨order, hplace⟩ := Option.isSome_iff_exists.mp (horder event List.mem_cons_self)
      unfold tokenEvents extractNftOwnershipEvents at ih ⊢
      rw [List.filter_cons]
      by_cases hid : tokenIdToString event.tokenId = ""
      · -- an event without a token id has neither a change nor a row
        have hskip : extractNftOwnershipEvent event = none := by
          simp [extractNftOwnershipEvent, hid]
        rw [List.filterMap_cons_none hskip, ih, if_neg (by simp [hid])]
      · rw [List.filterMap_cons_some (extractNftOwnershipEvent_of_token hid), List.filter_cons]
        by_cases hroute : route event.contractId = place
        · -- its row has the owner that the fold sees
          have hrow : nftOwnershipChangeRow appOrderByHash ⟨event.transactionHash,
              event.contractId, tokenIdToString event.tokenId, event.eventKind.eventType,
              event.ownerAfter, event.eventId⟩ = some ⟨Ids.contractId event.contractId,
                tokenIdToString event.tokenId, event.eventId.ledgerSequence.toNat, order,
                event.eventId.operationIndex, event.eventId.eventIndex, event.ownerId,
                event.eventKind.eventType.toI16⟩ := by
            simp only [nftOwnershipChangeRow, hplace, Option.map_some, NftEvent.ownerId]
          rw [if_pos (by simpa using hroute), List.filterMap_cons_some hrow]
          by_cases htoken : (Ids.contractId event.contractId, tokenIdToString event.tokenId) = token
          · rw [if_pos (by simp [hroute, hid, htoken]), List.filter_cons_of_pos
                (by exact decide_eq_true htoken), List.map_cons, List.map_cons, ih]
          · rw [if_neg (by simp [htoken]),
              List.filter_cons_of_neg (by exact fun h => htoken (of_decide_eq_true h)), ih]
        · rw [if_neg (by simpa using hroute), if_neg (by simp [hroute]), ih]

/-! ## A ledger -/

/-- The NFT events of a ledger, in the order its transactions were applied. -/
def parseNftEvents (netId : Hash) (parsed : List ParsedEvents) : List NftEvent :=
  parsed.flatMap fun parsed => detectNftEvents parsed.events netId

theorem identity_of_mem_parseNftEvents {closeMeta : LedgerCloseMeta}
    {transactions : List ExtractedTransaction} {parsed : List ParsedEvents} {netId : Hash}
    (hparsed : parseEvents closeMeta transactions = some parsed) {event : NftEvent}
    (hevent : event ∈ parseNftEvents netId parsed) :
    event.eventId.ledgerSequence = closeMeta.ledgerSeq ∧
      event.transactionHash ∈ transactions.map (·.hash) := by
  obtain ⟨entry, hentry, hevent⟩ := List.mem_flatMap.mp hevent
  obtain ⟨source, hsource, hevent⟩ := List.mem_flatMap.mp hevent
  obtain ⟨hhash, hid⟩ := madeFrom_of_mem_nftEventsOf hevent
  obtain ⟨⟨transaction, txIndex⟩, hmem, hextract⟩ :=
    Traverse.exists_of_mem_right (Traverse.mapM_eq_some_iff.mp hparsed) hentry
  obtain ⟨extracted, hextracted, rfl⟩ := Option.map_eq_some_iff.mp hextract
  obtain ⟨hsourceHash, hledger⟩ := identity_of_mem_extract hextracted hsource
  refine ⟨by rw [hid, hledger, LedgerEvents.new], ?_⟩
  rw [hhash, hsourceHash]
  exact List.mem_map_of_mem (List.fst_mem_of_mem_zipIdx (List.mem_filter.mp hmem).1)

/-- The rows and the changes at one place tell what happened to each token: the row has the
owner after its last event, and the changes have the owner after each. -/
def TellOwners (events : Int64 × String → List NftEvent) (rows : List NftRow)
    (changes : List NftOwnershipChangeRow) : Prop :=
  ∀ token,
    (rows.filter (·.token = token)).map (·.currentOwnerId) =
        ((events token).getLast?.map NftEvent.ownerId).toList ∧
      (changes.filter (·.token = token)).map (·.ownerId) = (events token).map NftEvent.ownerId

theorem tellOwners_place {events : List NftEvent} {ledger : UInt32}
    {appOrderByHash : String → Option Int16} (route : String → NftRoute) (place : NftRoute)
    (hledger : ∀ event ∈ events, event.eventId.ledgerSequence = ledger)
    (horder : ∀ event ∈ events, (appOrderByHash event.transactionHash).isSome) :
    TellOwners (tokenEvents route place events)
      ((((detectNfts events).filter (route ·.contractId = place)).map nftRow).foldl stageNft [])
      (((extractNftOwnershipEvents events).filter (route ·.contractId = place)).filterMap
        (nftOwnershipChangeRow appOrderByHash)) := by
  intro token
  refine ⟨?_, map_ownerId_extractNftOwnershipEvents route place horder token⟩
  have hmarks : ∀ row ∈ ((detectNfts events).filter (route ·.contractId = place)).map nftRow,
      row.currentOwnerLedger = ledger.toNat := by
    intro row hrow
    obtain ⟨nft, hnft, rfl⟩ := List.mem_map.mp hrow
    obtain ⟨event, hevent, hdetect⟩ := List.mem_filterMap.mp (List.mem_filter.mp hnft).1
    have hseen : nft.lastSeenLedger = event.eventId.ledgerSequence := by
      by_cases hid : tokenIdToString event.tokenId = ""
      · rw [detectNft, if_pos hid] at hdetect
        cases hdetect
      · rw [detectNft_of_token hid] at hdetect
        obtain rfl := Option.some.inj hdetect
        rfl
    rw [nftRow, hseen, hledger event hevent]
  rw [map_currentOwnerId_foldl_stageNft hmarks, map_currentOwnerId_detectNfts, List.getLast?_map]

/-- **The owners of a ledger's tokens.**  At either place the row of a token has the owner after
its last event, whatever comes before; its changes are at the same place, and a contract with no
place has neither.  The two folds agree event by event: a mint and a transfer leave a token with
the recipient, a burn with nobody.  The recipient is the last address of the event, in whichever
layout, and a consecutive mint stands for the ids of its range. -/
theorem nftOwnership_ofLedger {closeMeta : LedgerCloseMeta}
    {transactions : List ExtractedTransaction} {parsed : List ParsedEvents}
    {orders : KeyedFold.Table String Int16}
    (hparsed : parseEvents closeMeta transactions = some parsed)
    (horders : Operations.appOrderByHash (transactions.map (·.hash)) = .ok orders)
    (netId : Hash) (contractRows : List SorobanContractRow)
    (priorContractVerdicts : String → Option ContractType) :
    let events := parseNftEvents netId parsed
    let route := routeFor contractRows priorContractVerdicts
    let staged := nftRows contractRows (detectNfts events) (extractNftOwnershipEvents events)
      priorContractVerdicts orders.lookup
    TellOwners (tokenEvents route .hot events) staged.nftRows staged.nftOwnershipChangeRows ∧
    TellOwners (tokenEvents route .pending events) staged.nftPendingRows
      staged.nftOwnershipChangePendingRows ∧
    (∀ event : NftEvent,
      (detectNft event).map (fun nft =>
          (nft.contractId, nft.tokenId, nft.owner, nft.lastSeenLedger)) =
        (extractNftOwnershipEvent event).map fun change =>
          (change.contractId, change.tokenId, change.owner, change.eventId.ledgerSequence)) ∧
    (∀ {event : NftEvent} {nft : ExtractedNft} {change : ExtractedNftEvent},
      detectNft event = some nft → extractNftOwnershipEvent event = some change →
      (event.eventKind = .mint →
        nft.owner = event.recipient ∧ change.owner = event.recipient) ∧
      (event.eventKind = .transfer →
        nft.owner = event.recipient ∧ change.owner = event.recipient) ∧
      (event.eventKind = .burn → nft.owner = none ∧ change.owner = none)) ∧
    (∀ {contractId : String} {remaining : List Json} {data tokenId : Json}
        {event : ExtractedEvent} {first second : String}, first ≠ "" → second ≠ "" →
      (Carries remaining data [first, second] tokenId →
        tryParseTransfer contractId remaining data event =
          some ⟨event.transactionHash, contractId, .transfer, tokenId, some first, some second,
            event.createdAt, event.eventId⟩) ∧
      (Carries remaining data [first] tokenId →
        tryParseMint contractId remaining data event =
            some ⟨event.transactionHash, contractId, .mint, tokenId, none, some first,
              event.createdAt, event.eventId⟩ ∧
          tryParseBurn contractId remaining data event =
            some ⟨event.transactionHash, contractId, .burn, tokenId, some first, none,
              event.createdAt, event.eventId⟩)) ∧
    (∀ {contractId recipient : String} {remaining : List Json} {data : Json}
        {event : ExtractedEvent} {low high : ℕ},
      remaining.head?.bind topicAddressValue = some recipient → MintsRange data low high →
      (high < low ∨ 65535 ≤ high - low →
        tryParseConsecutiveMint contractId remaining data event = none) ∧
      (low ≤ high → high - low < 65535 →
        tryParseConsecutiveMint contractId remaining data event =
            some ((mintedIds low high).map fun id : ℕ =>
              ⟨event.transactionHash, contractId, .mint, typedJson "u64" (.num id), none,
                some recipient, event.createdAt, event.eventId⟩) ∧
          (∀ id, (mintedIds low high).count id = if low ≤ id ∧ id ≤ high then 1 else 0) ∧
          (mintedIds low high).length ≤ 65535)) := by
  intro events route staged
  have hledger : ∀ event ∈ events, event.eventId.ledgerSequence = closeMeta.ledgerSeq :=
    fun event hevent => (identity_of_mem_parseNftEvents hparsed hevent).1
  -- every event's transaction has its place in the ledger
  have horder : ∀ event ∈ events, (orders.lookup event.transactionHash).isSome :=
    fun event hevent => (Operations.isSome_lookup_iff horders _).mpr
      (identity_of_mem_parseNftEvents hparsed hevent).2
  exact ⟨tellOwners_place route .hot hledger horder,
    tellOwners_place route .pending hledger horder, detectNft_eq, owner_of_event,
    parse_of_carries, consecutiveMint_spec⟩

end

/-! ## A token minted and burnt in one operation -/

/-- The burn of the token that `tokenEvent` mints. -/
def burnEvent : ContractEvent :=
  { tokenEvent with
    topics := [.symbol [0x62, 0x75, 0x72, 0x6E], .address (.account Crates.pinnedAccount)] }

def burntLedger : LedgerCloseMeta :=
  .v1 60000000 1750000000 [⟨[], .v4 [] [⟨[], [tokenEvent, burnEvent]⟩] [] none [] []⟩]

def burntEvents [Crates] : List ParsedEvents :=
  [⟨0, tokenTransaction "aa",
    [⟨"aa", ⟨60000000, 1, 0, 0⟩, .operation 0, decode tokenEvent, 1750000000⟩,
      ⟨"aa", ⟨60000000, 1, 0, 1⟩, .operation 0, decode burnEvent, 1750000000⟩]⟩]

/-- The last two ids there are. -/
def lastIds : Json :=
  typedJson "vec" (.arr [typedJson "u64" (.num (2 ^ 64 - 2)), typedJson "u64" (.num (2 ^ 64 - 1))])

theorem nftOwnership_ofLedger_burnt :
    let _ : Crates := Crates.pinned
    let events := parseNftEvents Crates.pinnedNetwork burntEvents
    let staged := nftRows [] (detectNfts events) (extractNftOwnershipEvents events)
      (fun _ => some .nft) (KeyedFold.collect [("aa", 1)]).lookup
    let token := (Ids.contractId "CCSNFZ5RA2EHTSMK2A5ZDXRCAQBYBVFAPJFNWP5BJECLIL4J5UBLLUQG", "5")
    (staged.nftRows.filter (·.token = token)).map (·.currentOwnerId) = [none] ∧
      (staged.nftOwnershipChangeRows.filter (·.token = token)).map (·.ownerId) =
        [some (Ids.accountId Crates.pinnedAccountStrkey), none] ∧
      (∀ id, (mintedIds (2 ^ 64 - 2) (2 ^ 64 - 1)).count id =
        if 2 ^ 64 - 2 ≤ id ∧ id ≤ 2 ^ 64 - 1 then 1 else 0) := by
  intro _ events staged token
  obtain ⟨hhot, -, -, -, -, hmint⟩ := @nftOwnership_ofLedger _ burntLedger [tokenTransaction "aa"]
    burntEvents (KeyedFold.collect [("aa", 1)]) rfl rfl Crates.pinnedNetwork [] fun _ => some .nft
  have howners : (tokenEvents (routeFor [] fun _ => some .nft) .hot events token).map
      NftEvent.ownerId = [some (Ids.accountId Crates.pinnedAccountStrkey), none] := by
    decide
  have hlast := congrArg List.getLast? howners
  rw [List.getLast?_map] at hlast
  refine ⟨?_, (hhot token).2.trans howners, ?_⟩
  · rw [(hhot token).1, hlast]
    rfl
  · have hrange : MintsRange lastIds (2 ^ 64 - 2) (2 ^ 64 - 1) :=
      .vec ⟨"u64", by decide, rfl, by decide⟩ ⟨"u64", by decide, rfl, by decide⟩
    have hids := @hmint "" "G" [typedJson "address" (.str "G")] lastIds
      ⟨"aa", ⟨60000000, 1, 0, 0⟩, .operation 0, decode tokenEvent, 1750000000⟩ _ _ rfl hrange
    exact (hids.2 (by decide) (by decide)).2.1

end SorobanExplorer
