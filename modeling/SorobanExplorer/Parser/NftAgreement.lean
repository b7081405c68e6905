import SorobanExplorer.Lib.Traverse
import SorobanExplorer.Parser.Nft

/-!
# The NFT decoder and the token decoder

Both decoders read the ends of a transfer, mint or burn.  The token decoder reads
them from the topics and takes a second address of a mint for the recipient,
after an admin; the NFT decoder takes the first address, and reads a packed data
vector in place of the topics.  `decodersAgree_iff` says when the two find the
same ends.
-/

namespace SorobanExplorer

open Text

/-! ## What either decoder reads -/

/-- The address in a position, if one is there. -/
def addressAt (items : List Json) (i : ℕ) : Option String :=
  items[i]?.bind addressOf

/-- The addresses the NFT decoder reads are those the token decoder reads. A packed
data vector repeats the topics' addresses; without one, a mint names no second
address other than the first. -/
def OperandsAlike (kind : TokenEventKind) (topics : List Json) (data : Json) : Prop :=
  match dataVecElements data, kind with
  | some packed, .transfer =>
      addressAt packed 0 = addressAt topics 1 ∧ addressAt packed 1 = addressAt topics 2
  | some packed, .mint => addressAt packed 0 = (addressAt topics 2).or (addressAt topics 1)
  | some packed, .burn => addressAt packed 0 = addressAt topics 1
  | none, .mint =>
      ∀ operand, addressAt topics 2 = some operand → addressAt topics 1 = some operand
  | _, _ => True

theorem topicAddressValue_eq_addressOf (topic : Json) :
    topicAddressValue topic = addressOf topic := by
  unfold topicAddressValue addressOf typedStr typed
  cases htype : topic.get? "type" with
  | none => simp
  | some type =>
      cases hname : type.asStr with
      | none => simp [hname]
      | some name => by_cases h : name = "address" <;> simp [hname, h]

/-! ## The ends either decoder finds -/

/-- The ends of a token event, by the topics. -/
def tokenEnds (topics : List Json) : TokenEventKind → Option String × Option String
  | .transfer => (addressAt topics 1, addressAt topics 2)
  | .mint => (none, (addressAt topics 2).or (addressAt topics 1))
  | .burn => (addressAt topics 1, none)
  | .clawback => ((addressAt topics 2).or (addressAt topics 1), none)

/-- The ends of an NFT event, by its operands. -/
def nftEnds (operands : List Json) : TokenEventKind → Option String × Option String
  | .transfer => (addressAt operands 0, addressAt operands 1)
  | .mint => (none, addressAt operands 0)
  | .burn => (addressAt operands 0, none)
  | .clawback => (none, none)

theorem tokenEnds_of_tokenOperands {topics : List Json} {kind : TokenEventKind}
    {sender recipient : Option String} {assetIdx : ℕ}
    (h : tokenOperands topics kind = some (sender, recipient, assetIdx)) :
    (sender, recipient) = tokenEnds topics kind := by
  -- an address in front of the operand is the admin
  have hadmin : ∀ {operand : String} {i : ℕ},
      operandAfterOptionalAdmin topics = some (operand, i) →
      some operand = (addressAt topics 2).or (addressAt topics 1) := by
    intro operand i hop
    simp only [operandAfterOptionalAdmin, bind, Option.bind_eq_some_iff] at hop
    obtain ⟨topic, htopic, first, hfirst, hsecond⟩ := hop
    cases hoperand : topics[2]?.bind addressOf with
    | some second =>
        simp only [hoperand, Option.some.injEq, Prod.mk.injEq] at hsecond
        simp [addressAt, hoperand, hsecond.1]
    | none =>
        simp only [hoperand, Option.some.injEq, Prod.mk.injEq] at hsecond
        simp [addressAt, hoperand, htopic, hfirst, hsecond.1]
  cases kind with
  | transfer =>
      simp only [tokenOperands, bind, Option.bind_eq_some_iff, Option.some.injEq,
        Prod.mk.injEq] at h
      obtain ⟨first, hfirst, s, hs, second, hsecond, r, hr, rfl, rfl, -⟩ := h
      simp [tokenEnds, addressAt, hfirst, hs, hsecond, hr]
  | mint =>
      simp only [tokenOperands, bind, Option.bind_eq_some_iff, Option.some.injEq,
        Prod.mk.injEq] at h
      obtain ⟨⟨operand, i⟩, hop, rfl, rfl, -⟩ := h
      rw [tokenEnds, hadmin hop]
  | burn =>
      simp only [tokenOperands, bind, Option.bind_eq_some_iff, Option.some.injEq,
        Prod.mk.injEq] at h
      obtain ⟨first, hfirst, s, hs, rfl, rfl, -⟩ := h
      simp [tokenEnds, addressAt, hfirst, hs]
  | clawback =>
      simp only [tokenOperands, bind, Option.bind_eq_some_iff, Option.some.injEq,
        Prod.mk.injEq] at h
      obtain ⟨⟨operand, i⟩, hop, rfl, rfl, -⟩ := h
      rw [tokenEnds, hadmin hop]

theorem tokenEnds_of_parseTokenEvent {topics : Json} {token : TokenEvent}
    (h : parseTokenEvent topics = some token) :
    ∃ elements, topics.asArray = some elements ∧ tokenVerb topics = some token.kind ∧
      (token.sender, token.recipient) = tokenEnds elements token.kind := by
  unfold parseTokenEvent at h
  simp only [bind, Option.bind_eq_some_iff, Option.some.injEq] at h
  obtain ⟨elements, helements, kind, hkind, ⟨sender, recipient, assetIdx⟩, hoperands, rfl⟩ := h
  exact ⟨elements, helements, hkind, tokenEnds_of_tokenOperands hoperands⟩

theorem dataVecElements_of_ne {data : Json} (h : (data.get? "type").bind Json.asStr ≠ some "vec") :
    dataVecElements data = none := by
  rw [dataVecElements, if_neg h]

/-- The addresses of accepted operands: from a packed vector if there is one,
from the topics otherwise. -/
theorem extractArgs_spec {remaining : List Json} {data : Json} {n : ℕ} {addrs : List String}
    {tokenId : Json} (h : extractArgs remaining data n = some (addrs, tokenId)) :
    ∀ i < n, addrs[i]? = addressAt ((dataVecElements data).getD remaining) i := by
  -- all operands are collected, or none
  have hcollect : ∀ {items : List Json} {id : Json},
      (collectAddresses (items.take n)).map (·, id) = some (addrs, tokenId) →
      ∀ i < n, addrs[i]? = addressAt items i := by
    intro items id hitems i hi
    obtain ⟨collected, hcollected, heq⟩ := Option.map_eq_some_iff.mp hitems
    obtain ⟨rfl, -⟩ := Prod.mk.inj heq
    rw [Traverse.getElem?_of_mapM_eq_some hcollected, List.getElem?_take_of_lt hi, addressAt]
    congr 1
    funext topic
    exact topicAddressValue_eq_addressOf topic
  rw [extractArgs, Option.or_eq_some_iff, Option.or_eq_some_iff] at h
  obtain htopics | ⟨-, hpacked | ⟨-, hmap⟩⟩ := h
  · rw [argsInTopics] at htopics
    split at htopics
    · rename_i hfits
      have hnone : dataVecElements data = none := by
        refine dataVecElements_of_ne fun htype => ?_
        simp [looksLikeTokenId, htype] at hfits
      rw [hnone]
      exact hcollect htopics
    · cases htopics
  · simp only [argsPacked, bind, Option.bind_eq_some_iff] at hpacked
    obtain ⟨elems, helems, hpacked⟩ := hpacked
    split at hpacked
    · obtain ⟨id, -, hpacked⟩ := Option.bind_eq_some_iff.mp hpacked
      split at hpacked
      · rw [helems]
        exact hcollect hpacked
      · cases hpacked
    · cases hpacked
  · rw [argsWithMap] at hmap
    split at hmap
    · obtain ⟨id, hid, hmap⟩ := Option.bind_eq_some_iff.mp hmap
      have hnone : dataVecElements data = none := by
        refine dataVecElements_of_ne fun htype => ?_
        simp [mapGet, htype] at hid
      split at hmap
      · rw [hnone]
        exact hcollect hmap
      · cases hmap
    · cases hmap

def TokenEventKind.verb : TokenEventKind → String
  | .transfer => "transfer"
  | .mint => "mint"
  | .burn => "burn"
  | .clawback => "clawback"

/-- The two decoders read a verb the same way. -/
theorem topicSymbolValue_of_tokenVerb {verb : Json} {remaining : List Json} {kind : TokenEventKind}
    (h : tokenVerb (.arr (verb :: remaining)) = some kind) :
    toAsciiLowercase (topicSymbolValue verb) = kind.verb := by
  have hlower : ∀ {sym name : String}, eqIgnoreAsciiCase sym name →
      toAsciiLowercase sym = toAsciiLowercase name := by
    intro sym name hname
    rw [eqIgnoreAsciiCase, beq_iff_eq] at hname
    rw [toAsciiLowercase, hname, toAsciiLowercase]
  simp only [tokenVerb, bind, Json.asArray, List.head?_cons, Option.bind_some,
    Option.bind_eq_some_iff] at h
  obtain ⟨type, ⟨typeJson, htype, hname⟩, _, hsym, sym, ⟨value, hvalue, hstr⟩, h⟩ := h
  have htext : topicSymbolValue verb = sym := by
    by_cases hs : type = "sym"
    · simp [topicSymbolValue, htype, hname, hs, hvalue, hstr]
    · simp [hs] at hsym
  rw [htext]
  split_ifs at h with h₁ h₂ h₃ h₄ <;> cases h
  · exact hlower h₁
  · exact hlower h₂
  · exact hlower h₃
  · exact hlower h₄

/-! ## Agreement -/

section

variable [Crates]

/-- What the two decoders find of one event, where both find something. -/
def DecodersAgree (netId : Hash) (event : ExtractedEvent) : Prop :=
  ∀ nft ∈ detectNftEvents [event] netId, ∀ token,
    parseTokenEvent event.body.topics = some token →
      nft.sender = token.sender ∧ nft.recipient = token.recipient

/-- The ends of an NFT event whose verb is a token verb. -/
theorem nftEnds_of_mem {netId : Hash} {event : ExtractedEvent} {nft : NftEvent} {verb : Json}
    {remaining : List Json} {kind : TokenEventKind}
    (htopics : event.body.topics.asArray = some (verb :: remaining))
    (hkind : tokenVerb event.body.topics = some kind) (h : nft ∈ detectNftEvents [event] netId) :
    (nft.sender, nft.recipient) =
      nftEnds ((dataVecElements event.body.data).getD remaining) kind := by
  -- the verb is the first topic
  have harr : event.body.topics = .arr (verb :: remaining) := by
    cases hjson : event.body.topics <;> simp_all [Json.asArray]
  rw [harr] at hkind
  have hverb := topicSymbolValue_of_tokenVerb hkind
  rw [detectNftEvents, List.flatMap_singleton, nftEventsOf, htopics] at h
  cases hcontract : event.body.contractId with
  | none => simp [hcontract] at h
  | some contractId =>
    simp only [hcontract, hverb] at h
    split at h
    · cases h
    · cases kind with
      | transfer =>
          simp only [TokenEventKind.verb, String.reduceEq, if_false, if_true, Option.mem_toList,
            tryParseTransfer, bind, Option.bind_eq_some_iff, Option.some.injEq] at h
          obtain ⟨⟨addrs, tokenId⟩, hargs, rfl⟩ := h
          have haddrs := extractArgs_spec hargs
          simp [nftEvent, nftEnds, haddrs]
      | mint =>
          simp only [TokenEventKind.verb, String.reduceEq, if_false, if_true, Option.mem_toList,
            tryParseMint, bind, Option.bind_eq_some_iff, Option.some.injEq] at h
          obtain ⟨⟨addrs, tokenId⟩, hargs, rfl⟩ := h
          have haddrs := extractArgs_spec hargs
          simp [nftEvent, nftEnds, haddrs]
      | burn =>
          simp only [TokenEventKind.verb, String.reduceEq, if_false, if_true, Option.mem_toList,
            tryParseBurn, bind, Option.bind_eq_some_iff, Option.some.injEq] at h
          obtain ⟨⟨addrs, tokenId⟩, hargs, rfl⟩ := h
          have haddrs := extractArgs_spec hargs
          simp [nftEvent, nftEnds, haddrs]
      | clawback => simp [TokenEventKind.verb] at h

omit [Crates] in
/-- Same ends, said of the addresses in the operands. -/
theorem nftEnds_eq_tokenEnds_iff {verb : Json} {remaining : List Json} {data : Json}
    {kind : TokenEventKind} (hkind : kind ≠ .clawback) :
    nftEnds ((dataVecElements data).getD remaining) kind = tokenEnds (verb :: remaining) kind ↔
      OperandsAlike kind (verb :: remaining) data := by
  have hshift : ∀ i, addressAt remaining i = addressAt (verb :: remaining) (i + 1) := fun _ => rfl
  unfold OperandsAlike
  cases hpacked : dataVecElements data with
  | some packed => cases kind <;> simp [nftEnds, tokenEnds] at hkind ⊢
  | none =>
      cases kind with
      | mint =>
          simp only [Option.getD_none, nftEnds, tokenEnds, hshift, Prod.mk.injEq, true_and]
          -- the token decoder prefers the second address
          cases addressAt (verb :: remaining) 2 <;> simp
      | clawback => exact absurd rfl hkind
      | _ => simp [nftEnds, tokenEnds, hshift]

omit [Crates] in
theorem exists_topics_of_tokenVerb {topics : Json} {kind : TokenEventKind}
    (h : tokenVerb topics = some kind) : ∃ verb remaining, topics = .arr (verb :: remaining) := by
  cases topics with
  | arr elements =>
      cases elements with
      | nil => simp [tokenVerb, Json.asArray] at h
      | cons verb remaining => exact ⟨verb, remaining, rfl⟩
  | _ => simp [tokenVerb, Json.asArray] at h

/-- No NFT event has the verb `clawback`. -/
theorem ne_clawback_of_mem {netId : Hash} {event : ExtractedEvent} {nft : NftEvent}
    {kind : TokenEventKind} (hkind : tokenVerb event.body.topics = some kind)
    (h : nft ∈ detectNftEvents [event] netId) : kind ≠ .clawback := by
  rintro rfl
  obtain ⟨verb, remaining, harr⟩ := exists_topics_of_tokenVerb hkind
  have hverb := topicSymbolValue_of_tokenVerb (harr ▸ hkind)
  rw [detectNftEvents, List.flatMap_singleton, nftEventsOf, harr, Json.asArray] at h
  cases hcontract : event.body.contractId with
  | none => simp [hcontract] at h
  | some contractId => simp [hcontract, hverb, TokenEventKind.verb] at h

/-- The two decoders find the same ends of an event exactly when one of them finds
none, or their operands are alike. -/
theorem decodersAgree_iff (netId : Hash) (event : ExtractedEvent) :
    DecodersAgree netId event ↔
      (detectNftEvents [event] netId ≠ [] → ∀ token,
        parseTokenEvent event.body.topics = some token →
          ∃ elements, event.body.topics.asArray = some elements ∧
            OperandsAlike token.kind elements event.body.data) := by
  have hends : ∀ nft ∈ detectNftEvents [event] netId, ∀ token,
      parseTokenEvent event.body.topics = some token →
        ∃ elements, event.body.topics.asArray = some elements ∧
          ((nft.sender, nft.recipient) = (token.sender, token.recipient) ↔
            OperandsAlike token.kind elements event.body.data) := by
    intro nft hnft token htoken
    obtain ⟨elements, helements, hkind, htokenEnds⟩ := tokenEnds_of_parseTokenEvent htoken
    obtain ⟨verb, remaining, harr⟩ := exists_topics_of_tokenVerb hkind
    obtain rfl : verb :: remaining = elements := by simpa [harr, Json.asArray] using helements
    refine ⟨verb :: remaining, helements, ?_⟩
    rw [nftEnds_of_mem helements hkind hnft, htokenEnds]
    exact nftEnds_eq_tokenEnds_iff (ne_clawback_of_mem hkind hnft)
  constructor
  · intro hagree hnft token htoken
    obtain ⟨nft, hmem⟩ := List.exists_mem_of_ne_nil _ hnft
    obtain ⟨elements, helements, hiff⟩ := hends nft hmem token htoken
    obtain ⟨hsender, hrecipient⟩ := hagree nft hmem token htoken
    exact ⟨elements, helements, hiff.mp (by rw [hsender, hrecipient])⟩
  · intro halike nft hmem token htoken
    obtain ⟨elements, helements, hiff⟩ := hends nft hmem token htoken
    obtain ⟨elements', helements', hsame⟩ := halike (List.ne_nil_of_mem hmem) token htoken
    obtain rfl : elements = elements' := Option.some.inj (helements.symm.trans helements')
    exact Prod.mk.inj (hiff.mpr hsame)

end

/-- A mint that names its admin first: the token decoder credits the second
address, the NFT decoder the admin. -/
def adminMint : ExtractedEvent where
  transactionHash := "aa"
  body :=
    { eventType := .contract
      contractId := some "CDCN6G3FWWDP7I75YXQCUNJLZ34WO2C2ZNTX55ZUXZUWYJ6XV7DMMP7M"
      topics := .arr [typedJson "sym" (.str "mint"),
        typedJson "address" (.str "GAWOKP6NJAWNRPQDE4O3NZYDFJHEMLUIP36AC74HNBHLTA3GURYB4PYJ"),
        typedJson "address" (.str "CCSNFZ5RA2EHTSMK2A5ZDXRCAQBYBVFAPJFNWP5BJECLIL4J5UBLLUQG")]
      data := typedJson "u32" (.num 7) }
  origin := .operation 0
  eventId := ⟨64400000, 1, 0, 0⟩
  createdAt := 0

theorem not_decodersAgree_adminMint :
    let _ : Crates := Crates.pinned
    ¬ DecodersAgree 0 adminMint := by
  intro _ hagree
  have hnft := hagree
    (nftEvent "CDCN6G3FWWDP7I75YXQCUNJLZ34WO2C2ZNTX55ZUXZUWYJ6XV7DMMP7M" adminMint .mint
      adminMint.body.data none (some "GAWOKP6NJAWNRPQDE4O3NZYDFJHEMLUIP36AC74HNBHLTA3GURYB4PYJ"))
    (by decide)
    ⟨.mint, none, some "CCSNFZ5RA2EHTSMK2A5ZDXRCAQBYBVFAPJFNWP5BJECLIL4J5UBLLUQG", .bespoke⟩
    (by decide)
  exact absurd hnft (by decide)

end SorobanExplorer
