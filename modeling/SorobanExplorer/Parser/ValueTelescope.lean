import SorobanExplorer.Parser.LedgerValueSpec

/-!
# Entries that interleave

A holder and an asset belong to one entry at most, and the changes of all other
entries leave their balance alone, so the whole list of changes does to it what
the entry's own changes do.
-/

namespace SorobanExplorer

open KeyedFold

section

variable [Crates]

/-! ## The other entries -/

/-- An entry of the changes has a key. -/
def Owns (changes : List LedgerEntryChange) (carrier : Carrier) (key : BalanceKey) : Prop :=
  ∃ change ∈ changes, change.carrier = some carrier ∧ ∃ data ∈ change.image, key ∈ balanceKeys data

theorem Owns.holder_mem {changes : List LedgerEntryChange} {carrier : Carrier} {key : BalanceKey}
    (h : Owns changes carrier key) : carrier.holder ∈ holders changes := by
  obtain ⟨change, hchange, hcarrier, -⟩ := h
  exact List.mem_map_of_mem (List.mem_filterMap.mpr ⟨change, hchange, hcarrier⟩)

theorem Owns.asset_mem {changes : List LedgerEntryChange} {carrier : Carrier} {key : BalanceKey}
    (h : Owns changes carrier key) : (carrier, key.asset) ∈ shownAssets changes := by
  obtain ⟨change, hchange, hcarrier, data, himage, hmem⟩ := h
  obtain ⟨balance, hbalance, rfl⟩ := List.mem_map.mp hmem
  refine List.mem_flatMap.mpr ⟨change, hchange, ?_⟩
  rw [hcarrier, Option.mem_def.mp himage]
  exact List.mem_map_of_mem (List.mem_map_of_mem hbalance)

/-- The address a holder's balances are kept under. -/
theorem account_of_mem {changes : List LedgerEntryChange} (haddresses : AddressesApart changes)
    {carrier : Carrier} {key : BalanceKey} (h : Owns changes carrier key) :
    key.account = Crates.scAddressStrkey carrier.holder := by
  have haccount : ∀ id, carrier.holder = .account id →
      Crates.accountStrkey id = Crates.scAddressStrkey (.account id) := fun id hid =>
    haddresses.account id (hid ▸ h.holder_mem)
  obtain ⟨change, hchange, hcarrier, data, himage, hmem⟩ := h
  -- the image is of the entry's own kind
  have hkey : data.key.carrier = some carrier := by
    cases change <;> cases himage <;> exact hcarrier
  cases data with
  | account entry =>
      cases hkey
      have hmem : key = ⟨Crates.accountStrkey entry.accountId, .native⟩ := by
        simpa [balanceKeys, entryBalances] using hmem
      rw [hmem]
      exact haccount _ rfl
  | trustline entry =>
      cases hkey
      simp only [balanceKeys, entryBalances, List.mem_map, Option.mem_toList,
        Option.map_eq_some_iff] at hmem
      obtain ⟨_, ⟨asset, _, rfl⟩, rfl⟩ := hmem
      exact haccount _ rfl
  | liquidityPool entry =>
      cases hkey
      simp only [balanceKeys, entryBalances, List.map_cons, List.map_nil, List.mem_cons,
        List.not_mem_nil, or_false] at hmem
      rcases hmem with rfl | rfl <;> rfl
  | claimableBalance entry =>
      cases hkey
      simp only [balanceKeys, entryBalances, List.map_cons, List.map_nil, List.mem_cons,
        List.not_mem_nil, or_false] at hmem
      rw [hmem]
      rfl
  | offer | data | contractData | contractCode | configSetting | ttl => cases hkey

theorem Owns.unique {changes : List LedgerEntryChange} (haddresses : AddressesApart changes)
    (hassets : AssetsApart changes) {carrier carrier' : Carrier} {key : BalanceKey}
    (h : Owns changes carrier key) (h' : Owns changes carrier' key) : carrier = carrier' := by
  have hrendered : Crates.scAddressStrkey carrier.holder = Crates.scAddressStrkey carrier'.holder :=
    (account_of_mem haddresses h).symm.trans (account_of_mem haddresses h')
  have hholder := haddresses.injective _ h.holder_mem _ h'.holder_mem hrendered
  exact hassets.entries _ h.asset_mem _ h'.asset_mem hholder rfl

/-- A removed account or trustline was shown before. -/
theorem owns_of_removed {changes : List LedgerEntryChange} (hwell : WellFormed changes)
    {removed : LedgerKey} {key : BalanceKey} (hmem : .removed removed ∈ changes)
    (hkey : removedBalanceKey removed = some key) :
    ∃ carrier, removed.carrier = some carrier ∧ Owns changes carrier key := by
  have hholder : removedHolder removed = none := by
    cases removed <;> first | rfl | cases hkey
  obtain ⟨carrier, hcarrier⟩ : ∃ carrier, removed.carrier = some carrier := by
    cases removed <;> first | exact ⟨_, rfl⟩ | cases hkey
  have hown : .removed removed ∈ changesOf carrier changes :=
    List.mem_filter.mpr ⟨hmem, decide_eq_true hcarrier⟩
  have hchained := hwell.chained carrier
  refine ⟨carrier, hcarrier, ?_⟩
  -- the first change of the entry is no removal, so it shows the entry
  cases hlist : changesOf carrier changes with
  | nil => simp [hlist] at hown
  | cons first rest =>
      rw [hlist] at hchained
      obtain ⟨hfirst, hcarrierFirst⟩ := List.mem_filter.mp
        (hlist ▸ List.mem_cons_self : first ∈ changesOf carrier changes)
      have hcarrierFirst : first.carrier = some carrier := by simpa using hcarrierFirst
      have himage : ∃ data ∈ first.image, data.key.carrier = some carrier := by
        cases first with
        | removed other => exact hchained.1.elim
        | created entry | updated entry | state entry | restored entry =>
            exact ⟨entry.data, rfl, hcarrierFirst⟩
      obtain ⟨data, himage, hdata⟩ := himage
      refine ⟨first, hfirst, hcarrierFirst, data, himage, ?_⟩
      rw [balanceKeys_eq hdata hcarrier hholder, hkey]
      simp

/-- The changes of an entry that does not have a key leave it alone, if no
pool or claimable balance of the key's holder is removed or nothing is held yet. -/
theorem spanAfter_eq {changes : List LedgerEntryChange} (hwell : WellFormed changes)
    {change : LedgerEntryChange} (hchange : change ∈ changes) {key : BalanceKey}
    {held : Option BalanceSpan}
    (hnot : ∀ carrier, change.carrier = some carrier → ¬ Owns changes carrier key)
    (hholder : held = none ∨ ∀ removed, change = .removed removed →
      removedHolder removed ≠ some key.account) :
    spanAfter key held change = held := by
  -- no image of another entry shows the key
  have himage : ∀ data ∈ change.image, key ∉ balanceKeys data := by
    intro data hdata hmem
    cases hcarrier : change.carrier with
    | none =>
        have hnil := hwell.carried change hchange hcarrier data hdata
        simp [balanceKeys, hnil] at hmem
    | some carrier => exact hnot carrier hcarrier ⟨change, hchange, hcarrier, data, hdata, hmem⟩
  cases change with
  | created entry | updated entry | state entry | restored entry =>
      exact spanSeen_of_notMem (himage _ rfl) _ held
  | removed removed =>
      show spanRemoved key removed held = held
      unfold spanRemoved
      cases hcase : removedHolder removed with
      | some holder =>
          rcases hholder with rfl | hne
          · simp
          · have hne : key.account ≠ holder := by
              rintro rfl
              exact hne removed rfl hcase
            simp [hne]
      | none =>
          have hne : removedBalanceKey removed ≠ some key := by
            intro hkey
            obtain ⟨carrier, hcarrier, howns⟩ := owns_of_removed hwell hchange hkey
            exact hnot carrier hcarrier howns
          simp [hne]

/-- A removed pool or claimable balance is a holder of its own. -/
theorem removedHolder_eq {removed : LedgerKey} {holder : String} {carrier : Carrier}
    (h : removedHolder removed = some holder) (hcarrier : removed.carrier = some carrier) :
    holder = Crates.scAddressStrkey carrier.holder ∧
      ∀ other : Carrier, carrier.holder = other.holder → carrier = other := by
  cases removed with
  | liquidityPool | claimableBalance =>
      cases h
      cases hcarrier
      refine ⟨rfl, ?_⟩
      intro other hother
      cases other <;> cases hother
      rfl
  | account | trustline | offer | data | contractData | contractCode | configSetting | ttl =>
      cases h

/-- A key's balance follows its owner's changes alone. -/
theorem spans_of_owner {changes : List LedgerEntryChange} (hwell : WellFormed changes)
    (haddresses : AddressesApart changes) (hassets : AssetsApart changes) {carrier : Carrier}
    {key : BalanceKey} (howns : Owns changes carrier key) :
    changes.foldl (spanAfter key) none =
      (changesOf carrier changes).foldl (spanAfter key) none := by
  symm
  apply foldl_filter_eq
  intro change hchange hother held
  have hother : change.carrier ≠ some carrier := of_decide_eq_false hother
  apply spanAfter_eq hwell hchange
  · intro other hcarrier hownsOther
    exact hother (hownsOther.unique haddresses hassets howns ▸ hcarrier)
  · right
    rintro removed rfl hholder
    obtain ⟨other, hcarrier⟩ : ∃ other, removed.carrier = some other := by
      cases removed <;> first | exact ⟨_, rfl⟩ | cases hholder
    obtain ⟨htext, hsame⟩ := removedHolder_eq hholder hcarrier
    have hmem : other.holder ∈ holders changes :=
      List.mem_map_of_mem (List.mem_filterMap.mpr ⟨_, hchange, hcarrier⟩)
    have hrendered : Crates.scAddressStrkey other.holder = Crates.scAddressStrkey carrier.holder :=
      htext.symm.trans (account_of_mem haddresses howns)
    have hequal := haddresses.injective _ hmem _ howns.holder_mem hrendered
    exact hother (hsame carrier hequal ▸ hcarrier)

theorem ownChanges_changesOf {changes : List LedgerEntryChange}
    (haddresses : AddressesApart changes) (hassets : AssetsApart changes) {carrier : Carrier}
    {key : BalanceKey} (howns : Owns changes carrier key) :
    OwnChanges key carrier (changesOf carrier changes) where
  carrier := fun change hchange => of_decide_eq_true (List.mem_filter.mp hchange).2
  nodup := by
    intro change hchange data hdata
    have hnodup := hassets.nodup data
      (List.mem_filterMap.mpr ⟨change, (List.mem_filter.mp hchange).1, hdata⟩)
    have hmap : heldAssets data = (balanceKeys data).map BalanceKey.asset := by
      simp [heldAssets, balanceKeys]
    rw [hmap] at hnodup
    exact hnodup.of_map
  holder := by
    rintro change hchange removed rfl holder hholder
    have hcarrier : removed.carrier = some carrier :=
      of_decide_eq_true (List.mem_filter.mp hchange).2
    rw [account_of_mem haddresses howns, (removedHolder_eq hholder hcarrier).1]

/-- Nothing is held under a key no entry has. -/
theorem spans_of_noOwner {changes : List LedgerEntryChange} (hwell : WellFormed changes)
    {key : BalanceKey} (hnone : ∀ carrier, ¬ Owns changes carrier key) :
    changes.foldl (spanAfter key) none = none := by
  have hidle : ∀ change ∈ changes, spanAfter key none change = none := fun change hchange =>
    spanAfter_eq hwell hchange (fun carrier _ => hnone carrier) (.inl rfl)
  clear hnone hwell
  induction changes with
  | nil => rfl
  | cons change rest ih =>
      rw [List.foldl_cons, hidle change List.mem_cons_self]
      exact ih fun other hother => hidle other (List.mem_cons_of_mem _ hother)

/-! ## Movements -/

/-- An entry without a key began and ends with nothing under it. -/
theorem balance_of_not_owns {changes : List LedgerEntryChange} {carrier : Carrier}
    {key : BalanceKey} (h : ¬ Owns changes carrier key) :
    balanceBefore key (changesOf carrier changes) = 0 ∧
      balanceAfter key (changesOf carrier changes) = 0 := by
  have hzero : ∀ change ∈ changesOf carrier changes, ∀ data ∈ change.image,
      balanceIn key data = 0 := by
    intro change hchange data hdata
    obtain ⟨hmem, hcarrier⟩ := List.mem_filter.mp hchange
    apply balanceIn_eq_zero
    intro hkey
    exact h ⟨change, hmem, of_decide_eq_true hcarrier, data, hdata, hkey⟩
  constructor
  · cases hlist : changesOf carrier changes with
    | nil => rfl
    | cons first rest =>
        rw [hlist] at hzero
        have hfirst := hzero first List.mem_cons_self
        cases first with
        | state entry | restored entry => exact hfirst _ rfl
        | created entry | updated entry | removed removed => rfl
  · unfold balanceAfter
    cases hlast : (changesOf carrier changes).getLast? with
    | none => rfl
    | some last =>
        have hlast := hzero last (List.mem_of_getLast? hlast)
        show last.image.elim 0 (balanceIn key) = 0
        cases himage : last.image with
        | none => rfl
        | some data => exact hlast data himage

theorem movement_of_owner {changes : List LedgerEntryChange} (haddresses : AddressesApart changes)
    (hassets : AssetsApart changes) {carrier : Carrier} {key : BalanceKey}
    (howns : Owns changes carrier key) :
    movement changes key = balanceAfter key (changesOf carrier changes) -
      balanceBefore key (changesOf carrier changes) := by
  apply Finset.sum_eq_single carrier
  · intro other _ hne
    have hnot : ¬ Owns changes other key := fun hother =>
      hne (hother.unique haddresses hassets howns)
    obtain ⟨hbefore, hafter⟩ := balance_of_not_owns hnot
    rw [hbefore, hafter, sub_zero]
  · intro hnot
    obtain ⟨change, hchange, hcarrier, -⟩ := howns
    exact absurd (List.mem_toFinset.mpr (List.mem_filterMap.mpr ⟨change, hchange, hcarrier⟩)) hnot

theorem movement_of_noOwner {changes : List LedgerEntryChange} {key : BalanceKey}
    (hnone : ∀ carrier, ¬ Owns changes carrier key) : movement changes key = 0 := by
  apply Finset.sum_eq_zero
  intro carrier _
  obtain ⟨hbefore, hafter⟩ := balance_of_not_owns (hnone carrier)
  rw [hbefore, hafter, sub_zero]

/-! ## No overflow -/

theorem balanceIn_bounds {data : LedgerEntryData} {carrier : Carrier}
    (h : data.key.carrier = some carrier) (key : BalanceKey) :
    -2 ^ 64 ≤ balanceIn key data ∧ balanceIn key data ≤ 2 ^ 64 := by
  have hlow := Int64.le_toInt
  have hhigh := Int64.toInt_lt
  -- two reserves or a balance, each of 64 bits
  cases data with
  | account entry =>
      have := hlow entry.balance
      have := hhigh entry.balance
      simp only [balanceIn, entryBalances, List.filter_cons, List.filter_nil]
      split
      · simp
        omega
      · simp
  | trustline entry =>
      have := hlow entry.balance
      have := hhigh entry.balance
      simp only [balanceIn, entryBalances]
      cases trustlineEventAsset entry.asset with
      | none => simp
      | some asset =>
          simp only [Option.map_some, Option.toList_some, List.filter_cons, List.filter_nil]
          split
          · simp
            omega
          · simp
  | claimableBalance entry =>
      have := hlow entry.amount
      have := hhigh entry.amount
      simp only [balanceIn, entryBalances, List.filter_cons, List.filter_nil]
      split
      · simp
        omega
      · simp
  | liquidityPool entry =>
      have := hlow entry.reserveA
      have := hhigh entry.reserveA
      have := hlow entry.reserveB
      have := hhigh entry.reserveB
      simp only [balanceIn, entryBalances, List.filter_cons, List.filter_nil]
      split <;> split <;> simp <;> omega
  | offer | data | contractData | contractCode | configSetting | ttl => cases h

/-- The balances before and after an entry's changes are balances of the entry. -/
theorem balances_bounds {carrier : Carrier} (changes : List LedgerEntryChange) (key : BalanceKey) :
    -2 ^ 65 ≤ balanceAfter key (changesOf carrier changes) -
        balanceBefore key (changesOf carrier changes) ∧
      balanceAfter key (changesOf carrier changes) -
        balanceBefore key (changesOf carrier changes) ≤ 2 ^ 65 := by
  have himage : ∀ change ∈ changesOf carrier changes, ∀ data ∈ change.image,
      -2 ^ 64 ≤ balanceIn key data ∧ balanceIn key data ≤ 2 ^ 64 := by
    intro change hchange data hdata
    have hcarrier : change.carrier = some carrier :=
      of_decide_eq_true (List.mem_filter.mp hchange).2
    have hkey : data.key.carrier = some carrier := by
      cases change <;> cases hdata <;> exact hcarrier
    exact balanceIn_bounds hkey key
  -- a created entry had nothing
  have hbefore : -2 ^ 64 ≤ balanceBefore key (changesOf carrier changes) ∧
      balanceBefore key (changesOf carrier changes) ≤ 2 ^ 64 := by
    unfold balanceBefore
    split
    · rename_i hlist
      exact himage _ (hlist ▸ List.mem_cons_self) _ rfl
    · rename_i hlist
      exact himage _ (hlist ▸ List.mem_cons_self) _ rfl
    · omega
  -- a removed one has nothing left
  have hafter : -2 ^ 64 ≤ balanceAfter key (changesOf carrier changes) ∧
      balanceAfter key (changesOf carrier changes) ≤ 2 ^ 64 := by
    unfold balanceAfter
    cases hlast : (changesOf carrier changes).getLast?.bind LedgerEntryChange.image with
    | none => simp
    | some data =>
        obtain ⟨last, hmem, hdata⟩ := Option.bind_eq_some_iff.mp hlast
        exact himage last (List.mem_of_getLast? hmem) data hdata
  omega

/-! ## Telescoping -/

/-- The deltas reported for a holder and an asset are the one the holder's
entries of that asset add up to, or none if it is zero. -/
def Telescopes (changes : List LedgerEntryChange) (key : BalanceKey) : Prop :=
  (balanceDeltasOver changes).filter
      (fun delta => delta.account = key.account ∧ delta.asset = key.asset) =
    if movement changes key = 0 then []
    else [⟨key.account, key.asset, movement changes key⟩]

theorem balanceDeltasOver_telescopes (changes : List LedgerEntryChange)
    (hwell : WellFormed changes) (haddresses : AddressesApart changes)
    (hassets : AssetsApart changes) (key : BalanceKey) : Telescopes changes key := by
  unfold Telescopes
  rw [filter_balanceDeltasOver]
  by_cases howned : ∃ carrier, Owns changes carrier key
  · obtain ⟨carrier, howns⟩ := howned
    have hspan := span_own (ownChanges_changesOf haddresses hassets howns) (hwell.chained carrier)
    rw [spans_of_owner hwell haddresses hassets howns, movement_of_owner haddresses hassets howns]
    rcases hspan with hspan | ⟨hspan, hbefore, hafter⟩
    · rw [hspan, Option.bind_some, delta_eq key (balances_bounds changes key)]
      split <;> rfl
    · rw [hspan, hbefore, hafter]
      rfl
  · have hnone : ∀ carrier, ¬ Owns changes carrier key := fun carrier h => howned ⟨carrier, h⟩
    rw [spans_of_noOwner hwell hnone, movement_of_noOwner hnone]
    rfl

/-- Only the entries in a list of changes need to be followed. -/
theorem wellFormed_of_carriers {changes : List LedgerEntryChange}
    (hcarried : ∀ change ∈ changes, change.carrier ≠ none)
    (hchained : ∀ carrier ∈ changes.filterMap LedgerEntryChange.carrier,
      Chained .unseen (changesOf carrier changes)) : WellFormed changes where
  carried := fun change hchange hnone => absurd hnone (hcarried change hchange)
  chained := by
    intro carrier
    by_cases hmem : carrier ∈ changes.filterMap LedgerEntryChange.carrier
    · exact hchained carrier hmem
    · have hnil : changesOf carrier changes = [] := by
        rw [changesOf, List.filter_eq_nil_iff]
        intro change hchange hcarrier
        exact hmem (List.mem_filterMap.mpr ⟨change, hchange, of_decide_eq_true hcarrier⟩)
      rw [hnil]
      trivial

end

/-! ## A balance set aside and a trustline drained -/

/-- The pinned account with some lumens. -/
def lumens (balance : Int64) : LedgerEntry where
  lastModifiedLedgerSeq := 60000000
  data := .account
    { accountId := Crates.pinnedAccount, balance, seqNum := 7, numSubEntries := 0, flags := 0,
      homeDomain := [], thresholds := [1, 0, 0, 0], signers := [], sponsorship := none }

/-- A claimable balance of lumens for the pinned account. -/
def setAside (amount : Int64) : LedgerEntry where
  lastModifiedLedgerSeq := 60000000
  data := .claimableBalance
    { balanceId := 9, claimants := [Crates.pinnedAccount], asset := .native, amount }

/-- The pinned account's trustline to a credit of its own. -/
def trust (asset : TrustLineAsset) (balance : Int64) : LedgerEntry where
  lastModifiedLedgerSeq := 60000000
  data := .trustline
    { accountId := Crates.pinnedAccount, asset, balance, limit := 9223372036854775807, flags := 1 }

/-- The code `0xdeadbeef`, spelt out. -/
def deadbeefText : TrustLineAsset :=
  .creditAlphanum12 ⟨[0x30, 0x78, 0x64, 0x65, 0x61, 0x64, 0x62, 0x65, 0x65, 0x66, 0, 0], rfl⟩
    Crates.pinnedAccount

/-- The four bytes that render as that code. -/
def deadbeefBytes : TrustLineAsset :=
  .creditAlphanum4 ⟨[0xDE, 0xAD, 0xBE, 0xEF], rfl⟩ Crates.pinnedAccount

/-- 30 lumens set aside and claimed back, then 20 set aside for good, while a
trustline is drained and removed. -/
def interleaved : List LedgerEntryChange :=
  [.state (lumens 100), .created (setAside 30), .state (trust deadbeefText 5),
    .updated (lumens 70), .state (setAside 30), .updated (trust deadbeefText 0),
    .removed (.claimableBalance 9), .state (lumens 70), .state (trust deadbeefText 0),
    .updated (lumens 80), .removed (.trustline Crates.pinnedAccount deadbeefText),
    .created (setAside 20)]

theorem balanceDeltasOver_telescopes_interleaved :
    @Telescopes Crates.pinned interleaved ⟨Crates.pinnedAccountStrkey, .native⟩ ∧
      @movement Crates.pinned interleaved ⟨Crates.pinnedAccountStrkey, .native⟩ = -20 := by
  let _ : Crates := Crates.pinned
  have hcarriers : interleaved.filterMap LedgerEntryChange.carrier ⊆
      [.account Crates.pinnedAccount, .claimableBalance 9,
        .trustline Crates.pinnedAccount deadbeefText] := by decide
  have hwell : WellFormed interleaved := by
    apply wellFormed_of_carriers
    · decide
    · intro carrier hmem
      have hmem := hcarriers hmem
      simp only [List.mem_cons, List.not_mem_nil, or_false] at hmem
      rcases hmem with rfl | rfl | rfl
      · exact ⟨trivial, rfl, rfl, rfl, trivial⟩
      · exact ⟨trivial, rfl, trivial, trivial, trivial⟩
      · exact ⟨trivial, rfl, rfl, trivial, trivial⟩
  have haddresses : AddressesApart interleaved := by
    refine ⟨?_, by decide⟩
    intro id hid
    obtain ⟨carrier, hmem, hholder⟩ := List.mem_map.mp hid
    have hmem := hcarriers hmem
    simp only [List.mem_cons, List.not_mem_nil, or_false] at hmem
    rcases hmem with rfl | rfl | rfl <;> cases hholder <;> decide
  have hassets : AssetsApart interleaved := ⟨by decide, by decide⟩
  exact ⟨balanceDeltasOver_telescopes interleaved hwell haddresses hassets _, by decide⟩

/-! ## One text for two codes -/

/-- 50 gained on one trustline, nothing on the other. -/
def merged : List LedgerEntryChange :=
  [.state (trust deadbeefBytes 100), .updated (trust deadbeefBytes 150),
    .state (trust deadbeefText 7), .updated (trust deadbeefText 7)]

/-- Two trustlines of one holder whose codes read the same are accumulated
under one key, although each of them is well formed. -/
theorem not_telescopes_merged :
    ¬ ∀ changes : List LedgerEntryChange, @WellFormed Crates.pinned changes →
      @AddressesApart Crates.pinned changes → ∀ key, @Telescopes Crates.pinned changes key := by
  let _ : Crates := Crates.pinned
  intro h
  have hcarriers : merged.filterMap LedgerEntryChange.carrier ⊆
      [.trustline Crates.pinnedAccount deadbeefBytes,
        .trustline Crates.pinnedAccount deadbeefText] := by decide
  have hwell : WellFormed merged := by
    apply wellFormed_of_carriers
    · decide
    · intro carrier hmem
      have hmem := hcarriers hmem
      simp only [List.mem_cons, List.not_mem_nil, or_false] at hmem
      rcases hmem with rfl | rfl <;> exact ⟨trivial, rfl, trivial⟩
  have haddresses : AddressesApart merged := by
    refine ⟨?_, by decide⟩
    intro id hid
    obtain ⟨carrier, hmem, hholder⟩ := List.mem_map.mp hid
    have hmem := hcarriers hmem
    simp only [List.mem_cons, List.not_mem_nil, or_false] at hmem
    rcases hmem with rfl | rfl <;> cases hholder <;> decide
  have hmerged := h merged hwell haddresses
    ⟨Crates.pinnedAccountStrkey, .credit "0xdeadbeef" Crates.pinnedAccountStrkey⟩
  exact absurd hmerged (by unfold Telescopes; decide)

end SorobanExplorer
