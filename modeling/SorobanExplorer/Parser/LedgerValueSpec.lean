import Mathlib.Algebra.BigOperators.Group.Finset.Basic
import Mathlib.Algebra.Ring.Int.Defs
import SorobanExplorer.Parser.LedgerValue

/-!
# Deltas telescope

A list of changes is well formed when the changes of each single entry are:
what an image shows is what was written last, and an update or a removal
follows its image.  Then the delta reported for a holder and an asset is what
the holder's entries of that asset end with less what they began with, however
the changes of different entries interleave.

The invariant follows one entry.  While its changes run, the accumulator holds
under each of its keys the balance before all of them and the balance in the
entry now.
-/

namespace SorobanExplorer

open KeyedFold

/-- An entry that holds balances of classic assets. -/
inductive Carrier
  | account (id : AccountId)
  | trustline (id : AccountId) (asset : TrustLineAsset)
  | claimableBalance (id : Hash)
  | liquidityPool (id : Hash)
  deriving DecidableEq

def Carrier.holder : Carrier → ScAddress
  | .account id | .trustline id _ => .account id
  | .claimableBalance id => .claimableBalance id
  | .liquidityPool id => .liquidityPool id

def LedgerKey.carrier : LedgerKey → Option Carrier
  | .account id => some (.account id)
  | .trustline id asset => some (.trustline id asset)
  | .claimableBalance id => some (.claimableBalance id)
  | .liquidityPool id => some (.liquidityPool id)
  | _ => none

/-- The entry as a change shows it; a removal shows nothing. -/
def LedgerEntryChange.image : LedgerEntryChange → Option LedgerEntryData
  | .created entry | .updated entry | .state entry | .restored entry => some entry.data
  | .removed _ => none

def LedgerEntryChange.carrier : LedgerEntryChange → Option Carrier
  | .created entry | .updated entry | .state entry | .restored entry => entry.data.key.carrier
  | .removed key => key.carrier

/-- The changes of one entry. -/
def changesOf (carrier : Carrier) (changes : List LedgerEntryChange) : List LedgerEntryChange :=
  changes.filter (·.carrier = some carrier)

/-- What is known of an entry after some of its changes. -/
inductive EntryTrace
  | unseen
  | imaged (data : LedgerEntryData)
  | written (data : LedgerEntryData)
  | gone

def EntryTrace.after : LedgerEntryChange → EntryTrace
  | .state entry | .restored entry => .imaged entry.data
  | .created entry | .updated entry => .written entry.data
  | .removed _ => .gone

section

variable [Crates]

def balanceKeys (data : LedgerEntryData) : List BalanceKey :=
  (entryBalances data).map Prod.fst

def heldAssets (data : LedgerEntryData) : List LedgerAsset :=
  (entryBalances data).map fun balance => balance.1.asset

/-- What an entry holds under a key. -/
def balanceIn (key : BalanceKey) (data : LedgerEntryData) : ℤ :=
  (((entryBalances data).filter (·.1 = key)).map Prod.snd).sum

/-! ## The claim's terms -/

/-- Whether a change may come next for an entry.  An image shows the balances
last seen; an update keeps the assets; an update and a removal follow an image. -/
def EntryTrace.Allows : EntryTrace → LedgerEntryChange → Prop
  | .unseen, .state _ | .unseen, .restored _ | .unseen, .created _ | .gone, .created _ => True
  | .imaged data, .state entry | .imaged data, .restored entry
  | .written data, .state entry | .written data, .restored entry =>
      entryBalances entry.data = entryBalances data
  | .imaged data, .updated entry => balanceKeys entry.data = balanceKeys data
  | .imaged _, .removed _ => True
  | _, _ => False

/-- Whether a list of changes may follow for an entry. -/
def Chained : EntryTrace → List LedgerEntryChange → Prop
  | _, [] => True
  | trace, change :: rest => trace.Allows change ∧ Chained (.after change) rest

structure WellFormed (changes : List LedgerEntryChange) : Prop where
  /-- Entries of the other kinds hold nothing. -/
  carried : ∀ change ∈ changes, change.carrier = none →
    ∀ data ∈ change.image, entryBalances data = []
  chained : ∀ carrier, Chained .unseen (changesOf carrier changes)

/-- The holders of the entries in a list of changes. -/
def holders (changes : List LedgerEntryChange) : List ScAddress :=
  (changes.filterMap LedgerEntryChange.carrier).map Carrier.holder

/-- The assets in a list of changes, each with the entry it is shown in. -/
def shownAssets (changes : List LedgerEntryChange) : List (Carrier × LedgerAsset) :=
  changes.flatMap fun change =>
    match change.carrier, change.image with
    | some carrier, some data => (heldAssets data).map fun asset => (carrier, asset)
    | _, _ => []

/-- The addresses of the holders in a list of changes render apart. -/
structure AddressesApart (changes : List LedgerEntryChange) : Prop where
  account : ∀ id, .account id ∈ holders changes →
    Crates.accountStrkey id = Crates.scAddressStrkey (.account id)
  injective : ∀ holder ∈ holders changes, ∀ holder' ∈ holders changes,
    Crates.scAddressStrkey holder = Crates.scAddressStrkey holder' → holder = holder'

/-- No asset text is held twice by one holder: neither in two of its entries
nor twice in one. -/
structure AssetsApart (changes : List LedgerEntryChange) : Prop where
  entries : ∀ shown ∈ shownAssets changes, ∀ shown' ∈ shownAssets changes,
    shown.1.holder = shown'.1.holder → shown.2 = shown'.2 → shown.1 = shown'.1
  nodup : ∀ data ∈ changes.filterMap LedgerEntryChange.image, (heldAssets data).Nodup

/-- The balance under a key before an entry's changes: that of the image they
begin with, or nothing. -/
def balanceBefore (key : BalanceKey) : List LedgerEntryChange → ℤ
  | .state entry :: _ | .restored entry :: _ => balanceIn key entry.data
  | _ => 0

/-- The balance under a key after an entry's changes: that of the entry last
shown, or nothing if it was removed. -/
def balanceAfter (key : BalanceKey) (changes : List LedgerEntryChange) : ℤ :=
  (changes.getLast?.bind LedgerEntryChange.image).elim 0 (balanceIn key)

/-- What the entries of a list of changes gained under a key, all together. -/
def movement (changes : List LedgerEntryChange) (key : BalanceKey) : ℤ :=
  ∑ carrier ∈ (changes.filterMap LedgerEntryChange.carrier).toFinset,
    (balanceAfter key (changesOf carrier changes) - balanceBefore key (changesOf carrier changes))

end

/-! ## One key at a time -/

theorem filter_orderedSpans (spans : Table BalanceKey BalanceSpan) (key : BalanceKey) :
    (orderedSpans spans).filter (fun entry => entry.1 = key) =
      (spans.lookup key).toList.map fun span => ⟨key, span⟩ := by
  have hperm : ((orderedSpans spans).filter fun entry => entry.1 = key).Perm
      (spans.entries.filter fun entry => entry.1 = key) :=
    (List.perm_insertionSort _ spans.entries).filter _
  rw [filter_entries] at hperm
  cases h : spans.lookup key with
  | none =>
      rw [h] at hperm
      exact hperm.eq_nil
  | some span =>
      rw [h] at hperm
      exact List.perm_singleton.mp hperm

theorem key_of_mem_delta {key : BalanceKey} {span : BalanceSpan} {delta : LedgerDelta}
    (h : span.delta key = some delta) : BalanceKey.mk delta.account delta.asset = key := by
  unfold BalanceSpan.delta at h
  split at h
  · cases h
  · split at h
    · cases h
      rfl
    · cases h

theorem fits_of_mem_delta {key : BalanceKey} {span : BalanceSpan} {delta : LedgerDelta}
    (h : span.delta key = some delta) : -2 ^ 127 ≤ delta.delta ∧ delta.delta < 2 ^ 127 := by
  unfold BalanceSpan.delta checkedSubI128 at h
  split at h
  · cases h
  · rename_i difference hdifference
    split at h
    · cases h
      split at hdifference
      · rename_i hfits
        exact Option.some.inj hdifference ▸ hfits
      · cases hdifference
    · cases h

/-- One delta for each account and asset. -/
theorem nodup_orderedSpans_delta (spans : Table BalanceKey BalanceSpan) :
    (((orderedSpans spans).filterMap fun entry => entry.2.delta entry.1).map fun d =>
      (d.account, d.asset)).Nodup := by
  have hkeys : ((orderedSpans spans).map fun entry => entry.1).Nodup :=
    ((List.perm_insertionSort _ spans.entries).map _).nodup_iff.mpr spans.nodupKeys
  have hdistinct : (orderedSpans spans).Pairwise fun entry other => entry.1 ≠ other.1 :=
    List.pairwise_map.mp hkeys
  refine List.pairwise_map.mpr (hdistinct.filterMap _ ?_)
  intro entry other hne d hd d' hd' hsame
  apply hne
  rw [← key_of_mem_delta hd, ← key_of_mem_delta hd', (Prod.mk.inj hsame).1, (Prod.mk.inj hsame).2]

theorem delta_eq (key : BalanceKey) {before after : ℤ}
    (h : -2 ^ 65 ≤ after - before ∧ after - before ≤ 2 ^ 65) :
    BalanceSpan.delta key ⟨some before, after⟩ =
      if after - before = 0 then none else some ⟨key.account, key.asset, after - before⟩ := by
  have hfits : -2 ^ 127 ≤ after - before ∧ after - before < 2 ^ 127 := by omega
  simp only [BalanceSpan.delta, checkedSubI128, Option.getD_some, hfits, and_self, if_true]
  split <;> simp_all

section

variable [Crates]

/-- What a removal does to what the accumulator holds under a key. -/
def spanRemoved (key : BalanceKey) (removed : LedgerKey) (held : Option BalanceSpan) :
    Option BalanceSpan :=
  match removedHolder removed with
  | some holder => if key.account = holder then held.map BalanceSpan.drop else held
  | none =>
      if removedBalanceKey removed = some key then some (BalanceSpan.orFresh held).drop else held

/-- What an entry does to what the accumulator holds under a key. -/
def spanSeen (key : BalanceKey) (created : Bool) (data : LedgerEntryData)
    (held : Option BalanceSpan) : Option BalanceSpan :=
  history key ((entryBalances data).map (recordOne created)) held

/-- What one change does to what the accumulator holds under a key. -/
def spanAfter (key : BalanceKey) (held : Option BalanceSpan) :
    LedgerEntryChange → Option BalanceSpan
  | .state entry | .restored entry | .updated entry => spanSeen key false entry.data held
  | .created entry => spanSeen key true entry.data held
  | .removed removed => spanRemoved key removed held

theorem lookup_recordRemoved (key : BalanceKey) (spans : Table BalanceKey BalanceSpan)
    (removed : LedgerKey) :
    (recordRemoved spans removed).lookup key = spanRemoved key removed (spans.lookup key) := by
  unfold recordRemoved spanRemoved
  cases removedHolder removed with
  | some holder =>
      simp only [lookup_modifyWhere, decide_eq_true_eq]
  | none =>
      cases removedBalanceKey removed with
      | none => simp
      | some balance =>
          simp only [lookup_run, Option.some.injEq]

theorem lookup_recordChange (key : BalanceKey) (spans : Table BalanceKey BalanceSpan)
    (change : LedgerEntryChange) :
    (recordChange spans change).lookup key = spanAfter key (spans.lookup key) change := by
  cases change with
  | created entry | updated entry | state entry | restored entry => exact lookup_runAll _ _ _
  | removed removed => exact lookup_recordRemoved key spans removed

theorem lookup_spans (key : BalanceKey) (changes : List LedgerEntryChange) :
    (changes.foldl recordChange (∅ : Table BalanceKey BalanceSpan)).lookup key =
      changes.foldl (spanAfter key) none :=
  lookup_foldl (lookup_recordChange key) changes ∅

/-- The deltas reported under a key are read from what the accumulator holds there. -/
theorem filter_balanceDeltasOver (changes : List LedgerEntryChange) (key : BalanceKey) :
    (balanceDeltasOver changes).filter
        (fun delta => delta.account = key.account ∧ delta.asset = key.asset) =
      ((changes.foldl (spanAfter key) none).bind (BalanceSpan.delta key)).toList := by
  -- a delta is reported under the key it is held at
  have hpush : ∀ entries : List (Sigma fun _ : BalanceKey => BalanceSpan),
      (entries.filterMap fun entry => entry.2.delta entry.1).filter
          (fun delta => delta.account = key.account ∧ delta.asset = key.asset) =
        (entries.filter fun entry => entry.1 = key).filterMap
          fun entry => entry.2.delta entry.1 := by
    intro entries
    rw [List.filter_filterMap, List.filterMap_filter]
    apply List.filterMap_congr
    intro entry _
    cases h : entry.2.delta entry.1 with
    | none => simp
    | some delta =>
        have hkey := key_of_mem_delta h
        by_cases hentry : entry.1 = key
        · rw [hentry] at hkey
          simp [hentry, ← hkey]
        · have hne : ¬ (delta.account = key.account ∧ delta.asset = key.asset) := by
            rintro ⟨haccount, hasset⟩
            apply hentry
            rw [← hkey, haccount, hasset]
          have hdrop : decide (delta.account = key.account ∧ delta.asset = key.asset) = false :=
            decide_eq_false hne
          simp [hentry, Option.filter, hdrop]
  unfold balanceDeltasOver
  rw [hpush, filter_orderedSpans, lookup_spans]
  cases (changes.foldl (spanAfter key) none) with
  | none => rfl
  | some span => cases h : span.delta key <;> simp [h]

/-! ## One entry under one key -/

theorem balanceIn_eq_zero {key : BalanceKey} {data : LedgerEntryData}
    (h : key ∉ balanceKeys data) : balanceIn key data = 0 := by
  have hnone : (entryBalances data).filter (·.1 = key) = [] := by
    rw [List.filter_eq_nil_iff]
    intro balance hbalance
    simp only [decide_eq_true_eq]
    rintro rfl
    exact h (List.mem_map_of_mem hbalance)
  simp [balanceIn, hnone]

theorem spanSeen_of_notMem {key : BalanceKey} {data : LedgerEntryData}
    (h : key ∉ balanceKeys data) (created : Bool) (held : Option BalanceSpan) :
    spanSeen key created data held = held := by
  apply history_eq_of_forall_ne
  intro update hupdate
  obtain ⟨balance, hbalance, rfl⟩ := List.mem_map.mp hupdate
  rintro rfl
  exact h (List.mem_map_of_mem hbalance)

theorem spanSeen_of_mem {key : BalanceKey} {data : LedgerEntryData}
    (hnodup : (balanceKeys data).Nodup) (h : key ∈ balanceKeys data) (created : Bool)
    (held : Option BalanceSpan) :
    spanSeen key created data held = some (BalanceSpan.see created (balanceIn key data) held) := by
  unfold spanSeen balanceIn
  unfold balanceKeys at hnodup h
  generalize entryBalances data = balances at hnodup h ⊢
  induction balances with
  | nil => simp at h
  | cons balance rest ih =>
      rw [List.map_cons, List.nodup_cons] at hnodup
      rw [List.map_cons, history_cons]
      by_cases hkey : balance.1 = key
      · -- the entry's only balance under the key
        have hrest : ∀ other ∈ rest, other.1 ≠ key := by
          rintro other hother rfl
          exact hnodup.1 (hkey ▸ List.mem_map_of_mem hother)
        have hnone : rest.filter (·.1 = key) = [] := by
          simpa [List.filter_eq_nil_iff] using hrest
        rw [history_eq_of_forall_ne]
        · simp [recordOne, hkey, hnone]
        · intro update hupdate
          obtain ⟨other, hother, rfl⟩ := List.mem_map.mp hupdate
          exact hrest other hother
      · have hmem : key ∈ rest.map Prod.fst := by
          simpa [Ne.symm hkey] using h
        have hskip : (recordOne created balance).key ≠ key := hkey
        rw [if_neg hskip, ih hnodup.2 hmem, List.filter_cons_of_neg (by simpa using hkey)]

/-- The entry a trace knows. -/
def EntryTrace.image : EntryTrace → Option LedgerEntryData
  | .imaged data | .written data => some data
  | .unseen | .gone => none

def EntryTrace.keys (trace : EntryTrace) : List BalanceKey :=
  trace.image.elim [] balanceKeys

def EntryTrace.balance (key : BalanceKey) (trace : EntryTrace) : ℤ :=
  trace.image.elim 0 (balanceIn key)

theorem EntryTrace.balance_eq_zero {key : BalanceKey} {trace : EntryTrace}
    (h : key ∉ trace.keys) : trace.balance key = 0 := by
  unfold EntryTrace.keys at h
  unfold EntryTrace.balance
  cases himage : trace.image with
  | none => rfl
  | some data =>
      rw [himage] at h
      exact balanceIn_eq_zero h

/-- The invariant of one entry under one of its keys: the accumulator holds the
balance before all changes and the one in the entry now, or nothing yet if there
was none before and is none now. -/
def Tracks (key : BalanceKey) (before : ℤ) (trace : EntryTrace) (held : Option BalanceSpan) :
    Prop :=
  held = some ⟨some before, trace.balance key⟩ ∨ held = none ∧ before = 0 ∧ key ∉ trace.keys

/-- A shown entry keeps the invariant, if it was just created or has the assets
it had before. -/
theorem Tracks.seen {key : BalanceKey} {before : ℤ} {trace next : EntryTrace}
    {held : Option BalanceSpan} {created : Bool} {data : LedgerEntryData}
    (h : Tracks key before trace held) (hnodup : (balanceKeys data).Nodup)
    (hkeys : created = true ∧ trace.keys = [] ∨ balanceKeys data = trace.keys)
    (hnext : next.image = some data) :
    Tracks key before next (spanSeen key created data held) := by
  have hbalance : next.balance key = balanceIn key data := by
    simp [EntryTrace.balance, hnext]
  have hnextKeys : next.keys = balanceKeys data := by
    simp [EntryTrace.keys, hnext]
  unfold Tracks
  rw [hbalance, hnextKeys]
  by_cases hmem : key ∈ balanceKeys data
  · left
    rw [spanSeen_of_mem hnodup hmem]
    rcases h with rfl | ⟨rfl, rfl, hnot⟩
    · simp [BalanceSpan.see, BalanceSpan.orFresh]
    · rcases hkeys with ⟨rfl, -⟩ | hsame
      · simp [BalanceSpan.see, BalanceSpan.orFresh]
      · exact absurd (hsame ▸ hmem) hnot
  · rw [spanSeen_of_notMem hmem, balanceIn_eq_zero hmem]
    -- the entry does not have the key, and did not before
    rcases h with rfl | ⟨rfl, rfl, -⟩
    · left
      have hbefore : key ∉ trace.keys := by
        rcases hkeys with ⟨-, hnil⟩ | hsame
        · simp [hnil]
        · rwa [← hsame]
      rw [EntryTrace.balance_eq_zero hbefore]
    · right
      exact ⟨rfl, rfl, hmem⟩

/-- The entry a removed account or trustline was had one key, the one removed. -/
theorem balanceKeys_eq {data : LedgerEntryData} {removed : LedgerKey} {carrier : Carrier}
    (hdata : data.key.carrier = some carrier) (hremoved : removed.carrier = some carrier)
    (hholder : removedHolder removed = none) :
    balanceKeys data = (removedBalanceKey removed).toList := by
  cases removed <;> simp only [LedgerKey.carrier, reduceCtorEq, Option.some.injEq] at hremoved <;>
    subst hremoved <;> cases data <;>
    simp_all [LedgerKey.carrier, LedgerEntryData.key, removedHolder, balanceKeys, entryBalances,
      removedBalanceKey]
  rename_i accountId asset entry
  cases trustlineEventAsset asset <;> rfl

/-- A removal keeps the invariant. -/
theorem Tracks.removed {key : BalanceKey} {before : ℤ} {data : LedgerEntryData}
    {removed : LedgerKey} {carrier : Carrier} {held : Option BalanceSpan}
    (h : Tracks key before (.imaged data) held)
    (hdata : data.key.carrier = some carrier) (hremoved : removed.carrier = some carrier)
    (hholder : ∀ holder, removedHolder removed = some holder → key.account = holder) :
    Tracks key before .gone (spanRemoved key removed held) := by
  have hgone : EntryTrace.balance key .gone = 0 := rfl
  unfold Tracks spanRemoved
  rw [hgone]
  cases hcase : removedHolder removed with
  | some holder =>
      simp only [hholder holder hcase, if_true]
      rcases h with rfl | ⟨rfl, rfl, -⟩
      · left
        rfl
      · right
        exact ⟨rfl, rfl, List.not_mem_nil⟩
  | none =>
      -- a removal that names a key names the entry's own
      have hkeys := balanceKeys_eq hdata hremoved hcase
      by_cases hkey : removedBalanceKey removed = some key
      · rw [hkey] at hkeys
        rcases h with rfl | ⟨-, -, hnot⟩
        · left
          simp [hkey, BalanceSpan.orFresh, BalanceSpan.drop]
        · exact absurd (by simp [EntryTrace.keys, EntryTrace.image, hkeys]) hnot
      · have hnot : key ∉ EntryTrace.keys (.imaged data) := by
          simp only [EntryTrace.keys, EntryTrace.image, Option.elim_some, hkeys, Option.mem_toList]
          exact hkey
        simp only [hkey, if_false]
        rcases h with rfl | ⟨rfl, rfl, -⟩
        · left
          rw [EntryTrace.balance_eq_zero hnot]
        · right
          exact ⟨rfl, rfl, List.not_mem_nil⟩

/-! ## All changes of one entry -/

theorem balanceAfter_cons {key : BalanceKey} (change : LedgerEntryChange)
    (rest : List LedgerEntryChange) :
    balanceAfter key (change :: rest) =
      if rest = [] then (EntryTrace.after change).balance key else balanceAfter key rest := by
  cases rest with
  | nil => cases change <;> rfl
  | cons next rest => simp [balanceAfter, List.getLast?_cons_cons]

/-- The accumulator and the key it is read under, after the changes of the
entry that owns the key. -/
structure OwnChanges (key : BalanceKey) (carrier : Carrier) (changes : List LedgerEntryChange) :
    Prop where
  carrier : ∀ change ∈ changes, change.carrier = some carrier
  nodup : ∀ change ∈ changes, ∀ data ∈ change.image, (balanceKeys data).Nodup
  holder : ∀ change ∈ changes, ∀ removed, change = .removed removed →
    ∀ holder, removedHolder removed = some holder → key.account = holder

theorem OwnChanges.tail {key : BalanceKey} {carrier : Carrier} {change : LedgerEntryChange}
    {rest : List LedgerEntryChange} (h : OwnChanges key carrier (change :: rest)) :
    OwnChanges key carrier rest where
  carrier := fun other hother => h.carrier other (List.mem_cons_of_mem _ hother)
  nodup := fun other hother => h.nodup other (List.mem_cons_of_mem _ hother)
  holder := fun other hother => h.holder other (List.mem_cons_of_mem _ hother)

/-- The first change establishes the invariant. -/
theorem Tracks.first {key : BalanceKey} {carrier : Carrier} {change : LedgerEntryChange}
    {rest : List LedgerEntryChange} (hown : OwnChanges key carrier (change :: rest))
    (hallows : EntryTrace.unseen.Allows change) :
    Tracks key (balanceBefore key (change :: rest)) (.after change) (spanAfter key none change) := by
  have hnodup := hown.nodup change List.mem_cons_self
  cases change with
  | created entry =>
      have hunseen : Tracks key 0 .unseen none := .inr ⟨rfl, rfl, List.not_mem_nil⟩
      exact hunseen.seen (hnodup _ rfl) (.inl ⟨rfl, rfl⟩) rfl
  | state entry | restored entry =>
      show Tracks key (balanceIn key entry.data) (.imaged entry.data)
        (spanSeen key false entry.data none)
      by_cases hmem : key ∈ balanceKeys entry.data
      · left
        rw [spanSeen_of_mem (hnodup _ rfl) hmem]
        rfl
      · right
        exact ⟨spanSeen_of_notMem hmem false none, balanceIn_eq_zero hmem, hmem⟩
  | updated entry | removed removed => exact hallows.elim

/-- One allowed change keeps the invariant. -/
theorem Tracks.step {key : BalanceKey} {before : ℤ} {trace : EntryTrace}
    {held : Option BalanceSpan} {carrier : Carrier} {change : LedgerEntryChange}
    {rest : List LedgerEntryChange} (h : Tracks key before trace held)
    (hown : OwnChanges key carrier (change :: rest)) (hallows : trace.Allows change)
    (hdata : ∀ data ∈ trace.image, data.key.carrier = some carrier) (hseen : trace ≠ .unseen) :
    Tracks key before (.after change) (spanAfter key held change) := by
  have hnodup := hown.nodup change List.mem_cons_self
  have hcarrier := hown.carrier change List.mem_cons_self
  have hholder := hown.holder change List.mem_cons_self
  cases change with
  | created entry =>
      apply h.seen (hnodup _ rfl) (.inl ⟨rfl, ?_⟩) rfl
      cases trace with
      | gone => rfl
      | unseen => exact absurd rfl hseen
      | imaged data | written data => exact hallows.elim
  | updated entry =>
      apply h.seen (hnodup _ rfl) (.inr ?_) rfl
      -- only an entry that was shown before it is written
      cases trace with
      | imaged data => exact hallows
      | unseen | written data | gone => exact hallows.elim
  | state entry | restored entry =>
      apply h.seen (hnodup _ rfl) (.inr ?_) rfl
      cases trace with
      | imaged data | written data => exact congrArg (List.map Prod.fst) hallows
      | unseen => exact absurd rfl hseen
      | gone => exact hallows.elim
  | removed removed =>
      cases trace with
      | imaged data => exact h.removed (hdata data rfl) hcarrier fun holder => hholder _ rfl holder
      | unseen | written data | gone => exact hallows.elim

/-- All changes after the first keep it. -/
theorem Tracks.run {key : BalanceKey} {before : ℤ} {carrier : Carrier} :
    ∀ {rest : List LedgerEntryChange} {change : LedgerEntryChange} {held : Option BalanceSpan},
      Tracks key before (.after change) held → OwnChanges key carrier (change :: rest) →
      Chained (.after change) rest →
      ∃ last : EntryTrace, Tracks key before last (rest.foldl (spanAfter key) held) ∧
        last.balance key = balanceAfter key (change :: rest) := by
  intro rest
  induction rest with
  | nil =>
      intro change held h _ _
      exact ⟨.after change, h, by rw [balanceAfter_cons, if_pos rfl]⟩
  | cons next rest ih =>
      intro change held h hown hchained
      have hcarrier := hown.carrier change List.mem_cons_self
      have hdata : ∀ data ∈ (EntryTrace.after change).image,
          data.key.carrier = some carrier := by
        intro data hmem
        cases change <;> cases hmem <;> exact hcarrier
      have hseen : EntryTrace.after change ≠ .unseen := by
        cases change <;> exact nofun
      have hstep := h.step hown.tail hchained.1 hdata hseen
      obtain ⟨last, hlast, hbalance⟩ := ih hstep hown.tail hchained.2
      refine ⟨last, hlast, ?_⟩
      rw [hbalance, balanceAfter_cons change, if_neg (List.cons_ne_nil _ _)]

/-- What the changes of one entry leave under one of its keys. -/
theorem span_own {key : BalanceKey} {carrier : Carrier} {changes : List LedgerEntryChange}
    (hown : OwnChanges key carrier changes) (hchained : Chained .unseen changes) :
    changes.foldl (spanAfter key) none =
        some ⟨some (balanceBefore key changes), balanceAfter key changes⟩ ∨
      changes.foldl (spanAfter key) none = none ∧
        balanceBefore key changes = 0 ∧ balanceAfter key changes = 0 := by
  cases changes with
  | nil => exact .inr ⟨rfl, rfl, rfl⟩
  | cons change rest =>
      obtain ⟨last, hlast, hbalance⟩ := (Tracks.first hown hchained.1).run hown hchained.2
      rw [List.foldl_cons, ← hbalance]
      rcases hlast with h | ⟨h, hbefore, hnot⟩
      · left
        exact h
      · right
        exact ⟨h, hbefore, EntryTrace.balance_eq_zero hnot⟩

end

end SorobanExplorer
