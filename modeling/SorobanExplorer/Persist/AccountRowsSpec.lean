import SorobanExplorer.Persist.AccountRows

/-!
# What an account row says

The last live account entry of a transaction gives its state a sequence number and,
unless empty, a home domain; over the ledger the last state with either gives it to the
row.  So the sequence number is that of the last live entry of the ledger, and the home
domain that of the last entry that has one.
-/

namespace SorobanExplorer

open KeyedFold Text

/-! ## Live entries -/

def LedgerEntryData.account? : LedgerEntryData → Option AccountEntry
  | .account entry => some entry
  | _ => none

/-- The account entry a change leaves. -/
def LedgerEntryChange.liveAccount? : LedgerEntryChange → Option AccountEntry
  | .created entry | .updated entry | .restored entry => entry.data.account?
  | .state _ | .removed _ => none

/-- The home domain of an entry, if it has one. -/
def AccountEntry.domain (entry : AccountEntry) : Option String :=
  (some (fromUtf8Lossy entry.homeDomain)).filter (· ≠ "")

/-- The data of a change, if it is a live account entry of an address. -/
def liveData (address : String) (change : ExtractedLedgerEntryChange) : Option Json :=
  if change.entryType = "account" ∧ change.isLive then
    change.data.filter fun data => data.strField "account_id" = address
  else none

/-- The home domain in a data, unless empty. -/
def domainField (data : Json) : Option String :=
  ((data.get? "home_domain").bind Json.asStr).filter (· ≠ "")

section

variable [Crates]

/-- The live account entries of an address, in order. -/
def liveEntries (address : String) (changes : List LedgerEntryChange) : List AccountEntry :=
  (changes.filterMap LedgerEntryChange.liveAccount?).filter fun entry =>
    Crates.accountStrkey entry.accountId = address

/-- The data of an image is that of the account entry it is of. -/
theorem liveData_image (address : String) {extracted : ExtractedLedgerEntryChange}
    (hlive : extracted.isLive = true) {data : LedgerEntryData}
    (htype : extracted.entryType = (extractEntryInfo data).1)
    (hdata : extracted.data = some (extractEntryInfo data).2.2) :
    liveData address extracted =
      (data.account?.filter fun entry => Crates.accountStrkey entry.accountId = address).map
        accountData := by
  cases data with
  | account entry =>
      have hid : (accountData entry).strField "account_id" =
          Crates.accountStrkey entry.accountId := by
        simp [Json.strField, accountData]
      simp only [extractEntryInfo] at htype hdata
      by_cases hown : Crates.accountStrkey entry.accountId = address
      · simp [liveData, htype, hlive, hdata, hid, hown, LedgerEntryData.account?, Option.filter]
      · simp [liveData, htype, hlive, hdata, hid, hown, LedgerEntryData.account?, Option.filter]
  | _ => simp [liveData, htype, extractEntryInfo, LedgerEntryData.account?]

/-- The data of a change is that of the account entry it leaves. -/
theorem liveData_extracted (address : String) (change : LedgerEntryChange)
    (operationIndex : Option ℕ) (transactionHash : String) (ledgerSequence : UInt32)
    (createdAt : ℤ) (index : ℕ) :
    liveData address (extractSingleChange change operationIndex transactionHash ledgerSequence
        createdAt index) =
      (change.liveAccount?.filter fun entry => Crates.accountStrkey entry.accountId = address).map
        accountData := by
  cases change with
  | created entry | updated entry | restored entry =>
      exact liveData_image address rfl rfl rfl
  | state entry | removed key =>
      simp [liveData, ExtractedLedgerEntryChange.isLive, extractSingleChange, changeInfo,
        changeInfo.imageInfo, LedgerEntryChange.liveAccount?]

/-- The data read off a transaction is that of its live entries. -/
theorem filterMap_liveData (address : String) (txMeta : TransactionMeta)
    (transactionHash : String) (ledgerSequence : UInt32) (createdAt : ℤ) :
    (extractLedgerEntryChanges txMeta transactionHash ledgerSequence createdAt).filterMap
        (liveData address) =
      (liveEntries address (ledgerChanges txMeta)).map accountData := by
  have hread : ∀ (extracted : ExtractedLedgerEntryChange) (change : LedgerEntryChange),
      (∃ operationIndex index, extracted = extractSingleChange change operationIndex
        transactionHash ledgerSequence createdAt index) →
      liveData address extracted = (change.liveAccount?.filter
        fun entry => Crates.accountStrkey entry.accountId = address).map accountData := by
    rintro extracted change ⟨operationIndex, index, rfl⟩
    exact liveData_extracted address change operationIndex _ _ _ index
  rw [filterMap_eq_of_forall₂ hread (extractLedgerEntryChanges_forall₂ txMeta transactionHash
    ledgerSequence createdAt), liveEntries, ← List.filterMap_eq_filter, List.filterMap_filterMap,
    List.map_filterMap]
  apply List.filterMap_congr
  intro change _
  cases change.liveAccount? <;> rfl

theorem seqNum_accountData (entry : AccountEntry) :
    (accountData entry).i64Field "seq_num" = entry.seqNum.toInt := by
  have hget : (accountData entry).get? "seq_num" = some (.num entry.seqNum.toInt) := rfl
  simp [Json.i64Field, hget, asI64_int64]

/-! ## One transaction -/

variable {address : String}

omit [Crates] in
theorem orFresh_read (held : Option AccountAccum) (change : ExtractedLedgerEntryChange) :
    (AccountAccum.orFresh held change).sequenceNumber = held.bind (·.sequenceNumber) ∧
      (AccountAccum.orFresh held change).homeDomain = held.bind (·.homeDomain) := by
  cases held <;> exact ⟨rfl, rfl⟩

omit [Crates] in
theorem history_single (key : String) (f : Option AccountAccum → AccountAccum)
    (held : Option AccountAccum) :
    history address (some ⟨key, f⟩ : Option (Update String AccountAccum)).toList held =
      if key = address then some (f held) else held := by
  rw [Option.toList_some, history_cons, history_nil]

omit [Crates] in
/-- What a change to an account does to what is read off its accumulator. -/
theorem read_accountUpdate (haddress : address ≠ "") (change : ExtractedLedgerEntryChange)
    (held : Option AccountAccum) :
    let after := history address (accountUpdate change).toList held
    after.bind (·.sequenceNumber) =
        ((liveData address change).map (·.i64Field "seq_num")).or (held.bind (·.sequenceNumber)) ∧
      after.bind (·.homeDomain) =
        ((liveData address change).bind domainField).or (held.bind (·.homeDomain)) := by
  intro after
  obtain ⟨hsequence, hdomain⟩ := orFresh_read held change
  by_cases htype : change.entryType = "account"
  · by_cases hremoved : change.changeType = "removed"
    · have hlive : change.isLive = false := by
        simp [ExtractedLedgerEntryChange.isLive, hremoved]
      -- a removal names no live entry
      have hnone : liveData address change = none := by simp [liveData, hlive]
      rw [hnone]
      by_cases hid : change.key.strField "account_id" = ""
      · simp [after, accountUpdate, htype, hremoved, hid]
      · have hafter : after = if change.key.strField "account_id" = address then
            some (AccountAccum.removeAccount change held) else held := by
          simp only [after, accountUpdate, htype, hremoved, hid, ne_eq, not_true_eq_false, if_false,
            if_true]
          exact history_single _ _ held
        rw [hafter]
        split_ifs
        · exact ⟨hsequence, hdomain⟩
        · exact ⟨rfl, rfl⟩
    · cases hlive : change.isLive with
      | false => simp [after, accountUpdate, liveData, htype, hremoved, hlive]
      | true =>
          cases hdata : change.data with
          | none => simp [after, accountUpdate, liveData, htype, hremoved, hlive, hdata]
          | some data =>
              by_cases hid : data.strField "account_id" = ""
              · have hread : liveData address change = none := by
                  simp [liveData, htype, hlive, hdata, hid, haddress.symm]
                rw [hread]
                simp [after, accountUpdate, htype, hremoved, hlive, hdata, hid]
              · have hafter : after = if data.strField "account_id" = address then
                    some (AccountAccum.setAccount change data held) else held := by
                  simp only [after, accountUpdate, htype, hremoved, hlive, hdata, hid, ne_eq,
                    not_true_eq_false, if_false, Bool.true_eq_false]
                  exact history_single _ _ held
                rw [hafter]
                -- an account's accumulator is touched by its own changes alone
                by_cases hown : data.strField "account_id" = address
                · have hread : liveData address change = some data := by
                    simp [liveData, htype, hlive, hdata, hown]
                  rw [if_pos hown, hread]
                  exact ⟨rfl, congrArg (Option.or (domainField data)) hdomain⟩
                · have hread : liveData address change = none := by
                    simp [liveData, htype, hlive, hdata, hown]
                  rw [if_neg hown, hread]
                  exact ⟨rfl, rfl⟩
  · simp [after, accountUpdate, liveData, htype]

omit [Crates] in
theorem touch_read (change : ExtractedLedgerEntryChange) (entry : AccountAccum) :
    (AccountAccum.touch change entry).sequenceNumber = entry.sequenceNumber ∧
      (AccountAccum.touch change entry).homeDomain = entry.homeDomain := by
  unfold AccountAccum.touch
  split_ifs <;> exact ⟨rfl, rfl⟩

omit [Crates] in
/-- A change to a trustline does nothing to it. -/
theorem read_trustlineUpdate (change : ExtractedLedgerEntryChange) (held : Option AccountAccum) :
    let after := history address (trustlineUpdate change).toList held
    after.bind (·.sequenceNumber) = held.bind (·.sequenceNumber) ∧
      after.bind (·.homeDomain) = held.bind (·.homeDomain) := by
  intro after
  obtain ⟨hsequence, hdomain⟩ := orFresh_read held change
  have hset : ∀ trustline,
      (AccountAccum.setTrustline change trustline held).sequenceNumber =
          held.bind (·.sequenceNumber) ∧
        (AccountAccum.setTrustline change trustline held).homeDomain = held.bind (·.homeDomain) :=
    fun trustline => ⟨(touch_read change _).1.trans hsequence, (touch_read change _).2.trans hdomain⟩
  have hremove : ∀ removal,
      (AccountAccum.removeTrustline change removal held).sequenceNumber =
          held.bind (·.sequenceNumber) ∧
        (AccountAccum.removeTrustline change removal held).homeDomain = held.bind (·.homeDomain) :=
    fun removal => ⟨(touch_read change _).1.trans hsequence, (touch_read change _).2.trans hdomain⟩
  -- whichever update it is, the two fields stay
  have hkept : ∀ key f, trustlineUpdate change = some ⟨key, f⟩ →
      (f held).sequenceNumber = held.bind (·.sequenceNumber) ∧
        (f held).homeDomain = held.bind (·.homeDomain) := by
    intro key f hupdate
    unfold trustlineUpdate at hupdate
    split_ifs at hupdate
    · split at hupdate
      · cases hupdate
      · dsimp only at hupdate
        split_ifs at hupdate
        obtain ⟨asset, -, heq⟩ := Option.map_eq_some_iff.mp hupdate
        obtain ⟨-, rfl⟩ := Update.mk.inj heq
        exact hset _
    · dsimp only at hupdate
      split_ifs at hupdate
      obtain ⟨asset, -, heq⟩ := Option.map_eq_some_iff.mp hupdate
      obtain ⟨-, rfl⟩ := Update.mk.inj heq
      exact hremove _
  cases hupdate : trustlineUpdate change with
  | none => simp [after, hupdate]
  | some update =>
      obtain ⟨key, f⟩ := update
      have hafter : after = if key = address then some (f held) else held := by
        simp only [after, hupdate]
        exact history_single key f held
      rw [hafter]
      split_ifs
      · exact hkept key f hupdate
      · exact ⟨rfl, rfl⟩

omit [Crates] in
/-- The accumulator of an account after both passes. -/
theorem read_accountAccums (haddress : address ≠ "") (changes : List ExtractedLedgerEntryChange) :
    let accum := (accountAccums changes).lookup address
    accum.bind (·.sequenceNumber) =
        ((changes.filterMap (liveData address)).map (·.i64Field "seq_num")).getLast? ∧
      accum.bind (·.homeDomain) =
        ((changes.filterMap (liveData address)).filterMap domainField).getLast? := by
  intro accum
  -- the accounts first, the trustlines over what they left
  have haccum : accum = history address (changes.filterMap trustlineUpdate)
      (history address (changes.filterMap accountUpdate) none) := by
    rw [← history_append]
    exact lookup_runAll _ _ _
  rw [haccum]
  let sequenceIn : Option AccountAccum → Option ℤ := fun held => held.bind (·.sequenceNumber)
  let domainIn : Option AccountAccum → Option String := fun held => held.bind (·.homeDomain)
  have hsequence := @read_history _ _ _ _ _ sequenceIn
    (fun change => (liveData address change).map (·.i64Field "seq_num")) accountUpdate address
    (fun change held => (read_accountUpdate haddress change held).1) changes none
  have hdomain := @read_history _ _ _ _ _ domainIn
    (fun change => (liveData address change).bind domainField) accountUpdate address
    (fun change held => (read_accountUpdate haddress change held).2) changes none
  have hkept := @read_history _ _ _ _ _ sequenceIn (fun _ => none) trustlineUpdate address
    (fun change held => (read_trustlineUpdate change held).1) changes
  have hkept' := @read_history _ _ _ _ _ domainIn (fun _ => none) trustlineUpdate address
    (fun change held => (read_trustlineUpdate change held).2) changes
  constructor
  · refine (hkept _).trans ?_
    rw [hsequence, List.map_filterMap]
    simp [sequenceIn]
  · refine (hkept' _).trans ?_
    rw [hdomain, List.filterMap_filterMap]
    simp [domainIn]

omit [Crates] in
/-- The state of an account in a transaction, if it has one. -/
theorem filter_extractAccountStates (order : DrainOrder ExtractedAccountState)
    (changes : List ExtractedLedgerEntryChange) :
    (extractAccountStates order changes).filter (·.accountId = address) =
      (((accountAccums changes).lookup address).map (accountState address)).toList := by
  have hfilter : ((extractAccountStates order changes).filter (·.accountId = address)).Perm
      (((accountAccums changes).entries.filter (·.1 = address)).map
        fun entry => accountState entry.1 entry.2) := by
    have hperm := (order.perm ((accountAccums changes).entries.map
      fun entry => accountState entry.1 entry.2)).filter (·.accountId = address)
    rwa [List.filter_map] at hperm
  rw [filter_entries] at hfilter
  cases hlookup : (accountAccums changes).lookup address with
  | none => simpa [hlookup] using hfilter
  | some accum => simpa [hlookup] using hfilter

/-- The sequence number a state has for an address. -/
def statedSequence (address : String) (st : ExtractedAccountState) : Option ℤ :=
  if st.accountId = address ∧ 0 ≤ st.sequenceNumber then some st.sequenceNumber else none

/-- The home domain a state has for an address. -/
def statedDomain (address : String) (st : ExtractedAccountState) : Option String :=
  if st.accountId = address then st.homeDomain else none

omit [Crates] in
/-- What the states of a transaction have for an account is what its accumulator has. -/
theorem filterMap_extractAccountStates {γ : Type} {stated : ExtractedAccountState → Option γ}
    (hown : ∀ st, st.accountId ≠ address → stated st = none)
    (order : DrainOrder ExtractedAccountState) (changes : List ExtractedLedgerEntryChange) :
    (extractAccountStates order changes).filterMap stated =
      (((accountAccums changes).lookup address).bind
        fun accum => stated (accountState address accum)).toList := by
  have hfilter : (extractAccountStates order changes).filterMap stated =
      ((extractAccountStates order changes).filter (·.accountId = address)).filterMap stated := by
    rw [List.filterMap_filter]
    apply List.filterMap_congr
    intro st _
    by_cases hst : st.accountId = address
    · simp [hst]
    · simp [hst, hown st hst]
  rw [hfilter, filter_extractAccountStates]
  cases (accountAccums changes).lookup address with
  | none => rfl
  | some accum =>
      cases hstated : stated (accountState address accum) with
      | none => simp [hstated]
      | some value => simp [hstated]

variable (transactionHash : String) (ledgerSequence : UInt32) (createdAt : ℤ)

/-- The last live entry of a transaction states its sequence number. -/
theorem statedSequence_extracted (haddress : address ≠ "")
    (order : DrainOrder ExtractedAccountState) (txMeta : TransactionMeta) :
    ((extractAccountStates order (extractLedgerEntryChanges txMeta transactionHash ledgerSequence
        createdAt)).filterMap (statedSequence address)).getLast? =
      ((liveEntries address (ledgerChanges txMeta)).getLast?.map (·.seqNum.toInt)).filter
        (0 ≤ ·) := by
  obtain ⟨hread, -⟩ := read_accountAccums haddress
    (extractLedgerEntryChanges txMeta transactionHash ledgerSequence createdAt)
  rw [filterMap_liveData, List.map_map, List.getLast?_map] at hread
  have hseq : (fun data : Json => data.i64Field "seq_num") ∘ accountData =
      fun entry => entry.seqNum.toInt := funext seqNum_accountData
  rw [hseq] at hread
  have hown : ∀ st : ExtractedAccountState, st.accountId ≠ address →
      statedSequence address st = none := fun st hst => if_neg fun h => hst h.1
  rw [filterMap_extractAccountStates hown, ← hread]
  cases (accountAccums (extractLedgerEntryChanges txMeta transactionHash ledgerSequence
    createdAt)).lookup address with
  | none => rfl
  | some accum =>
      cases hsequence : accum.sequenceNumber with
      | none => simp [statedSequence, accountState, hsequence]
      | some sequence =>
          by_cases hpos : 0 ≤ sequence <;>
            simp [statedSequence, accountState, hsequence, hpos, Option.filter]

/-- The last live entry of a transaction that has a home domain states it. -/
theorem statedDomain_extracted (haddress : address ≠ "")
    (order : DrainOrder ExtractedAccountState) (txMeta : TransactionMeta) :
    ((extractAccountStates order (extractLedgerEntryChanges txMeta transactionHash ledgerSequence
        createdAt)).filterMap (statedDomain address)).getLast? =
      ((liveEntries address (ledgerChanges txMeta)).filterMap AccountEntry.domain).getLast? := by
  obtain ⟨-, hread⟩ := read_accountAccums haddress
    (extractLedgerEntryChanges txMeta transactionHash ledgerSequence createdAt)
  rw [filterMap_liveData, List.filterMap_map] at hread
  have hdomain : domainField ∘ accountData = AccountEntry.domain := rfl
  rw [hdomain] at hread
  have hown : ∀ st : ExtractedAccountState, st.accountId ≠ address →
      statedDomain address st = none := fun st hst => if_neg hst
  rw [filterMap_extractAccountStates hown, ← hread]
  cases (accountAccums (extractLedgerEntryChanges txMeta transactionHash ledgerSequence
    createdAt)).lookup address with
  | none => rfl
  | some accum =>
      cases hstated : accum.homeDomain <;> simp [statedDomain, accountState, hstated]

/-! ## All transactions -/

/-- The sequence number an override has, if any was seen. -/
def AccountOverride.sequence (o : AccountOverride) : Option ℤ :=
  if o.sequenceSet then some o.sequenceNumber else none

omit [Crates] in
theorem getLast?_flatMap_congr {α β : Type} {f g : α → List β}
    (h : ∀ part, (f part).getLast? = (g part).getLast?) (parts : List α) :
    (parts.flatMap f).getLast? = (parts.flatMap g).getLast? := by
  simp only [List.getLast?_flatMap, h]

omit [Crates] in
/-- A reading of the last of each part reads the last of all. -/
theorem getLast?_flatMap_read {α β γ : Type} {f : α → List β} {g : α → List γ} {read : γ → Option β}
    (h : ∀ part, (f part).getLast? = (g part).getLast?.bind read) {last : γ} {value : β}
    (hread : read last = some value) {parts : List α}
    (hlast : (parts.flatMap g).getLast? = some last) :
    (parts.flatMap f).getLast? = some value := by
  induction parts using List.reverseRecOn with
  | nil => cases hlast
  | append_singleton parts part ih =>
      rw [List.flatMap_append, List.flatMap_singleton, List.getLast?_append] at hlast ⊢
      rw [h part]
      cases hpart : (g part).getLast? with
      | none =>
          rw [hpart, Option.none_or] at hlast
          rw [Option.bind_none, Option.none_or, ih hlast]
      | some own =>
          obtain rfl : own = last := by simpa [hpart] using hlast
          rw [Option.bind_some, hread, Option.some_or]

omit [Crates] in
/-- What one state does to what is read off an account's override. -/
theorem read_add (st : ExtractedAccountState) (held : Option AccountOverride) :
    let after := history address
      (some ⟨st.accountId, AccountOverride.add st⟩ : Option (Update String AccountOverride)).toList
      held
    after.bind AccountOverride.sequence =
        (statedSequence address st).or (held.bind AccountOverride.sequence) ∧
      after.bind (·.homeDomain) = (statedDomain address st).or (held.bind (·.homeDomain)) := by
  intro after
  have hafter : after = if st.accountId = address then some (AccountOverride.add st held) else held :=
    by simp only [after, Option.toList_some, history_cons, history_nil]
  rw [hafter]
  by_cases hown : st.accountId = address
  · by_cases hpos : 0 ≤ st.sequenceNumber
    · cases held <;>
        simp [hown, hpos, AccountOverride.add, AccountOverride.fromFirst, AccountOverride.sequence,
          statedSequence, statedDomain]
    · cases held <;>
        simp [hown, hpos, AccountOverride.add, AccountOverride.fromFirst, AccountOverride.sequence,
          statedSequence, statedDomain]
  · simp [hown, statedSequence, statedDomain]

omit [Crates] in
/-- The override of an account has the last sequence number and the last home domain stated. -/
theorem read_overrides (states : List ExtractedAccountState) :
    let ov := (mergeAccountStateOverrides states).lookup address
    ov.bind AccountOverride.sequence = (states.filterMap (statedSequence address)).getLast? ∧
      ov.bind (·.homeDomain) = (states.filterMap (statedDomain address)).getLast? := by
  intro ov
  let update : ExtractedAccountState → Option (Update String AccountOverride) :=
    fun st => some ⟨st.accountId, AccountOverride.add st⟩
  have hov : ov = history address (states.filterMap update) none := by
    have hmap : states.filterMap update =
        states.map fun st => ⟨st.accountId, AccountOverride.add st⟩ := by
      rw [← List.filterMap_eq_map]
      rfl
    rw [hmap]
    exact lookup_runAll _ _ _
  have hsequence := @read_history _ _ _ _ _ (fun held => held.bind AccountOverride.sequence)
    (statedSequence address) update address (fun st held => (read_add st held).1) states none
  have hdomain := @read_history _ _ _ _ _
    (fun held : Option AccountOverride => held.bind (·.homeDomain))
    (statedDomain address) update address (fun st held => (read_add st held).2) states none
  rw [hov]
  exact ⟨hsequence.trans (Option.or_none), hdomain.trans (Option.or_none)⟩

theorem liveEntries_flatMap {α : Type} (changesOf : α → List LedgerEntryChange) (parts : List α) :
    liveEntries address (parts.flatMap changesOf) =
      parts.flatMap fun part => liveEntries address (changesOf part) := by
  simp only [liveEntries, List.filterMap_flatMap, List.filter_flatMap]

section

variable (orders : ℕ → DrainOrder ExtractedAccountState) (closeMeta : LedgerCloseMeta)
  (transactions : List ExtractedTransaction)

theorem filterMap_parseAccountStates {γ : Type} (stated : ExtractedAccountState → Option γ) :
    (parseAccountStates orders closeMeta transactions).filterMap stated =
      (parsedTransactions closeMeta transactions).zipIdx.flatMap fun part =>
        (extractAccountStates (orders part.2) (extractLedgerEntryChanges part.1.2 part.1.1
          closeMeta.ledgerSeq closeMeta.closedAt)).filterMap stated := by
  rw [parseAccountStates, ledgerAccountStates, parseLedgerEntryChanges, List.zipIdx_map,
    List.flatMap_map, List.filterMap_flatMap]
  rfl

theorem liveEntries_readChanges :
    liveEntries address (readChanges closeMeta transactions) =
      (parsedTransactions closeMeta transactions).zipIdx.flatMap fun part =>
        liveEntries address (ledgerChanges part.1.2) := by
  have hfst : (parsedTransactions closeMeta transactions).zipIdx.map Prod.fst =
      parsedTransactions closeMeta transactions := List.zipIdx_map_fst 0 _
  rw [readChanges, liveEntries_flatMap]
  conv_lhs => rw [← hfst, List.flatMap_map]

/-- The sequence numbers the transactions leave an account at; a negative one is as none. -/
def readSequences (closeMeta : LedgerCloseMeta) (transactions : List ExtractedTransaction)
    (address : String) : List ℤ :=
  (parsedTransactions closeMeta transactions).filterMap fun tx =>
    ((liveEntries address (ledgerChanges tx.2)).getLast?.map (·.seqNum.toInt)).filter (0 ≤ ·)

/-- The home domains the live entries read have. -/
def readDomains (closeMeta : LedgerCloseMeta) (transactions : List ExtractedTransaction)
    (address : String) : List String :=
  (liveEntries address (readChanges closeMeta transactions)).filterMap AccountEntry.domain

/-- The last sequence number stated in a ledger is the last one a transaction leaves. -/
theorem statedSequence_ledger (haddress : address ≠ "") :
    ((parseAccountStates orders closeMeta transactions).filterMap
        (statedSequence address)).getLast? =
      (readSequences closeMeta transactions address).getLast? := by
  have hfst : (parsedTransactions closeMeta transactions).zipIdx.map Prod.fst =
      parsedTransactions closeMeta transactions := List.zipIdx_map_fst 0 _
  rw [filterMap_parseAccountStates, readSequences, ← hfst, List.filterMap_map,
    List.filterMap_eq_flatMap_toList, hfst]
  apply getLast?_flatMap_congr
  intro part
  rw [statedSequence_extracted _ _ _ haddress]
  simp only [Function.comp_apply]
  cases ((liveEntries address (ledgerChanges part.1.2)).getLast?.map (·.seqNum.toInt)).filter
    (0 ≤ ·) <;> rfl

theorem statedDomain_ledger (haddress : address ≠ "") :
    ((parseAccountStates orders closeMeta transactions).filterMap
        (statedDomain address)).getLast? =
      (readDomains closeMeta transactions address).getLast? := by
  rw [filterMap_parseAccountStates, readDomains, liveEntries_readChanges, List.filterMap_flatMap]
  exact getLast?_flatMap_congr (fun part => statedDomain_extracted _ _ _ haddress _ _) _

end

/-! ## Rows -/

/-- A row's sequence number is the one its override has, or 0. -/
theorem sequenceNumber_accountRow (ledgerSequence : ℤ) (overrides : Table String AccountOverride) :
    (accountRow ledgerSequence overrides address).sequenceNumber =
      ((((overrides.lookup address).bind AccountOverride.sequence)).filter (0 ≤ ·)).getD 0 := by
  rw [accountRow]
  cases overrides.lookup address with
  | none => rfl
  | some o =>
      by_cases hset : o.sequenceSet <;>
        simp [AccountOverride.publicSequenceNumber, AccountOverride.sequence, hset, Option.filter]

/-- An account named has one row, whatever the order of the set. -/
theorem filter_accountRows (order : DrainOrder String) (ledgerSequence : ℤ) (named : List String)
    (states : List ExtractedAccountState) :
    (accountRows order ledgerSequence named states).filter (·.accountId = address) =
      if address ∈ accountKeys named states then
        [accountRow ledgerSequence (mergeAccountStateOverrides states) address]
      else [] := by
  have hkeys : (accountKeys named states).Nodup := (List.nodup_dedup _).filter _
  have hperm := order.perm (accountKeys named states)
  have hown : (order.drain (accountKeys named states)).filter (· = address) =
      if address ∈ accountKeys named states then [address] else [] := by
    rw [List.filter_eq, hperm.count_eq, hkeys.count]
    split_ifs <;> rfl
  have hid : (fun row : AccountRow => decide (row.accountId = address)) ∘
      accountRow ledgerSequence (mergeAccountStateOverrides states) =
      fun key => decide (key = address) := rfl
  rw [accountRows, List.filter_map, hid, hown]
  split_ifs <;> rfl

/-! ## The account at the end of the ledger -/

/-- The account has one row, with the sequence number and home domain of its last live
entry. -/
def StagesAccount (order : DrainOrder String) (orders : ℕ → DrainOrder ExtractedAccountState)
    (closeMeta : LedgerCloseMeta) (transactions : List ExtractedTransaction)
    (named : List String) (address : String) : Prop :=
  ∃ row last,
    (accountRows order closeMeta.ledgerSeq.toNat named
      (parseAccountStates orders closeMeta transactions)).filter (·.accountId = address) = [row] ∧
    (liveEntries address closeMeta.protocolChanges).getLast? = some last ∧
    row.sequenceNumber = last.seqNum.toInt ∧ row.homeDomain = last.domain

variable (order : DrainOrder String) (orders : ℕ → DrainOrder ExtractedAccountState)
  (closeMeta : LedgerCloseMeta) (transactions : List ExtractedTransaction) (named : List String)

/-- An account with a live entry in a transaction has a state for it. -/
theorem exists_state_of_live (haddress : address ≠ "") (order : DrainOrder ExtractedAccountState)
    {txMeta : TransactionMeta} (hlive : liveEntries address (ledgerChanges txMeta) ≠ []) :
    ∃ st ∈ extractAccountStates order (extractLedgerEntryChanges txMeta transactionHash
      ledgerSequence createdAt), st.accountId = address := by
  obtain ⟨hread, -⟩ := read_accountAccums haddress
    (extractLedgerEntryChanges txMeta transactionHash ledgerSequence createdAt)
  have hfilter := @filter_extractAccountStates address order
    (extractLedgerEntryChanges txMeta transactionHash ledgerSequence createdAt)
  cases hlookup : (accountAccums (extractLedgerEntryChanges txMeta transactionHash ledgerSequence
      createdAt)).lookup address with
  | none =>
      -- Without an accumulator no entry was read.
      rw [hlookup, Option.bind_none, filterMap_liveData, eq_comm, List.getLast?_eq_none_iff,
        List.map_eq_nil_iff, List.map_eq_nil_iff] at hread
      exact absurd hread hlive
  | some accum =>
      rw [hlookup] at hfilter
      have hmem : accountState address accum ∈ (extractAccountStates order
          (extractLedgerEntryChanges txMeta transactionHash ledgerSequence createdAt)).filter
            (·.accountId = address) := by
        rw [hfilter]
        exact List.mem_singleton_self _
      exact ⟨_, (List.mem_filter.mp hmem).1, rfl⟩

/-- An account with a live entry read is named. -/
theorem mem_accountKeys_of_read (hstrkey : isStrkeyAccount address = true) (haddress : address ≠ "")
    (hread : liveEntries address (readChanges closeMeta transactions) ≠ []) :
    address ∈ accountKeys named (parseAccountStates orders closeMeta transactions) := by
  rw [liveEntries_readChanges] at hread
  obtain ⟨entry, hentry⟩ := List.exists_mem_of_ne_nil _ hread
  obtain ⟨part, hpart, hentry⟩ := List.mem_flatMap.mp hentry
  obtain ⟨st, hst, hid⟩ := exists_state_of_live part.1.1 closeMeta.ledgerSeq closeMeta.closedAt
    haddress (orders part.2) (List.ne_nil_of_mem hentry)
  have hstate : st ∈ parseAccountStates orders closeMeta transactions := by
    rw [parseAccountStates, ledgerAccountStates, parseLedgerEntryChanges, List.zipIdx_map,
      List.flatMap_map]
    exact List.mem_flatMap.mpr ⟨part, hpart, hst⟩
  rw [accountKeys, List.mem_filter, List.mem_dedup, List.mem_append]
  refine ⟨.inr (List.mem_flatMap.mpr ⟨st, hstate, ?_⟩), hstrkey⟩
  rw [stateAccounts, hid]
  exact List.mem_cons_self

theorem readSequences_nonneg {sequence : ℤ}
    (hlast : (readSequences closeMeta transactions address).getLast? = some sequence) :
    0 ≤ sequence := by
  obtain ⟨tx, -, hsequence⟩ := List.mem_filterMap.mp (List.mem_of_getLast? hlast)
  exact of_decide_eq_true (Option.filter_eq_some_iff.mp hsequence).2

/-- The row says what was read, if the account has one. -/
theorem stagesAccount_iff_read (haddress : address ≠ "") :
    StagesAccount order orders closeMeta transactions named address ↔
      ∃ last, (liveEntries address closeMeta.protocolChanges).getLast? = some last ∧
        address ∈ accountKeys named (parseAccountStates orders closeMeta transactions) ∧
        (readSequences closeMeta transactions address).getLast?.getD 0 = last.seqNum.toInt ∧
        (readDomains closeMeta transactions address).getLast? = last.domain := by
  set states := parseAccountStates orders closeMeta transactions with hstates
  set staged := accountRow closeMeta.ledgerSeq.toNat (mergeAccountStateOverrides states) address
    with hstaged
  obtain ⟨hsequence, hdomain⟩ := @read_overrides address states
  rw [statedSequence_ledger orders closeMeta transactions haddress] at hsequence
  rw [statedDomain_ledger orders closeMeta transactions haddress] at hdomain
  have hstagedSequence : staged.sequenceNumber =
      (readSequences closeMeta transactions address).getLast?.getD 0 := by
    rw [hstaged, sequenceNumber_accountRow, hsequence]
    cases hlast : (readSequences closeMeta transactions address).getLast? with
    | none => rfl
    | some sequence =>
        -- no sequence number is negative, so the fallback is below all
        have hpos := readSequences_nonneg closeMeta transactions hlast
        simp [Option.filter, hpos]
  have hstagedDomain : staged.homeDomain = (readDomains closeMeta transactions address).getLast? :=
    hdomain
  have hrows := @filter_accountRows _ address order closeMeta.ledgerSeq.toNat named states
  constructor
  · rintro ⟨row, last, hrow, hlast, hseq, hdom⟩
    rw [hrows] at hrow
    split_ifs at hrow with hnamed
    obtain rfl : staged = row := by simpa using hrow
    exact ⟨last, hlast, hnamed, hstagedSequence ▸ hseq, hstagedDomain ▸ hdom⟩
  · rintro ⟨last, hlast, hnamed, hseq, hdom⟩
    refine ⟨staged, last, ?_, hlast, hstagedSequence.trans hseq, hstagedDomain.trans hdom⟩
    rw [hrows, if_pos hnamed]

/-- The last live entry read leaves its sequence number, unless negative. -/
theorem readSequences_getLast? {last : AccountEntry}
    (hlast : (liveEntries address (readChanges closeMeta transactions)).getLast? = some last) :
    (readSequences closeMeta transactions address).getLast?.getD 0 = last.seqNum.toInt ↔
      0 ≤ last.seqNum.toInt := by
  constructor
  · intro hsequence
    cases hread : (readSequences closeMeta transactions address).getLast? with
    | none =>
        rw [hread, Option.getD_none] at hsequence
        exact hsequence.le
    | some sequence =>
        rw [hread, Option.getD_some] at hsequence
        exact hsequence ▸ readSequences_nonneg closeMeta transactions hread
  · intro hpos
    rw [readChanges, liveEntries_flatMap] at hlast
    have hread : (some last.seqNum.toInt).filter (0 ≤ ·) = some last.seqNum.toInt := by
      simp [Option.filter, hpos]
    have hparts : ∀ tx : String × TransactionMeta,
        (((liveEntries address (ledgerChanges tx.2)).getLast?.map (·.seqNum.toInt)).filter
          (0 ≤ ·)).toList.getLast? =
        (liveEntries address (ledgerChanges tx.2)).getLast?.bind fun entry : AccountEntry =>
          (some entry.seqNum.toInt).filter (0 ≤ ·) := by
      intro tx
      cases (liveEntries address (ledgerChanges tx.2)).getLast? with
      | none => rfl
      | some entry => cases h : (some entry.seqNum.toInt).filter (0 ≤ ·) <;> simp [h]
    rw [readSequences, List.filterMap_eq_flatMap_toList,
      getLast?_flatMap_read hparts hread hlast, Option.getD_some]

/-- The last live entry read leaves its home domain, unless it has none and another has. -/
theorem readDomains_getLast? {last : AccountEntry}
    (hlast : (liveEntries address (readChanges closeMeta transactions)).getLast? = some last) :
    (readDomains closeMeta transactions address).getLast? = last.domain ↔
      (last.domain = none → ∀ other ∈ liveEntries address (readChanges closeMeta transactions),
        other.domain = none) := by
  obtain ⟨before, hsplit⟩ := List.getLast?_eq_some_iff.mp hlast
  cases hdomain : last.domain with
  | none =>
      rw [readDomains, List.getLast?_eq_none_iff, List.filterMap_eq_nil_iff]
      exact ⟨fun h _ => h, fun h => h rfl⟩
  | some domain => simp [readDomains, hsplit, hdomain]

/-- The row of an account says what its last live entry of the ledger says exactly when
the last sequence number and the last home domain read do.  Where the last live entry is
read, that is when it has a home domain or no entry before it has one. -/
theorem stagesAccount_iff (hstrkey : isStrkeyAccount address = true) :
    (StagesAccount order orders closeMeta transactions named address ↔
      ∃ last, (liveEntries address closeMeta.protocolChanges).getLast? = some last ∧
        address ∈ accountKeys named (parseAccountStates orders closeMeta transactions) ∧
        (readSequences closeMeta transactions address).getLast?.getD 0 = last.seqNum.toInt ∧
        (readDomains closeMeta transactions address).getLast? = last.domain) ∧
    ∀ last entry, (liveEntries address closeMeta.protocolChanges).getLast? = some last →
      (liveEntries address (readChanges closeMeta transactions)).getLast? = some entry →
      entry.seqNum = last.seqNum → entry.domain = last.domain →
      (StagesAccount order orders closeMeta transactions named address ↔
        0 ≤ last.seqNum.toInt ∧
          (last.domain = none → ∀ other ∈ liveEntries address (readChanges closeMeta transactions),
            other.domain = none)) := by
  have haddress : address ≠ "" := by
    rintro rfl
    exact absurd hstrkey (by decide)
  have hexact := stagesAccount_iff_read order orders closeMeta transactions named haddress
  refine ⟨hexact, fun last entry hlast hread hsequence hdomain => hexact.trans ?_⟩
  have hnamed := mem_accountKeys_of_read orders closeMeta transactions named hstrkey haddress
    (List.ne_nil_of_mem (List.mem_of_getLast? hread))
  have hsequences := readSequences_getLast? closeMeta transactions hread
  have hdomains := readDomains_getLast? closeMeta transactions hread
  rw [hsequence] at hsequences
  rw [hdomain] at hdomains
  constructor
  · rintro ⟨last', hlast', -, hseq', hdom'⟩
    -- the last live entry is the one that was read
    obtain rfl : last = last' := Option.some.inj (hlast.symm.trans hlast')
    exact ⟨hsequences.mp hseq', hdomains.mp hdom'⟩
  · rintro ⟨hseq', hdom'⟩
    exact ⟨last, hlast, hnamed, hsequences.mpr hseq', hdomains.mpr hdom'⟩

end

/-! ## A home domain set and cleared -/

theorem stagesAccount_iff_charged :
    isStrkeyAccount Crates.pinnedAccountStrkey = true ∧
    @StagesAccount Crates.pinned .stored (fun _ => .stored) (chargedLedger []) [parsedTransaction] []
      Crates.pinnedAccountStrkey := by
  let _ : Crates := Crates.pinned
  have hstrkey : isStrkeyAccount Crates.pinnedAccountStrkey = true := by decide
  have hlast : ∃ last : AccountEntry,
      (liveEntries Crates.pinnedAccountStrkey (chargedLedger []).protocolChanges).getLast? =
        some last ∧
      (liveEntries Crates.pinnedAccountStrkey
        (readChanges (chargedLedger []) [parsedTransaction])).getLast? = some last ∧
      0 ≤ last.seqNum.toInt ∧
      ∀ other ∈ liveEntries Crates.pinnedAccountStrkey
        (readChanges (chargedLedger []) [parsedTransaction]), other.domain = none :=
    ⟨_, rfl, rfl, by decide, by decide⟩
  obtain ⟨last, hlast, hread, hpos, hnone⟩ := hlast
  exact ⟨hstrkey, ((stagesAccount_iff .stored (fun _ => .stored) (chargedLedger [])
    [parsedTransaction] [] hstrkey).2 last last hlast hread rfl rfl).mpr ⟨hpos, fun _ => hnone⟩⟩

/-- The pinned account with a home domain. -/
def homedEntry (homeDomain : Bytes) : LedgerEntry where
  lastModifiedLedgerSeq := 60000000
  data := .account
    { accountId := Crates.pinnedAccount, balance := 900, seqNum := 7, numSubEntries := 0, flags := 0,
      homeDomain, thresholds := [1, 0, 0, 0], signers := [], sponsorship := none }

/-- One transaction whose first operation sets a home domain and whose second clears it. -/
def clearedLedger : LedgerCloseMeta :=
  .v2 60000000 1750000000
    [{ feeProcessing := []
       txApplyProcessing := .v4 []
        [{ changes := [.state (homedEntry []), .updated (homedEntry (asBytes "ex.org"))]
           events := [] },
          { changes := [.state (homedEntry (asBytes "ex.org")), .updated (homedEntry [])]
            events := [] }]
        [] none [] []
       postTxApplyFeeProcessing := [] }]

/-- The account ends without a home domain and is staged with the one cleared. -/
theorem not_stagesAccount_cleared :
    ¬ @StagesAccount Crates.pinned .stored (fun _ => .stored) clearedLedger [parsedTransaction] []
      Crates.pinnedAccountStrkey := by
  let _ : Crates := Crates.pinned
  intro hstages
  obtain ⟨last, hlast, -, -, hdomain⟩ :=
    (stagesAccount_iff_read _ _ clearedLedger [parsedTransaction] _ (by decide)).mp hstages
  have hclosing : (liveEntries Crates.pinnedAccountStrkey
      clearedLedger.protocolChanges).getLast?.map AccountEntry.domain = some none := by decide
  rw [hlast] at hclosing
  have hnone : last.domain = none := Option.some.inj hclosing
  rw [hnone] at hdomain
  exact absurd hdomain (by decide)

end SorobanExplorer
