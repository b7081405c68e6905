import SorobanExplorer.Indexer.ContractMetadata
import SorobanExplorer.Lib.Ensures

/-!
# What a contract run leaves

A run adds entries and calls and never replaces an entry it was given: the keys loaded
are those the host found missing.  So every call sees the instances that were there
before the first, and the calls made are those of the contracts whose program has
metadata, for the functions it declares.
-/

namespace SorobanExplorer

open KeyedFold Text StatefulProgram
open Persist (ChError)

/-! ## What a run leaves -/

/-- Every entry known stays as it is. -/
def Entries.Keeps (entries entries' : Entries) : Prop :=
  ∀ key entry, entries.lookup key = some entry → entries'.lookup key = some entry

theorem Entries.Keeps.trans {a b c : Entries} (h : a.Keeps b) (h' : b.Keeps c) : a.Keeps c :=
  fun key entry hentry => h' key entry (h key entry hentry)

/-- Entries are kept, and the calls made are of a kind and see them. -/
structure Extends (P : ContractId → String → Prop) (s s' : Running) : Prop where
  entries : s.entries.Keeps s'.entries
  calls : ∃ more, s'.calls = s.calls ++ more ∧
    ∀ call ∈ more, P call.contract call.function ∧ s.entries.Keeps call.entries

variable {P : ContractId → String → Prop}

theorem Extends.refl (s : Running) : Extends P s s :=
  ⟨fun _ _ h => h, [], (List.append_nil _).symm, fun _ h => absurd h List.not_mem_nil⟩

theorem Extends.trans {s s' s'' : Running} (h : Extends P s s') (h' : Extends P s' s'') :
    Extends P s s'' := by
  obtain ⟨more, hmore, hcalls⟩ := h.calls
  obtain ⟨more', hmore', hcalls'⟩ := h'.calls
  refine ⟨h.entries.trans h'.entries, more ++ more', ?_, ?_⟩
  · rw [hmore', hmore, List.append_assoc]
  · intro call hcall
    rcases List.mem_append.mp hcall with hcall | hcall
    · exact hcalls call hcall
    · exact ⟨(hcalls' call hcall).1, h.entries.trans (hcalls' call hcall).2⟩

theorem Extends.mem_calls {s s' : Running} (h : Extends P s s') {call : ViewCall}
    (hcall : call ∈ s.calls) : call ∈ s'.calls := by
  obtain ⟨more, hmore, -⟩ := h.calls
  rw [hmore]
  exact List.mem_append_left more hcall

theorem Extends.imp {P' : ContractId → String → Prop} {s s' : Running} (h : Extends P s s')
    (himp : ∀ contract function, P contract function → P' contract function) :
    Extends P' s s' := by
  obtain ⟨more, hmore, hcalls⟩ := h.calls
  exact ⟨h.entries, more, hmore, fun call hcall =>
    ⟨himp _ _ (hcalls call hcall).1, (hcalls call hcall).2⟩⟩

/-! ## Loading -/

variable {host : ContractHost} {store : ProgramStore} {ledger : RunLedger} {contract : ContractId}

/-- A key the host may ask for: an instance is asked for as a persistent entry. -/
def Askable (key : LedgerKey) : Prop :=
  ∀ owner durability, key = .contractData owner .ledgerKeyContractInstance durability →
    durability = .persistent

/-- Loading an instance touches its own key only. -/
theorem lookup_loadInstances {readEntry : Bytes → Option LedgerEntryData} {owner : ContractId}
    {entries entries' : Entries}
    (hload : loadInstances readEntry store [owner] entries = .ok entries') {key : EntryKey}
    (hkey : key ≠ .instanceKey owner) : entries'.lookup key = entries.lookup key := by
  unfold loadInstances ProgramStore.instances ProgramStore.answer at hload
  split at hload
  · cases hload
  · cases hload
    cases hstored : store.contractInstances owner with
    | none => simp [AList.lookup_insert_ne hkey, hstored]
    | some stored => simp [AList.lookup_insert_ne hkey, hstored]

/-- Loading an entry touches its own key only. -/
theorem lookup_loadEntry {readEntry : Bytes → Option LedgerEntryData} {key : LedgerKey}
    (hask : Askable key) {entries entries' : Entries}
    (hload : loadEntry readEntry store key entries = .ok (some entries')) {other : EntryKey}
    (hother : key.entryKey? ≠ some other) : entries'.lookup other = entries.lookup other := by
  unfold loadEntry at hload
  split at hload
  · rename_i hash
    have hne : other ≠ .codeKey hash := fun h => hother (congrArg some h.symm)
    cases hrow : store.program hash with
    | error error => rw [hrow] at hload; cases hload
    | ok row =>
        rw [hrow] at hload
        cases hload
        exact AList.lookup_insert_ne hne
  · rename_i owner durability
    obtain rfl : durability = .persistent := hask _ _ rfl
    have hne : other ≠ .instanceKey owner := fun h => hother (congrArg some h.symm)
    cases hinstances : loadInstances readEntry store [owner] entries with
    | error error => rw [hinstances] at hload; cases hload
    | ok loaded =>
        rw [hinstances] at hload
        cases hload
        exact lookup_loadInstances hinstances hne
  · cases hload

/-- Loading keys the caller did not supply keeps what it did. -/
theorem ensures_runLoads {given : Entries} {keys : List LedgerKey}
    (hkeys : ∀ key ∈ keys, given.supplies key = false ∧ Askable key) :
    Ensures (runLoads host store keys) fun s _ s' =>
      given.Keeps s.entries → given.Keeps s'.entries ∧ s'.calls = s.calls := by
  induction keys with
  | nil => exact ensures_pure fun s h => ⟨h, rfl⟩
  | cons key keys ih =>
      have ih := ih fun other hother => hkeys other (List.mem_cons_of_mem _ hother)
      obtain ⟨hmissing, hask⟩ := hkeys key List.mem_cons_self
      have hload : Ensures (runLoad host store key) fun s _ s' =>
          given.Keeps s.entries → given.Keeps s'.entries ∧ s'.calls = s.calls := by
        intro s loaded s' hrun hgiven
        unfold runLoad at hrun
        cases hentry : loadEntry host.readEntry store key s.entries with
        | error error => rw [hentry] at hrun; cases hrun
        | ok answer =>
            rw [hentry] at hrun
            cases answer with
            | none =>
                cases hrun
                exact ⟨hgiven, rfl⟩
            | some entries =>
                cases hrun
                refine ⟨fun other entry hother => ?_, rfl⟩
                -- a supplied key is not loaded again
                have hne : key.entryKey? ≠ some other := by
                  intro heq
                  simp [Entries.supplies, heq, hother] at hmissing
                exact (lookup_loadEntry hask hentry hne).trans (hgiven other entry hother)
      refine ensures_bind hload (R := fun _ s _ s' =>
        given.Keeps s.entries → given.Keeps s'.entries ∧ s'.calls = s.calls) ?_ ?_
      · intro loaded
        cases loaded with
        | false => exact ensures_pure fun s h => ⟨h, rfl⟩
        | true => exact ih
      · intro s _ s' _ s'' hfirst hrest hgiven
        -- loads make no calls
        obtain ⟨hkept, hcalls⟩ := hfirst hgiven
        obtain ⟨hkept', hcalls'⟩ := hrest hkept
        exact ⟨hkept', hcalls'.trans hcalls⟩

/-- The keys missing were asked for and not supplied. -/
theorem callView_missing {entries : Entries} {function : String} {keys : List LedgerKey}
    (hview : callView host entries ledger contract function = .missing keys) :
    ∀ key ∈ keys, entries.supplies key = false ∧ Askable key := by
  unfold callView at hview
  split_ifs at hview with hname
  dsimp only at hview
  split_ifs at hview with hmissing
  · cases hview
    intro key hkey
    obtain ⟨hasked, hsupplied⟩ := List.mem_filter.mp hkey
    refine ⟨by simpa using hsupplied, fun owner durability heq => ?_⟩
    exact host.persistent entries ledger contract function owner durability (heq ▸ hasked)
  · split at hview <;> cases hview

/-! ## One contract -/

/-- After the call of a function over the entries at hand. -/
def Running.called (s : Running) (contract : ContractId) (function : String) : Running :=
  { s with calls := s.calls ++ [⟨s.entries, contract, function⟩] }

theorem extends_called {function : String} (hP : P contract function) (s : Running) :
    Extends P s (s.called contract function) := by
  refine ⟨fun _ _ h => h, [⟨s.entries, contract, function⟩], rfl, fun call hcall => ?_⟩
  obtain rfl := List.mem_singleton.mp hcall
  exact ⟨hP, fun _ _ h => h⟩

/-- A round calls the function, and goes on from there. -/
theorem ensures_round {function : String} {rounds : ℕ}
    (hrest : Ensures (readFunction host store ledger contract function rounds)
      fun s _ s' => Extends P s s') :
    Ensures (readFunction host store ledger contract function (rounds + 1))
      fun s _ s' => Extends P (s.called contract function) s' := by
  have hcall : Ensures (runView host ledger contract function) fun s outcome t =>
      callView host s.entries ledger contract function = outcome ∧
        t = s.called contract function := by
    intro s outcome t hrun
    obtain ⟨hview, hcalled⟩ := Prod.mk.inj (Except.ok.inj hrun)
    exact ⟨hview, hcalled.symm⟩
  rw [readFunction]
  refine ensures_bind hcall (R := fun outcome t _ s' => ∀ s : Running,
    callView host s.entries ledger contract function = outcome → t = s.called contract function →
      Extends P t s') ?_ ?_
  · intro outcome
    cases outcome with
    | value v => exact ensures_pure fun t _ _ _ => .refl t
    | failed error => exact ensures_pure fun t _ _ _ => .refl t
    | missing keys =>
        -- the keys a call misses are none the caller supplied
        have hloads : Ensures (runLoads host store keys) fun t _ t' => ∀ s : Running,
            callView host s.entries ledger contract function = .missing keys →
              t = s.called contract function → Extends P t t' := by
          intro t _ t' hload s hview ht
          have hgiven : s.entries.Keeps t.entries := ht ▸ fun _ _ h => h
          obtain ⟨hkept, hcalls⟩ := ensures_runLoads (callView_missing hview) t _ t' hload hgiven
          refine ⟨ht ▸ hkept, [], by rw [hcalls, List.append_nil], ?_⟩
          exact fun _ h => absurd h List.not_mem_nil
        refine ensures_bind hloads (R := fun _ t _ s' => Extends P t s') ?_ ?_
        · intro loaded
          cases loaded with
          | false => exact ensures_pure .refl
          | true => exact hrest
        · exact fun _ _ _ _ _ hfirst hnext s hview ht => (hfirst s hview ht).trans hnext
  · intro s outcome t _ s' hfirst hnext
    obtain ⟨hview, rfl⟩ := hfirst
    exact hnext s hview rfl

theorem ensures_readFunction {function : String} (hP : P contract function) (rounds : ℕ) :
    Ensures (readFunction host store ledger contract function rounds)
      fun s _ s' => Extends P s s' := by
  induction rounds with
  | zero => exact ensures_pure .refl
  | succ rounds ih => exact (ensures_round ih).imp fun s _ _ h => (extends_called hP s).trans h

theorem calls_readFunction {function : String} {rounds : ℕ} :
    Ensures (readFunction host store ledger contract function (rounds + 1))
      fun _ _ s' => ∃ call ∈ s'.calls, call.contract = contract := by
  refine (ensures_round (P := fun _ _ => True) (ensures_readFunction trivial rounds)).imp ?_
  intro s _ s' hextends
  exact ⟨_, hextends.mem_calls (List.mem_append_right _ (List.mem_singleton_self _)), rfl⟩

variable {declares : List String}

/-- Reading functions calls the declared ones only. -/
theorem ensures_readFunctions {functions : List String}
    (hP : ∀ function ∈ functions, function ∈ declares → P contract function) :
    ∀ metadata, Ensures (readFunctions host store ledger contract declares metadata functions)
      fun s _ s' => Extends P s s' := by
  induction functions with
  | nil => exact fun _ => ensures_pure .refl
  | cons function functions ih =>
      intro metadata
      have ih := ih fun other hother => hP other (List.mem_cons_of_mem _ hother)
      unfold readFunctions
      split_ifs with hdeclared
      · refine ensures_bind_of_trans .trans
          (ensures_readFunction (hP function List.mem_cons_self hdeclared) maxRounds) ?_
        intro result
        cases result with
        | error answer => exact ensures_pure .refl
        | ok value =>
            dsimp only
            cases metadata.set function value with
            | none => exact ensures_pure .refl
            | some metadata => exact ih metadata
      · exact ih metadata

/-- If any of the functions is declared, the contract is called. -/
theorem calls_readFunctions {functions : List String}
    (hdeclared : ∃ function ∈ functions, function ∈ declares) :
    ∀ metadata, Ensures (readFunctions host store ledger contract declares metadata functions)
      fun _ _ s' => ∃ call ∈ s'.calls, call.contract = contract := by
  induction functions with
  | nil => exact absurd hdeclared (by simp)
  | cons function functions ih =>
      intro metadata
      unfold readFunctions
      split_ifs with hfirst
      · refine ensures_bind calls_readFunction (R := fun _ s _ s' => Extends (fun _ _ => True) s s')
          ?_ ?_
        · intro result
          cases result with
          | error answer => exact ensures_pure .refl
          | ok value =>
              dsimp only
              cases metadata.set function value with
              | none => exact ensures_pure .refl
              | some metadata => exact ensures_readFunctions (fun _ _ _ => trivial) metadata
        · rintro _ _ _ _ s'' ⟨call, hcall, hcontract⟩ hrest
          exact ⟨call, hrest.mem_calls hcall, hcontract⟩
      · refine ih ?_ metadata
        obtain ⟨other, hother, hin⟩ := hdeclared
        rcases List.mem_cons.mp hother with rfl | hother
        · exact absurd hin hfirst
        · exact ⟨other, hother, hin⟩

theorem exists_of_hasMetadata (h : hasMetadata declares = true) :
    ∃ function ∈ metadataFunctions, function ∈ declares := by
  unfold hasMetadata at h
  rcases Bool.or_eq_true_iff.mp h with h | h
  · exact ⟨"decimals", by simp [metadataFunctions], of_decide_eq_true h⟩
  · exact ⟨"name", by simp [metadataFunctions],
      of_decide_eq_true (Bool.and_eq_true_iff.mp h).1⟩

/-! ## The contracts of a ledger -/

/-- The functions a program is run for, if its contracts get metadata. -/
def runnable (declares : Table Hash (List String)) (wasmHash : Hash) : Option (List String) :=
  (declares.lookup wasmHash).filter fun declared => hasMetadata declared

section

variable [Crates] {declares : Table Hash (List String)}

/-- The contract at the head of those to do is read, if its program has metadata, and the
others follow. -/
theorem ensures_runContracts_cons {contract : ContractId} {wasmHash : Hash}
    {todo : List (ContractId × Hash)} {K : Running → Prop}
    (hP : ∀ declared, runnable declares wasmHash = some declared →
      ∀ function ∈ declared, P contract function)
    (hrest : Ensures (runContracts host store ledger declares todo)
      fun s _ s' => Extends P s s' ∧ K s') :
    Ensures (runContracts host store ledger declares ((contract, wasmHash) :: todo))
      fun s _ s' => Extends P s s' ∧ K s' ∧
        ((runnable declares wasmHash).isSome → ∃ call ∈ s'.calls, call.contract = contract) := by
  unfold runContracts
  cases hrunnable : runnable declares wasmHash with
  | none =>
      unfold runnable at hrunnable
      rw [hrunnable]
      exact hrest.imp fun _ _ _ h => ⟨h.1, h.2, fun hsome => absurd hsome (by simp)⟩
  | some declared =>
      have hextends : Ensures (readMetadata host store ledger contract declared)
          fun s _ s' => Extends P s s' :=
        ensures_readFunctions (fun function _ => hP declared hrunnable function) {}
      unfold runnable at hrunnable
      obtain ⟨-, hhas⟩ := Option.filter_eq_some_iff.mp hrunnable
      -- the contract itself is called
      have hcalls : Ensures (readMetadata host store ledger contract declared)
          fun _ _ s' => ∃ call ∈ s'.calls, call.contract = contract :=
        calls_readFunctions (exists_of_hasMetadata hhas) {}
      rw [hrunnable]
      refine ensures_bind (hextends.and hcalls) (R := fun _ s _ s' => Extends P s s' ∧ K s') ?_ ?_
      · intro answer
        refine ensures_bind hrest (R := fun _ s _ s' => s' = s) ?_ ?_
        · intro writes
          cases answer <;> exact ensures_pure fun _ => rfl
        · rintro s _ s' _ _ hothers rfl
          exact hothers
      · rintro s _ s' _ s'' ⟨hread, call, hcall, hcontract⟩ ⟨hothers, hK⟩
        exact ⟨hread.trans hothers, hK, fun _ => ⟨call, hothers.mem_calls hcall, hcontract⟩⟩

/-- The contracts run are those whose program has metadata, for its declared functions. -/
theorem ensures_runContracts {todo : List (ContractId × Hash)}
    (hP : ∀ contract wasmHash, (contract, wasmHash) ∈ todo →
      ∀ declared, runnable declares wasmHash = some declared →
      ∀ function ∈ declared, P contract function) :
    Ensures (runContracts host store ledger declares todo) fun s _ s' =>
      Extends P s s' ∧ ∀ contract wasmHash, (contract, wasmHash) ∈ todo →
        (runnable declares wasmHash).isSome → ∃ call ∈ s'.calls, call.contract = contract := by
  induction todo with
  | nil => exact ensures_pure fun s => ⟨.refl s, fun _ _ h => absurd h List.not_mem_nil⟩
  | cons entry todo ih =>
      obtain ⟨contract, wasmHash⟩ := entry
      have ih := ih fun contract wasmHash hmem => hP contract wasmHash (List.mem_cons_of_mem _ hmem)
      refine (ensures_runContracts_cons (hP contract wasmHash List.mem_cons_self) ih).imp ?_
      rintro s _ s' ⟨hextends, hothers, hown⟩
      refine ⟨hextends, fun contract' wasmHash' hmem => ?_⟩
      rcases List.mem_cons.mp hmem with heq | hmem
      · obtain ⟨rfl, rfl⟩ := Prod.mk.inj heq
        exact hown
      · exact hothers contract' wasmHash' hmem

end

/-! ## Failures -/

section

variable (hstore : ∀ query, store.outage query = none)
include hstore

theorem answer_ok {α : Type} (query : StoredQuery) (rows : α) :
    store.answer query rows = .ok rows := by
  rw [ProgramStore.answer, hstore query]

theorem loadEntry_ok (readEntry : Bytes → Option LedgerEntryData) (key : LedgerKey)
    (entries : Entries) : ∃ loaded, loadEntry readEntry store key entries = .ok loaded := by
  unfold loadEntry
  split
  · rw [ProgramStore.program, answer_ok hstore]
    exact ⟨_, rfl⟩
  · rw [loadInstances, ProgramStore.instances, answer_ok hstore]
    exact ⟨_, rfl⟩
  · exact ⟨none, rfl⟩

theorem succeeds_runLoads (keys : List LedgerKey) : Succeeds (runLoads host store keys) := by
  induction keys with
  | nil => exact succeeds_pure true
  | cons key keys ih =>
      refine succeeds_bind (fun s => ?_) fun loaded => ?_
      · obtain ⟨loaded, hload⟩ := loadEntry_ok hstore host.readEntry key s.entries
        unfold runLoad
        rw [hload]
        cases loaded with
        | none => exact ⟨false, s, rfl⟩
        | some entries => exact ⟨true, _, rfl⟩
      · cases loaded with
        | false => exact succeeds_pure false
        | true => exact ih

theorem succeeds_readFunction (function : String) (rounds : ℕ) :
    Succeeds (readFunction host store ledger contract function rounds) := by
  induction rounds with
  | zero => exact succeeds_pure _
  | succ rounds ih =>
      refine succeeds_bind (fun s => ⟨_, _, rfl⟩) fun outcome => ?_
      cases outcome with
      | value v => exact succeeds_pure _
      | failed error => exact succeeds_pure _
      | missing keys =>
          refine succeeds_bind (succeeds_runLoads hstore keys) fun loaded => ?_
          cases loaded with
          | false => exact succeeds_pure _
          | true => exact ih

theorem succeeds_readFunctions (declares functions : List String) :
    ∀ metadata,
      Succeeds (readFunctions host store ledger contract declares metadata functions) := by
  induction functions with
  | nil => exact fun _ => succeeds_pure _
  | cons function functions ih =>
      intro metadata
      unfold readFunctions
      split_ifs
      · refine succeeds_bind (succeeds_readFunction hstore function maxRounds) fun result => ?_
        cases result with
        | error answer => exact succeeds_pure _
        | ok value =>
            dsimp only
            cases metadata.set function value with
            | none => exact succeeds_pure _
            | some metadata => exact ih metadata
      · exact ih metadata

theorem succeeds_runContracts [Crates] (declares : Table Hash (List String))
    (todo : List (ContractId × Hash)) :
    Succeeds (runContracts host store ledger declares todo) := by
  induction todo with
  | nil => exact succeeds_pure _
  | cons entry todo ih =>
      obtain ⟨contract, wasmHash⟩ := entry
      unfold runContracts
      cases (declares.lookup wasmHash).filter fun declared => hasMetadata declared with
      | none => exact ih
      | some declared =>
          refine succeeds_bind (succeeds_readFunctions hstore declared metadataFunctions {})
            fun answer => succeeds_bind ih fun writes => ?_
          cases answer <;> exact succeeds_pure _

end

end SorobanExplorer
