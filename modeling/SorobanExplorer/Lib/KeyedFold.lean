import Mathlib.Data.List.AList
import Mathlib.Data.List.Basic
import Mathlib.Data.List.Forall2
import Mathlib.Data.List.Induction

/-!
# Folding updates into a keyed table

A table is filled by a list of updates, each addressed to one key and free to
read what that key holds.  `lookup_runAll` takes the table apart key by key:
what a key holds in the end is the fold of the updates addressed to it, in
their order, and no other update matters.
-/

namespace KeyedFold

variable {κ α β : Type*}

abbrev Table (κ α : Type*) := AList fun _ : κ => α

/-- One write: the key, and the value it gets in place of what it holds. -/
structure Update (κ α : Type*) where
  key : κ
  apply : Option α → α

/-- An order in which a hash map may hand out its values. -/
structure DrainOrder (α : Type*) where
  drain : List α → List α
  perm : ∀ l, (drain l).Perm l

/-- The order the values are kept in. -/
def DrainOrder.stored {α : Type*} : DrainOrder α :=
  ⟨id, fun l => .refl l⟩

/-- The values of a table. -/
def values (table : Table κ α) : List α :=
  table.entries.map Sigma.snd

/-- The keys and values of a table. -/
def pairs (table : Table κ α) : List (κ × α) :=
  table.entries.map fun entry => (entry.1, entry.2)

theorem nodup_map_fst_pairs (table : Table κ α) : ((pairs table).map Prod.fst).Nodup := by
  rw [pairs, List.map_map]
  exact table.nodupKeys

variable [DecidableEq κ]

theorem mem_pairs {table : Table κ α} {key : κ} {value : α} :
    (key, value) ∈ pairs table ↔ table.lookup key = some value := by
  rw [pairs, List.mem_map, ← Option.mem_def, AList.mem_lookup_iff]
  constructor
  · rintro ⟨entry, hentry, heq⟩
    obtain ⟨rfl, rfl⟩ := Prod.mk.inj heq
    exact hentry
  · exact fun hentry => ⟨⟨key, value⟩, hentry, rfl⟩

/-! ## First words -/

/-- The first value a list of keyed values has for a key. -/
def firstOf (key : κ) (said : List (κ × α)) : Option α :=
  (said.find? (·.1 = key)).map (·.2)

@[simp] theorem firstOf_nil (key : κ) : firstOf key ([] : List (κ × α)) = none := rfl

theorem firstOf_cons (key : κ) (entry : κ × α) (said : List (κ × α)) :
    firstOf key (entry :: said) = if entry.1 = key then some entry.2 else firstOf key said := by
  unfold firstOf
  by_cases h : entry.1 = key
  · rw [List.find?_cons_of_pos (by simpa using h), if_pos h, Option.map_some]
  · rw [List.find?_cons_of_neg (by simpa using h), if_neg h]

theorem mem_of_firstOf {key : κ} {said : List (κ × α)} {value : α}
    (h : firstOf key said = some value) : (key, value) ∈ said := by
  obtain ⟨entry, hfind, rfl⟩ := Option.map_eq_some_iff.mp h
  have hkey : entry.1 = key := by simpa using List.find?_some hfind
  exact hkey ▸ List.mem_of_find?_eq_some hfind

theorem firstOf_eq_none {key : κ} {said : List (κ × α)} :
    firstOf key said = none ↔ ∀ entry ∈ said, entry.1 ≠ key := by
  simp [firstOf]

/-- Renaming keys and values keeps the first value of a key that no other key is
renamed to. -/
theorem firstOf_map {κ' : Type*} [DecidableEq κ'] (rename : κ → κ') (read : α → β) {key : κ}
    {said : List (κ × α)} (h : ∀ entry ∈ said, rename entry.1 = rename key → entry.1 = key) :
    firstOf (rename key) (said.map fun entry => (rename entry.1, read entry.2)) =
      (firstOf key said).map read := by
  induction said with
  | nil => rfl
  | cons entry said ih =>
      rw [List.map_cons, firstOf_cons, firstOf_cons,
        ih fun other hother => h other (List.mem_cons_of_mem _ hother)]
      by_cases hkey : entry.1 = key
      · rw [if_pos (congrArg rename hkey), if_pos hkey, Option.map_some]
      · have hrename : rename entry.1 ≠ rename key := fun hr => hkey (h entry List.mem_cons_self hr)
        rw [if_neg hrename, if_neg hkey]

def Update.run (table : Table κ α) (update : Update κ α) : Table κ α :=
  table.insert update.key (update.apply (table.lookup update.key))

def runAll (updates : List (Update κ α)) (table : Table κ α) : Table κ α :=
  updates.foldl Update.run table

/-- What one key holds after the updates addressed to it. -/
def history (key : κ) (updates : List (Update κ α)) (value : Option α) : Option α :=
  (updates.filter (·.key = key)).foldl (fun value update => some (update.apply value)) value

/-! ## One key at a time -/

theorem lookup_run (table : Table κ α) (update : Update κ α) (key : κ) :
    (update.run table).lookup key =
      if update.key = key then some (update.apply (table.lookup key)) else table.lookup key := by
  unfold Update.run
  by_cases h : update.key = key
  · subst h
    simp
  · rw [if_neg h, AList.lookup_insert_ne (Ne.symm h)]

@[simp] theorem history_nil (key : κ) (value : Option α) : history key [] value = value := rfl

theorem history_cons (key : κ) (update : Update κ α) (updates : List (Update κ α))
    (value : Option α) :
    history key (update :: updates) value =
      history key updates (if update.key = key then some (update.apply value) else value) := by
  by_cases h : update.key = key <;> simp [history, h]

theorem history_append (key : κ) (first second : List (Update κ α)) (value : Option α) :
    history key (first ++ second) value = history key second (history key first value) := by
  simp [history]

/-- The value of a key is the fold of the updates addressed to it. -/
theorem lookup_runAll (updates : List (Update κ α)) :
    ∀ (table : Table κ α) (key : κ),
      (runAll updates table).lookup key = history key updates (table.lookup key) := by
  induction updates with
  | nil => intro table key; rfl
  | cons update updates ih =>
      intro table key
      rw [history_cons, ← lookup_run, ← ih]
      rfl

/-- Updates addressed elsewhere leave a key alone. -/
theorem history_eq_of_forall_ne {key : κ} {updates : List (Update κ α)}
    (h : ∀ update ∈ updates, update.key ≠ key) (value : Option α) :
    history key updates value = value := by
  have hnone : updates.filter (·.key = key) = [] := by
    simpa [List.filter_eq_nil_iff] using h
  simp [history, hnone]

/-- Updates that ignore what they find leave the value of the last one. -/
theorem history_const {key : κ} {updates : List (Update κ α)}
    (h : ∀ update ∈ updates, ∀ value, update.apply value = update.apply none) (value : Option α) :
    history key updates value =
      ((updates.filter (·.key = key)).getLast?.map (·.apply none)).or value := by
  induction updates generalizing value with
  | nil => simp
  | cons update rest ih =>
      rw [history_cons, ih fun other hother => h other (List.mem_cons_of_mem _ hother)]
      by_cases hkey : update.key = key
      · rw [if_pos hkey, h update List.mem_cons_self, List.filter_cons_of_pos (by simpa using hkey),
          List.getLast?_cons]
        cases (rest.filter (·.key = key)).getLast? <;> simp
      · rw [if_neg hkey, List.filter_cons_of_neg (by simpa using hkey)]

/-- Updates that leave a value alone fill what is empty with the first value said. -/
theorem history_first (key : κ) (said : List (κ × α)) (value : Option α) :
    history key (said.map fun entry =>
        (⟨entry.1, fun held => held.getD entry.2⟩ : Update κ α)) value =
      value.or (firstOf key said) := by
  induction said generalizing value with
  | nil => simp
  | cons entry said ih =>
      rw [List.map_cons, history_cons, ih, firstOf_cons]
      by_cases hkey : entry.1 = key
      · rw [if_pos hkey, if_pos hkey]
        cases value <;> rfl
      · rw [if_neg hkey, if_neg hkey]

/-- Updates that extend a list leave the list of all that was added, in order. -/
theorem getD_history_extend {ρ β : Type*} (keyOf : ρ → κ) (added : ρ → List β) (key : κ)
    (rows : List ρ) (value : Option (List β)) :
    (history key (rows.map fun row =>
        (⟨keyOf row, fun slot => slot.getD [] ++ added row⟩ : Update κ (List β))) value).getD [] =
      value.getD [] ++ (rows.filter (keyOf · = key)).flatMap added := by
  induction rows generalizing value with
  | nil => simp
  | cons row rows ih =>
      rw [List.map_cons, history_cons, ih]
      by_cases h : keyOf row = key
      · simp [h]
      · simp [h]

/-- Updates that keep the smaller value leave the smallest one said. -/
theorem history_min [Min α] (key : κ) (said : List (κ × α)) :
    history key (said.map fun entry => (⟨entry.1, fun least => least.elim entry.2 (min · entry.2)⟩ :
      Update κ α)) none = ((said.filter (·.1 = key)).map Prod.snd).min? := by
  induction said using List.reverseRecOn with
  | nil => rfl
  | append_singleton said entry ih =>
      rw [List.map_append, history_append, ih, List.map_singleton, history_cons, history_nil,
        List.filter_append, List.map_append]
      by_cases hkey : entry.1 = key
      · rw [if_pos hkey, List.filter_cons_of_pos (by simpa using hkey), List.filter_nil,
          List.map_singleton]
        cases (said.filter (·.1 = key)).map Prod.snd with
        | nil => rfl
        | cons first rest =>
            rw [List.cons_append, List.min?_cons', List.min?_cons', List.foldl_concat]
            rfl
      · rw [if_neg hkey, List.filter_cons_of_neg (by simpa using hkey), List.filter_nil,
          List.map_nil, List.append_nil]

/-- A property that every update gives the value it writes, from any value that
has it, holds of what the key holds in the end. -/
theorem history_induction {P : α → Prop} {key : κ} {updates : List (Update κ α)}
    (step : ∀ update ∈ updates, update.key = key →
      ∀ value, (∀ v ∈ value, P v) → P (update.apply value)) :
    ∀ value, (∀ v ∈ value, P v) → ∀ v ∈ history key updates value, P v := by
  induction updates with
  | nil => intro value h; exact h
  | cons update updates ih =>
      intro value h
      rw [history_cons]
      apply ih fun u hu => step u (List.mem_cons_of_mem _ hu)
      by_cases hkey : update.key = key
      · simp only [hkey, if_true, Option.mem_some_iff, forall_eq']
        exact step update List.mem_cons_self hkey value h
      · simpa [hkey] using h

/-! ## Steps that act on each key alone -/

/-- Change in place the values whose key satisfies a predicate. -/
def modifyWhere (p : κ → Bool) (change : α → α) (table : Table κ α) : Table κ α where
  entries := table.entries.map fun entry =>
    if p entry.1 then ⟨entry.1, change entry.2⟩ else entry
  nodupKeys := by
    have hkeys : (table.entries.map fun entry =>
        if p entry.1 then (⟨entry.1, change entry.2⟩ : Sigma fun _ : κ => α) else entry).keys =
        table.entries.keys := by
      simp only [List.keys, List.map_map]
      apply List.map_congr_left
      intro entry _
      show (if p entry.1 then (⟨entry.1, change entry.2⟩ : Sigma fun _ : κ => α) else entry).1 = _
      split <;> rfl
    unfold List.NodupKeys
    rw [hkeys]
    exact table.nodupKeys

theorem lookup_modifyWhere (p : κ → Bool) (change : α → α) (table : Table κ α) (key : κ) :
    (modifyWhere p change table).lookup key =
      if p key then (table.lookup key).map change else table.lookup key := by
  obtain ⟨entries, hnodup⟩ := table
  simp only [modifyWhere, AList.lookup]
  clear hnodup
  induction entries with
  | nil => simp
  | cons entry entries ih =>
      obtain ⟨k, v⟩ := entry
      by_cases h : k = key
      · subst h
        by_cases hp : p k <;> simp [hp]
      · have htail := List.dlookup_cons_ne entries ⟨k, v⟩ (Ne.symm h)
        rw [htail, ← ih, List.map_cons]
        split <;> exact List.dlookup_cons_ne _ _ (Ne.symm h)

/-- When each step acts on what one key holds and on nothing else, so does a run. -/
theorem lookup_foldl {ε : Type*} {step : Table κ α → ε → Table κ α} {key : κ}
    {effect : Option α → ε → Option α}
    (hstep : ∀ table e, (step table e).lookup key = effect (table.lookup key) e) :
    ∀ (es : List ε) (table : Table κ α),
      (es.foldl step table).lookup key = es.foldl effect (table.lookup key) := by
  intro es
  induction es with
  | nil => intro table; rfl
  | cons e es ih =>
      intro table
      rw [List.foldl_cons, List.foldl_cons, ih, hstep]

/-- Steps that change nothing can be left out of a run. -/
theorem foldl_filter_eq {ε σ : Type*} {effect : σ → ε → σ} {p : ε → Bool} :
    ∀ {es : List ε} (_ : ∀ e ∈ es, p e = false → ∀ s, effect s e = s) (s : σ),
      (es.filter p).foldl effect s = es.foldl effect s := by
  intro es
  induction es with
  | nil => intro _ s; rfl
  | cons e es ih =>
      intro hidle s
      have ih := ih fun e he => hidle e (List.mem_cons_of_mem _ he)
      cases hp : p e with
      | true => rw [List.filter_cons_of_pos hp, List.foldl_cons, List.foldl_cons, ih]
      | false =>
          rw [List.filter_cons_of_neg (by simp [hp]), List.foldl_cons,
            hidle e List.mem_cons_self hp, ih]

/-! ## Last words -/

/-- The last value a list of keyed values has for a key. -/
def lastOf (key : κ) (said : List (κ × α)) : Option α :=
  (said.filterMap fun entry => if entry.1 = key then some entry.2 else none).getLast?

@[simp] theorem lastOf_nil (key : κ) : lastOf key ([] : List (κ × α)) = none := rfl

theorem lastOf_append (key : κ) (first second : List (κ × α)) :
    lastOf key (first ++ second) = (lastOf key second).or (lastOf key first) := by
  simp [lastOf, List.filterMap_append, List.getLast?_append]

theorem lastOf_eq_none {key : κ} {said : List (κ × α)} :
    lastOf key said = none ↔ ∀ entry ∈ said, entry.1 ≠ key := by
  simp [lastOf]

theorem isSome_lastOf_of_mem {said : List (κ × α)} {entry : κ × α} (h : entry ∈ said) :
    (lastOf entry.1 said).isSome := by
  rw [Option.isSome_iff_ne_none]
  exact fun hnone => lastOf_eq_none.mp hnone entry h rfl

theorem mem_of_lastOf {key : κ} {said : List (κ × α)} {value : α}
    (h : lastOf key said = some value) : (key, value) ∈ said := by
  have hmem := List.mem_of_getLast? h
  simp only [List.mem_filterMap, Option.ite_none_right_eq_some, Option.some.injEq] at hmem
  obtain ⟨entry, hentry, rfl, rfl⟩ := hmem
  exact hentry

theorem lastOf_eq_of_mem {key : κ} {said : List (κ × α)} {value : α} (hmem : (key, value) ∈ said)
    (hsame : ∀ other, (key, other) ∈ said → other = value) : lastOf key said = some value := by
  obtain ⟨last, hlast⟩ := Option.isSome_iff_exists.mp (isSome_lastOf_of_mem hmem)
  rw [hlast, hsame last (mem_of_lastOf hlast)]

/-- The last entry of a key is the key with its last value. -/
theorem getLast?_filter_fst (key : κ) (said : List (κ × α)) :
    (said.filter (·.1 = key)).getLast? = (lastOf key said).map fun value => (key, value) := by
  unfold lastOf
  rw [← List.getLast?_map, List.map_filterMap, ← List.filterMap_eq_filter]
  congr 1
  apply List.filterMap_congr
  intro entry _
  by_cases h : entry.1 = key
  · subst h
    simp
  · simp [h]

/-- The last value a list's elements have for a key. -/
theorem lastOf_map_pair {β : Type*} (keyOf : β → κ) (value : β → α) (key : κ) (items : List β) :
    lastOf key (items.map fun item => (keyOf item, value item)) =
      ((items.filter (keyOf · = key)).getLast?).map value := by
  unfold lastOf
  rw [List.filterMap_map, ← List.getLast?_map, ← List.filterMap_eq_filter, List.map_filterMap]
  congr 1
  apply List.filterMap_congr
  intro item _
  by_cases h : keyOf item = key <;> simp [h, Option.guard]

/-- Rewriting the values rewrites the last one. -/
theorem lastOf_map_snd {β : Type*} (write : α → β) (key : κ) (said : List (κ × α)) :
    lastOf key (said.map fun entry => (entry.1, write entry.2)) = (lastOf key said).map write := by
  unfold lastOf
  rw [List.filterMap_map, ← List.getLast?_map, List.map_filterMap]
  congr 1
  apply List.filterMap_congr
  intro entry _
  by_cases h : entry.1 = key <;> simp [h]

/-- Renaming keys keeps the last value of a key that no other key is renamed to. -/
theorem lastOf_map {κ' : Type*} [DecidableEq κ'] {rename : κ → κ'} {key : κ} {said : List (κ × α)}
    (h : ∀ entry ∈ said, rename entry.1 = rename key → entry.1 = key) :
    lastOf (rename key) (said.map fun entry => (rename entry.1, entry.2)) = lastOf key said := by
  unfold lastOf
  rw [List.filterMap_map]
  congr 1
  apply List.filterMap_congr
  intro entry hentry
  by_cases hkey : entry.1 = key
  · simp [hkey]
  · have hrename : rename entry.1 ≠ rename key := fun hr => hkey (h entry hentry hr)
    simp [hkey, hrename]

/-- A reading of one key's value that every step sets or keeps ends at the last
value set. -/
theorem read_history {ε γ : Type*} {read : Option α → Option γ} {sets : ε → Option γ}
    {effect : ε → Option (Update κ α)} {key : κ}
    (step : ∀ e value, read (history key (effect e).toList value) = (sets e).or (read value)) :
    ∀ (es : List ε) value, read (history key (es.filterMap effect) value) =
      (es.filterMap sets).getLast?.or (read value) := by
  intro es
  induction es with
  | nil => intro value; simp
  | cons e es ih =>
      intro value
      have hsplit : (e :: es).filterMap effect = (effect e).toList ++ es.filterMap effect := by
        cases h : effect e <;> simp [h]
      rw [hsplit, history_append, ih, step]
      cases h : sets e with
      | none => simp [h]
      | some set => cases hlast : (es.filterMap sets).getLast? <;> simp [h, List.getLast?_cons, hlast]

/-- A table made of a list of pairs; the last pair of a key stays. -/
def collect (said : List (κ × α)) : Table κ α :=
  said.foldl (fun table entry => table.insert entry.1 entry.2) ∅

/-- Pairs put into a table: the last pair of a key stays, in place of what the table has. -/
theorem lookup_foldl_insert (key : κ) (said : List (κ × α)) (table : Table κ α) :
    (said.foldl (fun table entry => table.insert entry.1 entry.2) table).lookup key =
      (lastOf key said).or (table.lookup key) := by
  induction said using List.reverseRecOn with
  | nil => rfl
  | append_singleton said entry ih =>
      rw [List.foldl_append, lastOf_append]
      by_cases h : entry.1 = key
      · subst h
        simp [lastOf]
      · rw [List.foldl_cons, List.foldl_nil, AList.lookup_insert_ne (Ne.symm h), ih]
        simp [lastOf, h]

theorem lookup_collect (key : κ) (said : List (κ × α)) :
    (collect said).lookup key = lastOf key said := by
  rw [collect, lookup_foldl_insert, AList.lookup_empty, Option.or_none]

/-! ## Simulation -/

/-- One update simulates another: same key, and related values from related
values. -/
def Update.Simulates (R : α → β → Prop) (update : Update κ α) (update' : Update κ β) : Prop :=
  update.key = update'.key ∧
    ∀ value value', Option.Rel R value value' → R (update.apply value) (update'.apply value')

/-- Updates that simulate each other one by one leave related values. -/
theorem history_rel {R : α → β → Prop} {updates : List (Update κ α)}
    {updates' : List (Update κ β)} (h : List.Forall₂ (Update.Simulates R) updates updates')
    (key : κ) :
    ∀ {value value'}, Option.Rel R value value' →
      Option.Rel R (history key updates value) (history key updates' value') := by
  induction h with
  | nil => intro value value' hrel; exact hrel
  | cons hstep _ ih =>
      intro value value' hrel
      rw [history_cons, history_cons, hstep.1]
      apply ih
      split
      · exact .some (hstep.2 _ _ hrel)
      · exact hrel

/-- Partial readers that are related on related elements read related lists. -/
theorem forall₂_filterMap {γ δ : Type*} {P : γ → δ → Prop} {R : α → β → Prop}
    {f : γ → Option α} {g : δ → Option β}
    (hread : ∀ x y, P x y → Option.Rel R (f x) (g y)) {l : List γ} {m : List δ}
    (h : List.Forall₂ P l m) : List.Forall₂ R (l.filterMap f) (m.filterMap g) := by
  induction h with
  | nil => exact .nil
  | @cons x y l m hxy _ ih =>
      have hxy := hread x y hxy
      rw [List.filterMap_cons, List.filterMap_cons]
      cases hf : f x <;> cases hg : g y <;> rw [hf, hg] at hxy <;> cases hxy
      · exact ih
      · rename_i hab
        exact .cons hab ih

/-- Partial readers that agree on related elements read one list. -/
theorem filterMap_eq_of_forall₂ {γ δ : Type*} {P : γ → δ → Prop} {f : γ → Option α}
    {g : δ → Option α} (hread : ∀ x y, P x y → f x = g y) {l : List γ} {m : List δ}
    (h : List.Forall₂ P l m) : l.filterMap f = m.filterMap g := by
  induction h with
  | nil => rfl
  | cons hxy _ ih => rw [List.filterMap_cons, List.filterMap_cons, hread _ _ hxy, ih]

/-! ## Values -/

/-- The entries under one key are the one the table holds there. -/
theorem filter_entries (table : Table κ α) (key : κ) :
    table.entries.filter (fun entry => entry.1 = key) =
      (table.lookup key).toList.map fun value => ⟨key, value⟩ := by
  obtain ⟨entries, hnodup⟩ := table
  simp only [AList.lookup]
  induction entries with
  | nil => simp
  | cons entry entries ih =>
      obtain ⟨k, v⟩ := entry
      have hnodup' : List.NodupKeys entries := (List.nodupKeys_cons.mp hnodup).2
      have hfresh : k ∉ List.keys entries := (List.nodupKeys_cons.mp hnodup).1
      have ih := ih hnodup'
      by_cases h : k = key
      · subst h
        rw [List.dlookup_eq_none.mpr hfresh] at ih
        simp [ih]
      · rw [List.dlookup_cons_ne entries ⟨k, v⟩ (Ne.symm h)]
        simpa [h] using ih

/-- When every value knows its key, the values under one key are the one the
table holds there. -/
theorem filter_values {table : Table κ α} {keyOf : α → κ}
    (hkey : ∀ key value, table.lookup key = some value → keyOf value = key) (key : κ) :
    (values table).filter (keyOf · = key) = (table.lookup key).toList := by
  have hentries : table.entries.filter (fun entry => keyOf entry.2 = key) =
      table.entries.filter (fun entry => entry.1 = key) := by
    apply List.filter_congr
    intro entry hmem
    rw [hkey entry.1 entry.2 (AList.mem_lookup_iff.mpr hmem)]
  rw [values, List.filter_map]
  show (table.entries.filter fun entry => keyOf entry.2 = key).map Sigma.snd = _
  rw [hentries, filter_entries]
  simp [Function.comp_def]

/-- Drained values under one key, in whatever order they come. -/
theorem filter_drain {table : Table κ α} {keyOf : α → κ} (order : DrainOrder α)
    (hkey : ∀ key value, table.lookup key = some value → keyOf value = key) (key : κ) :
    (order.drain (values table)).filter (keyOf · = key) = (table.lookup key).toList := by
  have hperm : ((order.drain (values table)).filter (keyOf · = key)).Perm
      (table.lookup key).toList := by
    rw [← filter_values hkey key]
    exact (order.perm (values table)).filter _
  cases h : table.lookup key with
  | none =>
      rw [h] at hperm
      exact hperm.eq_nil
  | some value =>
      rw [h] at hperm
      exact List.perm_singleton.mp hperm

end KeyedFold
