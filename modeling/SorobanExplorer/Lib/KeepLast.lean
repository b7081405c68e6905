import Mathlib.Data.List.Basic
import Mathlib.Data.List.Induction
import Mathlib.Data.List.Nodup

/-!
# One item per key, the last

A list is collapsed to one item per key: the last item of a key, at the place of
the first.  Under any one key the collapsed list holds what the list says last
(`filter_keepLastByKey`), its keys stand in the order of their first items
(`pairwise_idxOf_keepLastByKey`), and collapsing the parts of a list first
changes neither (`keepLastByKey_flatMap`).
-/

namespace KeepLast

variable {α κ : Type*} [DecidableEq κ]

/-- Put an item in the place of the one with its key, or at the end. -/
def put (key : α → κ) : List α → α → List α
  | [], item => [item]
  | held :: rest, item =>
      if key held = key item then item :: rest else held :: put key rest item

/-- One item per key: the last one, at the place of the first. -/
def keepLastByKey (key : α → κ) (items : List α) : List α :=
  items.foldl (put key) []

theorem map_put (key : α → κ) (kept : List α) (item : α) :
    (put key kept item).map key =
      if key item ∈ kept.map key then kept.map key else kept.map key ++ [key item] := by
  induction kept with
  | nil => simp [put]
  | cons held rest ih =>
      by_cases h : key held = key item
      · simp [put, h]
      · have hmem : key item ∈ key held :: rest.map key ↔ key item ∈ rest.map key := by
          simp [Ne.symm h]
        simp only [put, if_neg h, List.map_cons, ih, hmem]
        split <;> rfl

theorem nodup_put {key : α → κ} {kept : List α} (hnodup : (kept.map key).Nodup) (item : α) :
    ((put key kept item).map key).Nodup := by
  rw [map_put]
  split
  · exact hnodup
  · rename_i hfresh
    exact List.nodup_append.mpr ⟨hnodup, List.nodup_singleton _, by
      intro k hk k' hk' heq
      rw [List.mem_singleton.mp hk'] at heq
      exact hfresh (heq ▸ hk)⟩

theorem mem_put {key : α → κ} {kept : List α} {item x : α} (h : x ∈ put key kept item) :
    x = item ∨ x ∈ kept := by
  induction kept with
  | nil => exact .inl (List.mem_singleton.mp h)
  | cons held rest ih =>
      unfold put at h
      split at h
      · exact (List.mem_cons.mp h).imp_right (List.mem_cons_of_mem _)
      · rcases List.mem_cons.mp h with rfl | h
        · exact .inr List.mem_cons_self
        · exact (ih h).imp_right (List.mem_cons_of_mem _)

/-- Putting an item changes what stands under its key and under no other. -/
theorem filter_put {key : α → κ} {kept : List α} (hnodup : (kept.map key).Nodup) (item : α)
    (k : κ) : (put key kept item).filter (key · = k) =
      if key item = k then [item] else kept.filter (key · = k) := by
  induction kept with
  | nil => by_cases h : key item = k <;> simp [put, h]
  | cons held rest ih =>
      rw [List.map_cons, List.nodup_cons] at hnodup
      have ih := ih hnodup.2
      by_cases hheld : key held = key item
      · have hnone : rest.filter (key · = key item) = [] := by
          rw [List.filter_eq_nil_iff]
          intro x hx heq
          exact hnodup.1 (hheld ▸ of_decide_eq_true heq ▸ List.mem_map_of_mem hx)
        by_cases hk : key item = k
        · subst hk
          simp [put, hheld, hnone]
        · simp [put, hheld, hk]
      · have hput : put key (held :: rest) item = held :: put key rest item := if_neg hheld
        by_cases hk : key item = k
        · subst hk
          simpa [hput, hheld] using ih
        · by_cases hk' : key held = k <;> simp [hput, hk, hk', ih]

theorem keepLastByKey_append (key : α → κ) (items : List α) (item : α) :
    keepLastByKey key (items ++ [item]) = put key (keepLastByKey key items) item := by
  simp [keepLastByKey]

theorem nodup_keepLastByKey (key : α → κ) (items : List α) :
    ((keepLastByKey key items).map key).Nodup := by
  induction items using List.reverseRecOn with
  | nil => exact List.nodup_nil
  | append_singleton items item ih =>
      rw [keepLastByKey_append]
      exact nodup_put ih item

theorem mem_of_mem_keepLastByKey {key : α → κ} {items : List α} {x : α}
    (h : x ∈ keepLastByKey key items) : x ∈ items := by
  induction items using List.reverseRecOn with
  | nil => exact h
  | append_singleton items item ih =>
      rw [keepLastByKey_append] at h
      rw [List.mem_append, List.mem_singleton]
      exact (mem_put h).symm.imp_left ih

theorem keepLastByKey_map {β : Type*} (f : β → α) (key : α → κ) (items : List β) :
    keepLastByKey key (items.map f) = (keepLastByKey (key ∘ f) items).map f := by
  have hput : ∀ (kept : List β) (item : β),
      put key (kept.map f) (f item) = (put (key ∘ f) kept item).map f := by
    intro kept item
    induction kept with
    | nil => rfl
    | cons held rest ih =>
        by_cases h : key (f held) = key (f item)
        · simp [put, h]
        · simp [put, h, ih]
  induction items using List.reverseRecOn with
  | nil => rfl
  | append_singleton items item ih =>
      rw [List.map_append, List.map_singleton, keepLastByKey_append, ih, hput,
        keepLastByKey_append]

/-- Under a key stands the last item of that key. -/
theorem filter_keepLastByKey (key : α → κ) (items : List α) (k : κ) :
    (keepLastByKey key items).filter (key · = k) =
      (items.filter (key · = k)).getLast?.toList := by
  induction items using List.reverseRecOn with
  | nil => rfl
  | append_singleton items item ih =>
      rw [keepLastByKey_append, filter_put (nodup_keepLastByKey key items), List.filter_append]
      by_cases h : key item = k
      · simp [h]
      · simp [h, ih]

/-- The same for any way to tell the items of one key. -/
theorem filter_keepLastByKey_of_iff {key : α → κ} {items : List α} {p : α → Bool} {k : κ}
    (h : ∀ x ∈ items, p x = true ↔ key x = k) :
    (keepLastByKey key items).filter p = (items.filter p).getLast?.toList := by
  have hkey : ∀ {l : List α}, (∀ x ∈ l, x ∈ items) → l.filter p = l.filter (key · = k) := by
    intro l hl
    apply List.filter_congr
    intro x hx
    rw [Bool.eq_iff_iff, h x (hl x hx), decide_eq_true_iff]
  rw [hkey fun x => mem_of_mem_keepLastByKey, filter_keepLastByKey, ← hkey fun x hx => hx]

/-- Collapsing each part of a list first keeps what stands last under a key. -/
theorem getLast?_filter_flatMap_keepLastByKey {β : Type*} {key : α → κ} {parts : List β}
    {items : β → List α} {p : α → Bool} {k : κ}
    (h : ∀ part ∈ parts, ∀ x ∈ items part, p x = true ↔ key x = k) :
    ((parts.flatMap fun part => keepLastByKey key (items part)).filter p).getLast? =
      ((parts.flatMap items).filter p).getLast? := by
  induction parts with
  | nil => rfl
  | cons part parts ih =>
      rw [List.flatMap_cons, List.flatMap_cons, List.filter_append, List.filter_append,
        List.getLast?_append, List.getLast?_append,
        ih fun part hpart => h part (List.mem_cons_of_mem _ hpart),
        filter_keepLastByKey_of_iff (h part List.mem_cons_self)]
      cases ((items part).filter p).getLast? <;> rfl

/-! ### The place of an item -/

/-- An item goes to the one place of its key. -/
theorem put_eq_set {key : α → κ} {kept : List α} (hnodup : (kept.map key).Nodup) {item : α}
    {i : ℕ} (hi : (kept.map key)[i]? = some (key item)) :
    put key kept item = kept.set i item := by
  induction kept generalizing i with
  | nil => simp at hi
  | cons held rest ih =>
      rw [List.map_cons, List.nodup_cons] at hnodup
      cases i with
      | zero =>
          have hheld : key held = key item := by simpa using hi
          rw [put, if_pos hheld, List.set_cons_zero]
      | succ i =>
          rw [List.map_cons, List.getElem?_cons_succ] at hi
          have hne : key held ≠ key item := fun h => hnodup.1 (h ▸ List.mem_of_getElem? hi)
          rw [put, if_neg hne, ih hnodup.2 hi, List.set_cons_succ]

/-- An item of a new key goes to the end. -/
theorem put_of_notMem {key : α → κ} {kept : List α} {item : α}
    (h : key item ∉ kept.map key) : put key kept item = kept ++ [item] := by
  induction kept with
  | nil => rfl
  | cons held rest ih =>
      rw [List.map_cons, List.mem_cons, not_or] at h
      rw [put, if_neg (Ne.symm h.1), ih h.2, List.cons_append]

theorem mem_map_keepLastByKey {key : α → κ} {items : List α} {k : κ} :
    k ∈ (keepLastByKey key items).map key ↔ k ∈ items.map key := by
  induction items using List.reverseRecOn with
  | nil => rfl
  | append_singleton items item ih =>
      rw [keepLastByKey_append, map_put, List.map_append, List.map_singleton, List.mem_append,
        List.mem_singleton]
      split
      · rename_i hmem
        rw [ih]
        refine ⟨.inl, ?_⟩
        rintro (h | rfl)
        · exact h
        · exact ih.mp hmem
      · rw [List.mem_append, List.mem_singleton, ih]

/-- The keys stand in the order of their first items. -/
theorem pairwise_idxOf_keepLastByKey (key : α → κ) (items : List α) :
    ((keepLastByKey key items).map key).Pairwise fun j k =>
      (items.map key).idxOf j < (items.map key).idxOf k := by
  induction items using List.reverseRecOn with
  | nil => exact List.Pairwise.nil
  | append_singleton items item ih =>
      -- The new item is behind every first item there is.
      have hsame : ∀ {k}, k ∈ (keepLastByKey key items).map key →
          ((items ++ [item]).map key).idxOf k = (items.map key).idxOf k := by
        intro k hk
        rw [List.map_append, List.idxOf_append_of_mem (mem_map_keepLastByKey.mp hk)]
      have hold : ((keepLastByKey key items).map key).Pairwise fun j k =>
          ((items ++ [item]).map key).idxOf j < ((items ++ [item]).map key).idxOf k := by
        apply ih.imp_of_mem
        intro j k hj hk hlt
        rwa [hsame hj, hsame hk]
      rw [keepLastByKey_append, map_put]
      split
      · exact hold
      · rename_i hfresh
        have hnew : key item ∉ items.map key := fun h => hfresh (mem_map_keepLastByKey.mpr h)
        refine List.pairwise_append.mpr ⟨hold, List.pairwise_singleton _ _, ?_⟩
        intro j hj k hk
        rw [List.mem_singleton.mp hk, hsame hj, List.map_append,
          List.idxOf_append_of_notMem hnew, List.map_singleton, List.idxOf_cons_self]
        exact Nat.lt_of_lt_of_le (List.idxOf_lt_length_of_mem (mem_map_keepLastByKey.mp hj))
          (Nat.le_add_right _ _)

/-! ### Collapsing twice -/

theorem put_put {key : α → κ} {held item : α} (h : key held = key item) (kept : List α) :
    put key (put key kept held) item = put key kept item := by
  induction kept with
  | nil => simp [put, h]
  | cons first rest ih =>
      by_cases hfirst : key first = key item
      · simp [put, hfirst, h]
      · simp [put, hfirst, h, ih]

/-- An item of a key that is held already may be put before one of another key. -/
theorem put_comm {key : α → κ} {kept : List α} {x y : α} (hx : key x ∈ kept.map key)
    (hne : key x ≠ key y) : put key (put key kept y) x = put key (put key kept x) y := by
  induction kept with
  | nil => simp at hx
  | cons first rest ih =>
      by_cases hfirst : key first = key x
      · have hy : key first ≠ key y := hfirst ▸ hne
        simp [put, hfirst, hne]
      · have hrest : key x ∈ rest.map key := by
          rw [List.map_cons, List.mem_cons] at hx
          exact hx.resolve_left (Ne.symm hfirst)
        by_cases hy : key first = key y
        · simp [put, hy, Ne.symm hne]
        · simp [put, hfirst, hy, ih hrest]

/-- Past items of other keys, an item is put where it would have been before them. -/
theorem put_foldl {key : α → κ} {kept rest : List α} {x : α} (hx : key x ∈ kept.map key)
    (hrest : key x ∉ rest.map key) :
    put key (rest.foldl (put key) kept) x = rest.foldl (put key) (put key kept x) := by
  induction rest generalizing kept with
  | nil => rfl
  | cons y rest ih =>
      rw [List.map_cons, List.mem_cons, not_or] at hrest
      have hheld : key x ∈ (put key kept y).map key := by
        rw [map_put]
        split
        · exact hx
        · exact List.mem_append_left _ hx
      rw [List.foldl_cons, ih hheld hrest.2, put_comm hx hrest.1, List.foldl_cons]

theorem foldl_put_put {key : α → κ} {items : List α} (hnodup : (items.map key).Nodup)
    (item : α) (kept : List α) : (put key items item).foldl (put key) kept =
      put key (items.foldl (put key) kept) item := by
  induction items generalizing kept with
  | nil => rfl
  | cons held rest ih =>
      rw [List.map_cons, List.nodup_cons] at hnodup
      by_cases hheld : key held = key item
      · have hmem : key item ∈ (put key kept held).map key := by
          rw [map_put, hheld]
          split
          · assumption
          · exact List.mem_append_right _ List.mem_cons_self
        rw [put, if_pos hheld, List.foldl_cons, List.foldl_cons,
          put_foldl hmem (hheld ▸ hnodup.1), put_put hheld]
      · rw [put, if_neg hheld, List.foldl_cons, List.foldl_cons, ih hnodup.2]

/-- Onto any items, a collapsed list adds what the list itself does. -/
theorem foldl_keepLastByKey (key : α → κ) (items kept : List α) :
    (keepLastByKey key items).foldl (put key) kept = items.foldl (put key) kept := by
  induction items using List.reverseRecOn with
  | nil => rfl
  | append_singleton items item ih =>
      rw [keepLastByKey_append, foldl_put_put (nodup_keepLastByKey key items), ih,
        List.foldl_append, List.foldl_cons, List.foldl_nil]

theorem keepLastByKey_idem (key : α → κ) (items : List α) :
    keepLastByKey key (keepLastByKey key items) = keepLastByKey key items :=
  foldl_keepLastByKey key items []

/-- Collapsing the parts of a list first changes nothing. -/
theorem keepLastByKey_flatMap (key : α → κ) (parts : List (List α)) :
    keepLastByKey key (parts.flatMap (keepLastByKey key)) = keepLastByKey key parts.flatten := by
  have hfold : ∀ kept : List α, (parts.flatMap (keepLastByKey key)).foldl (put key) kept =
      parts.flatten.foldl (put key) kept := by
    induction parts with
    | nil => exact fun kept => rfl
    | cons part parts ih =>
        intro kept
        rw [List.flatMap_cons, List.flatten_cons, List.foldl_append, List.foldl_append,
          foldl_keepLastByKey, ih]
  exact hfold []

end KeepLast
