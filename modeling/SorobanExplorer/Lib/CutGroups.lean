import SorobanExplorer.Lib.Ranked

/-!
# Groups of a sorted list, read through windows that cut them

Rows sorted by rank come in groups of one key.  A read returns the first rows only, so its
last group may be cut off; it drops that group and goes on after the last whole one.

* `map_some_groups`: folding sorted rows makes one group a key, in order;
* `whole_of_cut`: but for the last, the groups of a window are groups of the list;
* `keysIn_after`: going on after a key leaves the keys after it.

`wholeGroups_eq` puts them together: a read makes the next of all groups, every one that is
left if its window was not full, and otherwise fewer.
-/

namespace CutGroups

open Ranked

variable {α β κ ρ : Type*} [DecidableEq κ] [LinearOrder ρ]

/-! ## Keys in order -/

/-- The keys of rows, by rank, each once. -/
def keysIn (rank : κ → ρ) (key : α → κ) (l : List α) : List κ :=
  firstBy id (sortBy rank (l.map key))

variable {rank : κ → ρ} {key : α → κ} {l l' : List α}

theorem mem_keysIn {k : κ} : k ∈ keysIn rank key l ↔ ∃ a ∈ l, key a = k := by
  rw [keysIn, mem_firstBy_id, mem_sortBy, List.mem_map]

theorem increasing_keysIn (hrank : Function.Injective rank) (l : List α) :
    Increasing rank (keysIn rank key l) :=
  increasing_firstBy_sortBy hrank _

theorem keysIn_eq (hrank : Function.Injective rank) {keys : List κ} (h : Increasing rank keys)
    (hmem : ∀ k, k ∈ keys ↔ ∃ a ∈ l, key a = k) : keysIn rank key l = keys :=
  (increasing_keysIn hrank l).eq_of_mem_iff h fun k => by rw [mem_keysIn, hmem]

theorem keysIn_perm (hrank : Function.Injective rank) (h : l.Perm l') :
    keysIn rank key l = keysIn rank key l' :=
  keysIn_eq hrank (increasing_keysIn hrank l') fun k => by simp only [mem_keysIn, h.mem_iff]

theorem keysIn_filter (hrank : Function.Injective rank) (p : κ → Bool) (l : List α) :
    keysIn rank key (l.filter (p <| key ·)) = (keysIn rank key l).filter p := by
  refine keysIn_eq hrank ((increasing_keysIn hrank l).sublist List.filter_sublist) fun k => ?_
  simp only [List.mem_filter, mem_keysIn]
  constructor
  · rintro ⟨⟨a, ha, rfl⟩, hp⟩
    exact ⟨a, ⟨ha, hp⟩, rfl⟩
  · rintro ⟨a, ⟨ha, hp⟩, rfl⟩
    exact ⟨⟨a, ha, rfl⟩, hp⟩

@[simp] theorem keysIn_nil : keysIn rank key [] = [] := by
  simp [keysIn, sortBy, firstBy]

theorem keysIn_eq_nil : keysIn rank key l = [] ↔ l = [] := by
  constructor
  · intro hnil
    by_contra hne
    obtain ⟨a, ha⟩ := List.exists_mem_of_ne_nil l hne
    have hmem : key a ∈ keysIn rank key l := mem_keysIn.mpr ⟨a, ha, rfl⟩
    rw [hnil] at hmem
    cases hmem
  · rintro rfl
    exact keysIn_nil

/-- Rows sorted by rank. -/
def Sorted (rank : κ → ρ) (key : α → κ) (l : List α) : Prop :=
  l.Pairwise fun a b => rank (key a) ≤ rank (key b)

/-- One more row at the end has the last key, or a new one. -/
theorem keysIn_concat (hrank : Function.Injective rank) {a : α}
    (h : Sorted rank key (l ++ [a])) :
    (∃ keys, keysIn rank key l = keys ++ [key a] ∧ keysIn rank key (l ++ [a]) = keys ++ [key a]) ∨
      key a ∉ keysIn rank key l ∧
        keysIn rank key (l ++ [a]) = keysIn rank key l ++ [key a] := by
  have hbelow : ∀ k ∈ keysIn rank key l, rank k ≤ rank (key a) := by
    intro k hk
    obtain ⟨b, hb, rfl⟩ := mem_keysIn.mp hk
    exact (List.pairwise_append.mp h).2.2 b hb a (by simp)
  by_cases hmem : key a ∈ keysIn rank key l
  · left
    have hsame : keysIn rank key (l ++ [a]) = keysIn rank key l := by
      refine keysIn_eq hrank (increasing_keysIn hrank l) fun k => ?_
      rw [mem_keysIn]
      constructor
      · rintro ⟨b, hb, rfl⟩
        exact ⟨b, by simp [hb], rfl⟩
      · rintro ⟨b, hb, rfl⟩
        rcases List.mem_append.mp hb with hb | hb
        · exact ⟨b, hb, rfl⟩
        · obtain rfl := List.mem_singleton.mp hb
          exact mem_keysIn.mp hmem
    -- nothing ranks above the key, so it is the last
    obtain ⟨first, last, hsplit⟩ := List.append_of_mem hmem
    have hinc := @increasing_keysIn _ _ _ _ _ _ key hrank l
    rw [hsplit] at hinc hbelow
    have hlast : last = [] := by
      rw [List.eq_nil_iff_forall_not_mem]
      intro k hk
      have hlt := List.rel_of_pairwise_cons (List.pairwise_append.mp hinc).2.1 hk
      exact absurd (hbelow k (by simp [hk])) (not_le.mpr hlt)
    rw [hlast] at hsplit
    exact ⟨first, hsplit, hsame.trans hsplit⟩
  · right
    refine ⟨hmem, keysIn_eq hrank ?_ fun k => ?_⟩
    · rw [Increasing, List.pairwise_append]
      refine ⟨increasing_keysIn hrank l, by simp, fun k hk k' hk' => ?_⟩
      obtain rfl := List.mem_singleton.mp hk'
      refine lt_of_le_of_ne (hbelow k hk) fun heq => hmem ?_
      rwa [← hrank heq]
    · rw [List.mem_append, mem_keysIn, List.mem_singleton]
      constructor
      · rintro (⟨b, hb, rfl⟩ | rfl)
        · exact ⟨b, by simp [hb], rfl⟩
        · exact ⟨a, by simp, rfl⟩
      · rintro ⟨b, hb, rfl⟩
        rcases List.mem_append.mp hb with hb | hb
        · exact Or.inl ⟨b, hb, rfl⟩
        · exact Or.inr (by rw [List.mem_singleton.mp hb])

/-! ## Folding rows into groups -/

/-- A row joins the last group if it belongs there, and else begins one. -/
def joinLast (belongs : β → α → Bool) (start : α → β) (add : β → α → β) (out : List β) (a : α) :
    List β :=
  match out.getLast? with
  | some last =>
      if belongs last a then out.dropLast ++ [add last a] else out ++ [add (start a) a]
  | none => [add (start a) a]

/-- Skip a row that has all of the key of the row before it. -/
def skipRepeat {γ : Type*} [DecidableEq γ] (whole : α → γ) (f : β → α → β) (state : Option γ × β)
    (a : α) : Option γ × β :=
  if state.1 = some (whole a) then state else (some (whole a), f state.2 a)

/-- Skipping copies changes nothing where a copy changes nothing. -/
theorem foldl_skipRepeat {γ : Type*} [DecidableEq γ] {whole : α → γ} {f : β → α → β}
    (hagain : ∀ b a, f (f b a) a = f b a)
    (hcopies : ∀ a ∈ l, ∀ a' ∈ l, whole a = whole a' → a = a') (b : β) :
    l.foldl (skipRepeat whole f) (none, b) = (l.getLast?.map whole, l.foldl f b) := by
  induction l using List.reverseRecOn with
  | nil => rfl
  | append_singleton l a ih =>
      have hbefore := ih fun x hx y hy => hcopies x (by simp [hx]) y (by simp [hy])
      rw [List.foldl_concat, List.foldl_concat, List.getLast?_concat, hbefore, skipRepeat]
      rcases List.eq_nil_or_concat l with rfl | ⟨first, last, rfl⟩
      · rfl
      · rw [List.concat_eq_append, List.getLast?_concat]
        by_cases hkey : whole last = whole a
        · -- the row before is a copy
          obtain rfl := hcopies last (by simp) a (by simp) hkey
          rw [if_pos (by rfl), List.foldl_concat, hagain]
        · exact if_neg fun heq => hkey (Option.some.inj heq)

theorem joinLast_again {belongs : β → α → Bool} {start : α → β} {add : β → α → β}
    (hadd : ∀ b a, add (add b a) a = add b a) (hstart : ∀ a, belongs (add (start a) a) a = true)
    (hbelongs : ∀ b a, belongs b a = true → belongs (add b a) a = true) (out : List β) (a : α) :
    joinLast belongs start add (joinLast belongs start add out a) a =
      joinLast belongs start add out a := by
  have hjoin : ∀ before b, belongs (add b a) a = true →
      joinLast belongs start add (before ++ [add b a]) a = before ++ [add b a] := by
    intro before b hb
    have hsame : (before ++ [add b a]).dropLast ++ [add (add b a) a] = before ++ [add b a] := by
      rw [List.dropLast_concat, hadd]
    rw [joinLast, List.getLast?_concat]
    exact (if_pos hb).trans hsame
  cases hread : out.getLast? with
  | none =>
      have hone : joinLast belongs start add out a = [] ++ [add (start a) a] := by
        rw [joinLast, hread]
        rfl
      rw [hone, hjoin _ _ (hstart a)]
  | some last =>
      by_cases hlast : belongs last a = true
      · have hone : joinLast belongs start add out a = out.dropLast ++ [add last a] := by
          rw [joinLast, hread]
          exact if_pos hlast
        rw [hone, hjoin _ _ (hbelongs _ _ hlast)]
      · have hone : joinLast belongs start add out a = out ++ [add (start a) a] := by
          rw [joinLast, hread]
          exact if_neg hlast
        rw [hone, hjoin _ _ (hstart a)]

/-- The group of some rows, if there are any. -/
def assemble (start : α → β) (add : β → α → β) : List α → Option β
  | [] => none
  | a :: rest => some ((a :: rest).foldl add (start a))

section

variable {start : α → β} {add : β → α → β} {belongs : β → α → Bool} {keyOf : β → κ}

theorem assemble_concat (group : List α) (a : α) :
    assemble start add (group ++ [a]) =
      some (add ((assemble start add group).getD (start a)) a) := by
  cases group with
  | nil => rfl
  | cons first rest => simp [assemble]

omit [DecidableEq κ] in
theorem keyOf_assemble (hstart : ∀ a, keyOf (start a) = key a)
    (hadd : ∀ b a, keyOf (add b a) = keyOf b) {k : κ} {group : List α}
    (hgroup : ∀ a ∈ group, key a = k) {b : β} (h : assemble start add group = some b) :
    keyOf b = k := by
  induction group using List.reverseRecOn generalizing b with
  | nil => cases h
  | append_singleton group a ih =>
      rw [assemble_concat] at h
      obtain rfl := Option.some.inj h
      rw [hadd]
      cases hprev : assemble start add group with
      | none => rw [Option.getD_none, hstart, hgroup a (by simp)]
      | some b => exact ih (fun c hc => hgroup c (by simp [hc])) hprev

/-- **Folding sorted rows** makes one group a key, in order, of the rows of the key. -/
theorem map_some_groups (hrank : Function.Injective rank) (hstart : ∀ a, keyOf (start a) = key a)
    (hadd : ∀ b a, keyOf (add b a) = keyOf b)
    (hbelongs : ∀ b a, belongs b a = true ↔ keyOf b = key a) (h : Sorted rank key l) :
    (l.foldl (joinLast belongs start add) []).map some =
      (keysIn rank key l).map fun k => assemble start add (l.filter (key · = k)) := by
  induction l using List.reverseRecOn with
  | nil => rw [keysIn_nil]; rfl
  | append_singleton l a ih =>
      have ih := ih (List.pairwise_append.mp h).1
      set out := l.foldl (joinLast belongs start add) [] with hout
      have hfilter : ∀ k, (l ++ [a]).filter (key · = k) =
          if key a = k then l.filter (key · = k) ++ [a] else l.filter (key · = k) := by
        intro k
        by_cases hk : key a = k
        · simp [hk]
        · simp [hk]
      have hgroup : ∀ {k b}, assemble start add (l.filter (key · = k)) = some b → keyOf b = k :=
        fun hb => keyOf_assemble hstart hadd
          (fun a ha => by simpa using (List.mem_filter.mp ha).2) hb
      -- the groups of other keys stay as they are
      have hother : ∀ keys : List κ, key a ∉ keys →
          (keys.map fun k => assemble start add ((l ++ [a]).filter (key · = k))) =
            keys.map fun k => assemble start add (l.filter (key · = k)) := by
        intro keys hnot
        apply List.map_congr_left
        intro k hk
        have hne : key a ≠ k := fun heq => hnot (heq ▸ hk)
        rw [hfilter, if_neg hne]
      rw [List.foldl_concat, ← hout]
      rcases keysIn_concat hrank h with ⟨keys, hold, hnew⟩ | ⟨hfresh, hnew⟩
      · -- the last group has the row's key
        have hinc := @increasing_keysIn _ _ _ _ _ _ key hrank l
        rw [hold] at ih hinc
        rw [List.map_append, List.map_singleton] at ih
        obtain ⟨before, lasts, hsplit, hbefore, hlasts⟩ := List.map_eq_append_iff.mp ih
        obtain ⟨last, rfl, hlast⟩ := List.map_eq_singleton_iff.mp hlasts
        have hnot : key a ∉ keys := fun hmem =>
          lt_irrefl _ ((List.pairwise_append.mp hinc).2.2 _ hmem _ (List.mem_singleton_self _))
        have hjoin : joinLast belongs start add out a = before ++ [add last a] := by
          have hbelongs : belongs last a = true := (hbelongs last a).mpr (hgroup hlast.symm)
          rw [joinLast, hsplit, List.getLast?_concat, List.dropLast_concat]
          exact if_pos hbelongs
        have hgrown : assemble start add ((l ++ [a]).filter (key · = key a)) =
            some (add last a) := by
          rw [hfilter, if_pos rfl, assemble_concat, ← hlast, Option.getD_some]
        calc (joinLast belongs start add out a).map some
            = before.map some ++ [some (add last a)] := by
              rw [hjoin, List.map_append, List.map_singleton]
          _ = (keys ++ [key a]).map fun k =>
                assemble start add ((l ++ [a]).filter (key · = k)) := by
              rw [List.map_append, List.map_singleton, hother keys hnot, hbefore, hgrown]
          _ = _ := by rw [hnew]
      · -- no group has it
        have hjoin : joinLast belongs start add out a = out ++ [add (start a) a] := by
          unfold joinLast
          cases hread : out.getLast? with
          | none =>
              rw [List.getLast?_eq_none_iff.mp hread]
              rfl
          | some last =>
              have hmem : some last ∈ out.map some :=
                List.mem_map_of_mem (List.mem_of_getLast? hread)
              rw [ih] at hmem
              obtain ⟨k, hk, hlast⟩ := List.mem_map.mp hmem
              refine if_neg fun hbelongs' => hfresh ?_
              rw [← (hbelongs last a).mp hbelongs', hgroup hlast]
              exact hk
        have hempty : l.filter (key · = key a) = [] := by
          rw [List.filter_eq_nil_iff]
          intro b hb heq
          exact hfresh (mem_keysIn.mpr ⟨b, hb, by simpa using heq⟩)
        have hstarted : assemble start add ((l ++ [a]).filter (key · = key a)) =
            some (add (start a) a) := by
          rw [hfilter, if_pos rfl, hempty]
          rfl
        calc (joinLast belongs start add out a).map some
            = out.map some ++ [some (add (start a) a)] := by
              rw [hjoin, List.map_append, List.map_singleton]
          _ = (keysIn rank key l ++ [key a]).map fun k =>
                assemble start add ((l ++ [a]).filter (key · = k)) := by
              rw [List.map_append, List.map_singleton, hother _ hfresh, ih, hstarted]
          _ = _ := by rw [hnew]

end

/-! ## Windows -/

/-- The keys of a window are the first keys. -/
theorem keysIn_take (hrank : Function.Injective rank) (h : Sorted rank key l) (n : ℕ) :
    keysIn rank key (l.take n) <+: keysIn rank key l := by
  have hinc := @increasing_keysIn _ _ _ _ _ _ key hrank l
  have hsub : keysIn rank key (l.take n) = (keysIn rank key l).filter fun k =>
      (keysIn rank key (l.take n)).any fun k' => rank k ≤ rank k' := by
    refine keysIn_eq hrank (hinc.sublist List.filter_sublist) fun k => ?_
    simp only [List.mem_filter, List.any_eq_true, decide_eq_true_eq, mem_keysIn]
    constructor
    · rintro ⟨⟨a, ha, rfl⟩, _, ⟨b, hb, rfl⟩, hle⟩
      rw [← List.take_append_drop n l, List.mem_append] at ha
      rcases ha with ha | ha
      · exact ⟨a, ha, rfl⟩
      · -- a row past the window has no smaller key, so it has the same
        rw [Sorted, ← List.take_append_drop n l, List.pairwise_append] at h
        exact ⟨b, hb, hrank (le_antisymm (h.2.2 b hb a ha) hle)⟩
    · rintro ⟨a, ha, rfl⟩
      exact ⟨⟨a, List.mem_of_mem_take ha, rfl⟩, key a, ⟨a, ha, rfl⟩, le_refl _⟩
  rw [hsub]
  refine hinc.filter_beginning fun k k' hlt hk' => ?_
  obtain ⟨last, hlast, hle⟩ := List.any_eq_true.mp hk'
  exact List.any_eq_true.mpr ⟨last, hlast, decide_eq_true (hlt.le.trans (of_decide_eq_true hle))⟩

/-- Below the last key of a window all rows of a key are in it. -/
theorem filter_take_of_lt (h : Sorted rank key l) {n : ℕ} {k k' : κ}
    (hk' : k' ∈ keysIn rank key (l.take n)) (hlt : rank k < rank k') :
    (l.take n).filter (key · = k) = l.filter (key · = k) := by
  obtain ⟨a, ha, rfl⟩ := mem_keysIn.mp hk'
  have hsplit := List.take_append_drop n l
  have hdrop : (l.drop n).filter (key · = k) = [] := by
    rw [List.filter_eq_nil_iff]
    intro b hb heq
    rw [Sorted, ← hsplit, List.pairwise_append] at h
    have hle := h.2.2 a ha b hb
    rw [of_decide_eq_true heq] at hle
    exact absurd hle (not_le.mpr hlt)
  calc (l.take n).filter (key · = k)
      = (l.take n).filter (key · = k) ++ (l.drop n).filter (key · = k) := by
        rw [hdrop, List.append_nil]
    _ = l.filter (key · = k) := by rw [← List.filter_append, hsplit]

/-- But for the last, the groups of a window are groups of the list. -/
theorem whole_of_cut (hrank : Function.Injective rank) (h : Sorted rank key l) {n : ℕ} {k : κ}
    (hk : k ∈ (keysIn rank key (l.take n)).dropLast) :
    (l.take n).filter (key · = k) = l.filter (key · = k) := by
  have hne : keysIn rank key (l.take n) ≠ [] := by
    intro hnil
    rw [hnil] at hk
    cases hk
  have hsplit := List.dropLast_append_getLast hne
  have hinc := @increasing_keysIn _ _ _ _ _ _ key hrank (l.take n)
  rw [← hsplit] at hinc
  exact filter_take_of_lt h (List.getLast_mem hne)
    ((List.pairwise_append.mp hinc).2.2 k hk _ (List.mem_singleton_self _))

/-- The groups of a read; the last is dropped when the window was full. -/
def wholeGroups (full : Bool) (groups : List β) : List β :=
  if full then groups.dropLast else groups

/-- **One read** makes the next of all groups: all of them if its window was not full, and
otherwise fewer. -/
theorem wholeGroups_eq (hrank : Function.Injective rank) (h : Sorted rank key l) {n : ℕ}
    (hn : 0 < n) {groups : List β} {assembled : List α → Option β}
    (hgroups : groups.map some =
      (keysIn rank key (l.take n)).map fun k => assembled ((l.take n).filter (key · = k)))
    {item : κ → β}
    (hitem : ∀ k ∈ keysIn rank key l, assembled (l.filter (key · = k)) = some (item k)) :
    ∃ m, wholeGroups (n ≤ (l.take n).length) groups = ((keysIn rank key l).take m).map item ∧
      if n ≤ (l.take n).length then m < (keysIn rank key l).length
      else m = (keysIn rank key l).length := by
  have hsome : Function.Injective (some : β → Option β) := Option.some_injective β
  by_cases hfull : n ≤ (l.take n).length
  · obtain ⟨rest, hrest⟩ := keysIn_take hrank h n
    have hne : keysIn rank key (l.take n) ≠ [] := by
      intro hnil
      rw [keysIn_eq_nil.mp hnil] at hfull
      simp at hfull
      omega
    have hpos := List.length_pos_iff.mpr hne
    have hlength := congrArg List.length hrest
    rw [List.length_append] at hlength
    refine ⟨(keysIn rank key (l.take n)).length - 1, ?_, by rw [if_pos hfull]; omega⟩
    -- a full window loses its last group, which may go on past it
    have hfirst : (keysIn rank key l).take ((keysIn rank key (l.take n)).length - 1) =
        (keysIn rank key (l.take n)).dropLast := by
      rw [← hrest, List.take_append_of_le_length (by omega), List.dropLast_eq_take]
    rw [wholeGroups, if_pos (decide_eq_true hfull), hfirst]
    apply List.map_injective_iff.mpr hsome
    calc groups.dropLast.map some
        = ((keysIn rank key (l.take n)).map fun k =>
            assembled ((l.take n).filter (key · = k))).dropLast := by
          rw [List.map_dropLast, hgroups]
      _ = (keysIn rank key (l.take n)).dropLast.map fun k =>
            assembled ((l.take n).filter (key · = k)) := by
          rw [List.map_dropLast]
      _ = (keysIn rank key (l.take n)).dropLast.map fun k => some (item k) := by
          apply List.map_congr_left
          intro k hk
          rw [whole_of_cut hrank h hk]
          refine hitem k ?_
          rw [← hrest]
          exact List.mem_append_left _ ((List.dropLast_sublist _).subset hk)
      _ = ((keysIn rank key (l.take n)).dropLast.map item).map some := by
          rw [List.map_map]
          rfl
  · refine ⟨(keysIn rank key l).length, ?_, by rw [if_neg hfull]⟩
    -- a window that was not full holds everything
    have hall : l.take n = l := by
      apply List.take_of_length_le
      rw [List.length_take] at hfull
      omega
    rw [wholeGroups, if_neg (by simpa using hfull), List.take_length]
    rw [hall] at hgroups
    apply List.map_injective_iff.mpr hsome
    rw [hgroups, List.map_map]
    exact List.map_congr_left hitem

/-! ## Going on -/

/-- The rows after a key. -/
def rowsAfter (rank : κ → ρ) (key : α → κ) (l : List α) (after : Option κ) : List α :=
  l.filter fun a => after.all fun k => rank k < rank (key a)

/-- Where to go on after the first keys, from a cursor. -/
def resumeAt (cursor : Option κ) (keys : List κ) (c : ℕ) : Option κ :=
  if c = 0 then cursor else keys[c - 1]?

omit [DecidableEq κ] in
/-- The last of the next keys is where to go on. -/
theorem getLast?_or_resumeAt (cursor : Option κ) (keys : List κ) {c m : ℕ}
    (hm : c + m ≤ keys.length) :
    (((keys.drop c).take m).getLast?).or (resumeAt cursor keys c) =
      resumeAt cursor keys (c + m) := by
  rcases Nat.eq_zero_or_pos m with rfl | hpos
  · simp
  · have hlast : ((keys.drop c).take m).getLast? = keys[c + m - 1]? := by
      have hlength : ((keys.drop c).take m).length = m := by
        rw [List.length_take, List.length_drop]
        omega
      rw [List.getLast?_eq_getElem?, hlength, List.getElem?_take_of_lt (by omega),
        List.getElem?_drop]
      congr 1
      omega
    have hsome : (keys[c + m - 1]?).isSome := by
      rw [List.getElem?_eq_getElem (by omega)]
      rfl
    obtain ⟨k, hk⟩ := Option.isSome_iff_exists.mp hsome
    have hnext : resumeAt cursor keys (c + m) = keys[c + m - 1]? := if_neg (by omega)
    rw [hlast, hnext, hk, Option.some_or]

/-- Going on after the first keys leaves the others. -/
theorem keysIn_after (hrank : Function.Injective rank) (cursor : Option κ) {c : ℕ}
    (hc : c ≤ (keysIn rank key (rowsAfter rank key l cursor)).length) :
    keysIn rank key (rowsAfter rank key l
        (resumeAt cursor (keysIn rank key (rowsAfter rank key l cursor)) c)) =
      (keysIn rank key (rowsAfter rank key l cursor)).drop c := by
  set keys := keysIn rank key (rowsAfter rank key l cursor) with hkeys
  rcases Nat.eq_zero_or_pos c with rfl | hpos
  · rw [List.drop_zero, resumeAt, if_pos rfl]
  · have hget : keys[c - 1]? = some keys[c - 1] := List.getElem?_eq_getElem (by omega)
    have hlast : keys[c - 1] ∈ keys := List.getElem_mem (by omega)
    -- past the last key is past the cursor, too
    have hafter : rowsAfter rank key l (some keys[c - 1]) =
        (rowsAfter rank key l cursor).filter fun a => rank keys[c - 1] < rank (key a) := by
      obtain ⟨a, ha, hkey⟩ : ∃ a ∈ rowsAfter rank key l cursor, key a = keys[c - 1] :=
        mem_keysIn.mp hlast
      have hpast := (List.mem_filter.mp ha).2
      rw [rowsAfter, rowsAfter, List.filter_filter]
      apply List.filter_congr
      intro b _
      cases cursor with
      | none => simp
      | some k =>
          have hlt : rank k < rank keys[c - 1] := by simpa [hkey] using hpast
          by_cases hb : rank keys[c - 1] < rank (key b)
          · simp [hb, hlt.trans hb]
          · simp [hb]
    have hinc := @increasing_keysIn _ _ _ _ _ _ key hrank (rowsAfter rank key l cursor)
    -- what is above the last key are the keys behind it
    have hsplit : keys = keys.take (c - 1) ++ keys[c - 1] :: keys.drop c := by
      have hdrop := List.drop_eq_getElem_cons (show c - 1 < keys.length by omega)
      rw [show c - 1 + 1 = c by omega] at hdrop
      rw [← hdrop, List.take_append_drop]
    rw [resumeAt, if_neg (by omega), hget, hafter,
      keysIn_filter hrank fun k => rank keys[c - 1] < rank k, ← hkeys]
    rw [← hkeys, hsplit] at hinc
    have habove := filter_above hinc
    rw [← hsplit] at habove
    exact habove

end CutGroups
