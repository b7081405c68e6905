import SorobanExplorer.Lib.Ranked

/-!
# Walks that look through a window

A fetch looks for matches only in the first candidates of what is left, and a walk
goes on only after a fetch that found more than a page.  `complete_iff_reaches`
says exactly when such a walk finds every match.

## Strategy

Until a fetch comes back short every page is full, so the `k`-th fetch starts after
the first `k * limit` matches.  The first short fetch ends the walk, and the matches
it did not find are never returned.
-/

namespace Windowed

variable {α : Type*}

/-- What follows the first `n` matches. -/
def afterMatches (p : α → Bool) : ℕ → List α → List α
  | 0, l => l
  | _ + 1, [] => []
  | n + 1, a :: l => if p a then afterMatches p n l else afterMatches p (n + 1) l

/-- The matches in a window, up to one more than a page holds. -/
def found (p : α → Bool) (window limit : ℕ) (l : List α) : List α :=
  ((l.take window).filter p).take (limit + 1)

section

variable (p : α → Bool) (window limit : ℕ) (l : List α)

/-- The `k`-th fetch; there is none after one that found no more than a page. -/
def fetchAt : ℕ → Option (List α)
  | 0 => some (found p window limit l)
  | k + 1 =>
      match fetchAt k with
      | some rows =>
          if limit < rows.length then
            some (found p window limit (afterMatches p ((k + 1) * limit) l))
          else none
      | none => none

/-- The pages of the first `n` fetches. -/
def visited (n : ℕ) : List α :=
  (List.range n).flatMap fun k => ((fetchAt p window limit l k).getD []).take limit

/-- The walk ends and has returned every match. -/
def Complete : Prop :=
  ∃ n, fetchAt p window limit l n = none ∧ (∀ k < n, (fetchAt p window limit l k).isSome) ∧
    visited p window limit l n = l.filter p

/-- The window after each full page holds more than a page of matches, or all that
are left. -/
def Reaches : Prop :=
  ∀ k, min (limit + 1) ((afterMatches p (k * limit) l).countP p) ≤
    ((afterMatches p (k * limit) l).take window).countP p

/-- How many matches the window after the `k`-th page holds. -/
def seen (k : ℕ) : ℕ :=
  ((afterMatches p (k * limit) l).take window).countP p

end

variable {p : α → Bool} {window limit : ℕ} {l : List α}

/-! ## One fetch -/

@[simp] theorem afterMatches_zero (p : α → Bool) (l : List α) : afterMatches p 0 l = l := by
  cases l <;> rfl

theorem filter_afterMatches (p : α → Bool) (n : ℕ) (l : List α) :
    (afterMatches p n l).filter p = (l.filter p).drop n := by
  induction l generalizing n with
  | nil => cases n <;> rfl
  | cons a l ih =>
      cases n with
      | zero => rfl
      | succ n =>
          rw [afterMatches]
          cases hp : p a with
          | true => rw [if_pos rfl, ih, List.filter_cons_of_pos hp, List.drop_succ_cons]
          | false => rw [if_neg (by simp), ih, List.filter_cons_of_neg (by simp [hp])]

theorem countP_afterMatches (p : α → Bool) (n : ℕ) (l : List α) :
    (afterMatches p n l).countP p = (l.filter p).length - n := by
  rw [List.countP_eq_length_filter, filter_afterMatches, List.length_drop]

theorem filter_take (p : α → Bool) (window : ℕ) (l : List α) :
    (l.take window).filter p = (l.filter p).take ((l.take window).countP p) := by
  have hsplit : l.filter p = (l.take window).filter p ++ (l.drop window).filter p := by
    rw [← List.filter_append, List.take_append_drop]
  rw [hsplit, List.countP_eq_length_filter, List.take_left' rfl]

theorem seen_le (p : α → Bool) (window limit : ℕ) (l : List α) (k : ℕ) :
    seen p window limit l k ≤ (l.filter p).length - k * limit := by
  rw [← countP_afterMatches p]
  exact (List.take_sublist window _).countP_le

theorem found_afterMatches (k : ℕ) :
    found p window limit (afterMatches p (k * limit) l) =
      ((l.filter p).drop (k * limit)).take (min (limit + 1) (seen p window limit l k)) := by
  rw [found, filter_take, filter_afterMatches, List.take_take, seen]

theorem length_found_afterMatches (k : ℕ) :
    (found p window limit (afterMatches p (k * limit) l)).length =
      min (limit + 1) (seen p window limit l k) := by
  have hle := seen_le p window limit l k
  rw [found_afterMatches, List.length_take, List.length_drop]
  omega

/-- There is a `k`-th fetch if every one before found more than a page. -/
theorem fetchAt_eq_some_iff {k : ℕ} {rows : List α} :
    fetchAt p window limit l k = some rows ↔
      (∀ j < k, limit < seen p window limit l j) ∧
        rows = found p window limit (afterMatches p (k * limit) l) := by
  induction k generalizing rows with
  | zero =>
      rw [fetchAt, Option.some.injEq, Nat.zero_mul, afterMatches]
      exact ⟨fun h => ⟨fun j hj => absurd hj (Nat.not_lt_zero j), h.symm⟩, fun h => h.2.symm⟩
  | succ k ih =>
      rw [fetchAt]
      constructor
      · intro h
        split at h
        · rename_i before hbefore
          obtain ⟨hfull, rfl⟩ := ih.mp hbefore
          split at h
          · rename_i hlong
            rw [length_found_afterMatches] at hlong
            refine ⟨fun j hj => ?_, (Option.some.inj h).symm⟩
            obtain hlt | rfl := Nat.lt_succ_iff_lt_or_eq.mp hj
            · exact hfull j hlt
            · omega
          · cases h
        · cases h
      · rintro ⟨hfull, rfl⟩
        have hbefore := ih.mpr ⟨fun j hj => hfull j (by omega), rfl⟩
        -- the page before was full, so this one begins behind it
        have hlong := hfull k (Nat.lt_succ_self k)
        simp only [hbefore]
        rw [if_pos]
        rw [length_found_afterMatches]
        omega

theorem fetchAt_eq_none_iff {k : ℕ} :
    fetchAt p window limit l k = none ↔ ∃ j < k, seen p window limit l j ≤ limit := by
  constructor
  · intro hnone
    by_contra hfull
    push Not at hfull
    have hsome := fetchAt_eq_some_iff.mpr ⟨hfull, rfl⟩
    rw [hnone] at hsome
    cases hsome
  · rintro ⟨j, hj, hshort⟩
    cases hfetch : fetchAt p window limit l k with
    | none => rfl
    | some rows => exact absurd ((fetchAt_eq_some_iff.mp hfetch).1 j hj) (by omega)

/-- The last row of a full page is the last of the matches returned so far. -/
theorem getLast?_page {k : ℕ} {rows : List α} (hlimit : 1 ≤ limit)
    (hfetch : fetchAt p window limit l k = some rows) (hlong : limit < rows.length) :
    (rows.take limit).getLast? = (l.filter p)[(k + 1) * limit - 1]? := by
  obtain ⟨-, rfl⟩ := fetchAt_eq_some_iff.mp hfetch
  have hsize : ((found p window limit (afterMatches p (k * limit) l)).take limit).length =
      limit := by
    rw [List.length_take]
    omega
  rw [length_found_afterMatches] at hlong
  rw [List.getLast?_eq_getElem?, hsize, List.getElem?_take_of_lt (by omega), found_afterMatches,
    List.getElem?_take_of_lt (by omega), List.getElem?_drop]
  congr 1
  rw [Nat.succ_mul]
  omega

/-! ## The walk -/

/-- Full pages return the first matches. -/
theorem visited_full {n : ℕ} (hfull : ∀ j < n, limit < seen p window limit l j) :
    visited p window limit l n = (l.filter p).take (n * limit) := by
  induction n with
  | zero => simp [visited]
  | succ n ih =>
      have hfetch := fetchAt_eq_some_iff.mpr ⟨fun j hj => hfull j (Nat.lt_succ_of_lt hj), rfl⟩
      have hseen := hfull n (Nat.lt_succ_self n)
      have hpage : ((fetchAt p window limit l n).getD []).take limit =
          ((l.filter p).drop (n * limit)).take limit := by
        rw [hfetch, Option.getD_some, found_afterMatches, List.take_take]
        congr 1
        omega
      rw [visited, List.range_succ, List.flatMap_append, List.flatMap_singleton, hpage,
        Nat.succ_mul, List.take_add]
      congr 1
      exact ih fun j hj => hfull j (Nat.lt_succ_of_lt hj)

/-- What a walk has returned once its `m`-th fetch came back short. -/
theorem visited_of_short {m n : ℕ} (hfull : ∀ j < m, limit < seen p window limit l j)
    (hshort : seen p window limit l m ≤ limit) (hn : m < n) :
    visited p window limit l n =
      (l.filter p).take (m * limit + seen p window limit l m) := by
  obtain ⟨d, rfl⟩ := Nat.exists_eq_add_of_lt hn
  have hpage : ((fetchAt p window limit l m).getD []).take limit =
      ((l.filter p).drop (m * limit)).take (seen p window limit l m) := by
    rw [fetchAt_eq_some_iff.mpr ⟨hfull, rfl⟩, Option.getD_some, found_afterMatches, List.take_take]
    congr 1
    omega
  induction d with
  | zero =>
      calc visited p window limit l (m + 0 + 1)
          = visited p window limit l m ++
              ((l.filter p).drop (m * limit)).take (seen p window limit l m) := by
            rw [visited, Nat.add_zero, List.range_succ, List.flatMap_append,
              List.flatMap_singleton, hpage, visited]
        _ = (l.filter p).take (m * limit + seen p window limit l m) := by
            rw [visited_full hfull, List.take_add]
  | succ d ih =>
      -- no fetch comes after the short one
      have hnone : fetchAt p window limit l (m + d + 1) = none :=
        fetchAt_eq_none_iff.mpr ⟨m, by omega, hshort⟩
      calc visited p window limit l (m + (d + 1) + 1)
          = visited p window limit l (m + d + 1) ++ [] := by
            rw [visited, show m + (d + 1) + 1 = m + d + 1 + 1 by omega, List.range_succ,
              List.flatMap_append, List.flatMap_singleton, hnone, Option.getD_none,
              List.take_nil, visited]
        _ = (l.filter p).take (m * limit + seen p window limit l m) := by
            rw [List.append_nil, ih (by omega)]

/-- The first short fetch of a walk that has ended. -/
theorem exists_short {n : ℕ} (hnone : fetchAt p window limit l n = none) :
    ∃ m < n, (∀ j < m, limit < seen p window limit l j) ∧ seen p window limit l m ≤ limit := by
  have hshort := fetchAt_eq_none_iff.mp hnone
  classical
  obtain ⟨hlt, hle⟩ := Nat.find_spec hshort
  refine ⟨Nat.find hshort, hlt, fun j hj => ?_, hle⟩
  have hnot := Nat.find_min hshort hj
  push Not at hnot
  exact hnot (hj.trans hlt)

/-- A walk returns matches from the first on. -/
theorem visited_prefix (n : ℕ) : visited p window limit l n <+: l.filter p := by
  cases hfetch : fetchAt p window limit l n with
  | some rows =>
      rw [visited_full (fetchAt_eq_some_iff.mp hfetch).1]
      exact List.take_prefix _ _
  | none =>
      obtain ⟨m, hm, hfull, hshort⟩ := exists_short hfetch
      rw [visited_of_short hfull hshort hm]
      exact List.take_prefix _ _

/-- A walk returns every match exactly if no window falls short. -/
theorem complete_iff_reaches (hlimit : 1 ≤ limit) :
    Complete p window limit l ↔ Reaches p window limit l := by
  unfold Complete Reaches
  simp only [countP_afterMatches]
  change _ ↔ ∀ k, _ ≤ seen p window limit l k
  constructor
  · rintro ⟨n, hnone, -, hall⟩ k
    obtain ⟨m, hm, hfull, hshort⟩ := exists_short hnone
    rw [visited_of_short hfull hshort hm] at hall
    have hlength : (l.filter p).length ≤ m * limit + seen p window limit l m := by
      rw [← hall, List.length_take]
      exact Nat.min_le_left _ _
    obtain hlt | rfl | hgt := Nat.lt_trichotomy k m
    · have hseen := hfull k hlt
      omega
    · omega
    · -- nothing is left after the last page
      have hmul : (m + 1) * limit ≤ k * limit := Nat.mul_le_mul_right limit hgt
      rw [Nat.succ_mul] at hmul
      omega
  · intro hreaches
    -- the page that holds the last match
    have hlast : ∃ m, (l.filter p).length ≤ (m + 1) * limit := by
      refine ⟨(l.filter p).length, ?_⟩
      calc (l.filter p).length
          ≤ (l.filter p).length + 1 := Nat.le_succ _
        _ = ((l.filter p).length + 1) * 1 := (Nat.mul_one _).symm
        _ ≤ ((l.filter p).length + 1) * limit := Nat.mul_le_mul_left _ hlimit
    classical
    have hbound := Nat.find_spec hlast
    have hfull : ∀ j < Nat.find hlast, limit < seen p window limit l j := by
      intro j hj
      have hmore := Nat.find_min hlast hj
      have hseen := hreaches j
      rw [Nat.succ_mul] at hmore
      omega
    have hshort : seen p window limit l (Nat.find hlast) ≤ limit := by
      have hle := seen_le p window limit l (Nat.find hlast)
      rw [Nat.succ_mul] at hbound
      omega
    have hseen := hreaches (Nat.find hlast)
    refine ⟨Nat.find hlast + 1, fetchAt_eq_none_iff.mpr ⟨_, Nat.lt_succ_self _, hshort⟩, ?_, ?_⟩
    · intro k hk
      rw [fetchAt_eq_some_iff.mpr ⟨fun j hj => hfull j (by omega), rfl⟩]
      rfl
    · rw [visited_of_short hfull hshort (Nat.lt_succ_self _)]
      apply List.take_of_length_le
      rw [Nat.succ_mul] at hbound
      omega

theorem mem_of_mem_afterMatches {n : ℕ} {a : α} (h : a ∈ afterMatches p n l) : a ∈ l := by
  induction l generalizing n with
  | nil => cases n <;> exact h
  | cons b l ih =>
      cases n with
      | zero => exact h
      | succ n =>
          rw [afterMatches] at h
          split at h <;> exact List.mem_cons_of_mem b (ih h)

theorem length_afterMatches_le (n : ℕ) : (afterMatches p n l).length ≤ l.length := by
  induction l generalizing n with
  | nil => cases n <;> exact le_rfl
  | cons b l ih =>
      cases n with
      | zero => exact le_rfl
      | succ n =>
          rw [afterMatches]
          split <;> exact (ih _).trans (Nat.le_succ _)

/-- No window falls short if every candidate matches. -/
theorem reaches_of_forall (hall : ∀ a ∈ l, p a) (hwindow : limit + 1 ≤ window) :
    Reaches p window limit l := by
  intro k
  have hmatch : ∀ a ∈ afterMatches p (k * limit) l, p a :=
    fun a ha => hall a (mem_of_mem_afterMatches ha)
  rw [List.countP_eq_length.mpr hmatch,
    List.countP_eq_length.mpr fun a ha => hmatch a (List.mem_of_mem_take ha), List.length_take]
  omega

theorem reaches_of_length_le (hwindow : l.length ≤ window) : Reaches p window limit l := by
  intro k
  have hlength : (afterMatches p (k * limit) l).length ≤ l.length := length_afterMatches_le _
  rw [List.take_of_length_le (hlength.trans hwindow)]
  exact Nat.min_le_right _ _

/-- No window falls short if nothing matches. -/
theorem reaches_of_none (hnone : ∀ a ∈ l, p a = false) : Reaches p window limit l := by
  intro k
  have hzero : (afterMatches p (k * limit) l).countP p = 0 := by
    rw [List.countP_eq_zero]
    intro a ha
    rw [hnone a (mem_of_mem_afterMatches ha)]
    exact Bool.false_ne_true
  rw [hzero, Nat.min_zero]
  exact Nat.zero_le _

/-! ## Ranked candidates -/

variable {κ : Type*} [LinearOrder κ] {key : α → κ}

/-- What ranks above a match is what follows it. -/
theorem filter_above_match (h : Ranked.Increasing key l) {n : ℕ} {a : α}
    (ha : (l.filter p)[n]? = some a) :
    l.filter (key a < key ·) = afterMatches p (n + 1) l := by
  induction l generalizing n with
  | nil => simp at ha
  | cons b l ih =>
      have hl : Ranked.Increasing key l := List.Pairwise.of_cons h
      rw [afterMatches]
      cases hp : p b with
      | false =>
          rw [List.filter_cons_of_neg (by simp [hp])] at ha
          have hmem : a ∈ l := (List.mem_filter.mp (List.mem_of_getElem? ha)).1
          have hlt := List.rel_of_pairwise_cons h hmem
          rw [List.filter_cons_of_neg (by simpa using hlt.le), if_neg (by simp), ih hl ha]
      | true =>
          rw [List.filter_cons_of_pos hp] at ha
          rw [if_pos rfl]
          cases n with
          | zero =>
              obtain rfl : b = a := by simpa using ha
              have hsplit : Ranked.Increasing key ([] ++ b :: l) := h
              rw [afterMatches_zero]
              exact Ranked.filter_above hsplit
          | succ n =>
              rw [List.getElem?_cons_succ] at ha
              have hmem : a ∈ l := (List.mem_filter.mp (List.mem_of_getElem? ha)).1
              have hlt := List.rel_of_pairwise_cons h hmem
              rw [List.filter_cons_of_neg (by simpa using hlt.le), ih hl ha]

end Windowed
