import SorobanExplorer.Lib.PageWalk
import SorobanExplorer.Lib.Ranked

/-!
# Collapsing copies

A list that holds each row any number of times is read through a window of its rows
in order, and the copies are collapsed after the window is cut.  What is found are the
first distinct rows (`collapse_take`), and a window finds one more than a page exactly
if the copies of the page leave room for another row (`reaches_iff_room`).
-/

namespace Collapse

open Ranked

variable {α κ ρ : Type*} [DecidableEq κ] [LinearOrder ρ]

/-- Nothing was pushed yet, or the last row pushed has another key. -/
def fresh (key : α → κ) (out : List α) (row : α) : Bool :=
  out.getLast?.all (key · ≠ key row)

/-- Push each row whose key is not that of the last one pushed, up to a limit. -/
def dedupConsecutive (key : α → κ) (limit : ℕ) (out : List α) : List α → List α
  | [] => out
  | row :: raw =>
      if fresh key out row then
        if limit ≤ (out ++ [row]).length then out ++ [row]
        else dedupConsecutive key limit (out ++ [row]) raw
      else dedupConsecutive key limit out raw

/-- The distinct rows in their order. -/
def distinct (key : α → κ) (rank : α → ρ) (table : List α) : List α :=
  firstBy key (sortBy rank table)

/-- The rows of a key are copies of each other, and the order tells the keys apart. -/
structure Copied (key : α → κ) (rank : α → ρ) (table : List α) : Prop where
  copy : ∀ a ∈ table, ∀ b ∈ table, key a = key b → a = b
  ranked : ∀ a ∈ table, ∀ b ∈ table, rank a = rank b → key a = key b

section

variable {key : α → κ} {rank : α → ρ} {table : List α}

omit [DecidableEq κ] [LinearOrder ρ] in
theorem Copied.of_mem (h : Copied key rank table) {rows : List α} (hrows : ∀ a ∈ rows, a ∈ table) :
    Copied key rank rows :=
  ⟨fun a ha b hb => h.copy a (hrows a ha) b (hrows b hb),
    fun a ha b hb => h.ranked a (hrows a ha) b (hrows b hb)⟩

omit [DecidableEq κ] [LinearOrder ρ] in
theorem Copied.filter (h : Copied key rank table) (p : α → Bool) :
    Copied key rank (table.filter p) :=
  h.of_mem fun _ => List.mem_of_mem_filter

theorem mem_distinct (h : Copied key rank table) {a : α} :
    a ∈ distinct key rank table ↔ a ∈ table := by
  rw [distinct, mem_firstBy_of_copies fun x hx y hy =>
    h.copy x (mem_sortBy.mp hx) y (mem_sortBy.mp hy), mem_sortBy]

theorem increasing_distinct (h : Copied key rank table) :
    Increasing rank (distinct key rank table) := by
  have hle := (pairwise_sortBy rank table).sublist (firstBy_sublist key _)
  have hnodup := nodup_map_firstBy key (sortBy rank table)
  rw [List.Nodup, List.pairwise_map] at hnodup
  refine List.Pairwise.imp_of_mem ?_ (hle.and hnodup)
  intro a b ha hb hab
  have ha := mem_sortBy.mp ((firstBy_sublist key _).subset ha)
  have hb := mem_sortBy.mp ((firstBy_sublist key _).subset hb)
  exact lt_of_le_of_ne hab.1 fun heq => hab.2 (h.ranked a ha b hb heq)

theorem distinct_filter (h : Copied key rank table) (p : α → Bool) :
    distinct key rank (table.filter p) = (distinct key rank table).filter p := by
  refine (increasing_distinct (h.filter p)).eq_of_mem_iff
    ((increasing_distinct h).sublist List.filter_sublist) fun a => ?_
  rw [mem_distinct (h.filter p), List.mem_filter, List.mem_filter, mem_distinct h]

/-! ## A window -/

/-- The distinct rows of a beginning come first among all. -/
theorem firstBy_take_prefix (key : α → κ) (window : ℕ) (l : List α) :
    firstBy key (l.take window) <+: firstBy key l := by
  induction l generalizing window with
  | nil => simp
  | cons a l ih =>
      cases window with
      | zero => exact List.nil_prefix
      | succ window =>
          rw [List.take_succ_cons, firstBy, firstBy, List.cons_prefix_cons]
          exact ⟨rfl, (ih window).filter _⟩

/-- The rows a window finds. -/
def collapse (key : α → κ) (rank : α → ρ) (window : ℕ) (table : List α) : List α :=
  firstBy key ((sortBy rank table).take window)

theorem length_collapse_le (key : α → κ) (rank : α → ρ) (window : ℕ) (table : List α) :
    (collapse key rank window table).length ≤ window :=
  (firstBy_sublist key _).length_le.trans (List.length_take_le _ _)

theorem collapse_take (key : α → κ) (rank : α → ρ) (window : ℕ) (table : List α) (n : ℕ) :
    (collapse key rank window table).take n =
      (distinct key rank table).take (min n (collapse key rank window table).length) := by
  have hprefix := firstBy_take_prefix key window (sortBy rank table)
  rw [← List.take_take]
  congr 1
  exact List.prefix_iff_eq_take.mp hprefix

omit [DecidableEq κ] in
/-- A row of a sorted list is in the window if fewer rows rank below it. -/
theorem mem_take_iff_countP_lt {l : List α} (hsorted : l.Pairwise fun a b => rank a ≤ rank b)
    {a : α} (ha : a ∈ l) (hties : ∀ b ∈ l, rank b = rank a → b = a) (window : ℕ) :
    a ∈ l.take window ↔ l.countP (rank · < rank a) < window := by
  induction l generalizing window with
  | nil => cases ha
  | cons b l ih =>
      obtain ⟨hb, hl⟩ := List.pairwise_cons.mp hsorted
      cases window with
      | zero => simp
      | succ window =>
          rw [List.take_succ_cons, List.mem_cons]
          by_cases hlt : rank b < rank a
          · have hne : a ≠ b := fun heq => absurd (heq ▸ hlt) (lt_irrefl _)
            rw [List.countP_cons_of_pos (by simpa using hlt), Nat.add_lt_add_iff_right,
              ← ih hl ((List.mem_cons.mp ha).resolve_left hne)
                (fun c hc => hties c (List.mem_cons_of_mem _ hc)) window]
            exact or_iff_right hne
          · -- nothing ranks below the row, which is the first
            have hnone : l.countP (rank · < rank a) = 0 :=
              List.countP_eq_zero.mpr fun c hc => by
                simpa using (not_lt.mp hlt).trans (hb c hc)
            have hle : rank b ≤ rank a := by
              rcases List.mem_cons.mp ha with rfl | ha
              · exact le_rfl
              · exact hb a ha
            have hfirst := hties b List.mem_cons_self (le_antisymm hle (not_lt.mp hlt))
            rw [List.countP_cons_of_neg (by simpa using hlt), hnone]
            exact iff_of_true (.inl hfirst.symm) (Nat.succ_pos window)

/-- A window finds `m` rows if fewer rows than it holds rank below the `m`-th. -/
theorem lt_length_collapse_iff (h : Copied key rank table) {m : ℕ} {a : α}
    (ha : (distinct key rank table)[m]? = some a) (window : ℕ) :
    m < (collapse key rank window table).length ↔ table.countP (rank · < rank a) < window := by
  have hmem : a ∈ table := (mem_distinct h).mp (List.mem_of_getElem? ha)
  have hcopy : ∀ b ∈ sortBy rank table, ∀ c ∈ sortBy rank table, key b = key c → b = c :=
    fun b hb c hc => h.copy b (mem_sortBy.mp hb) c (mem_sortBy.mp hc)
  have hties : ∀ b ∈ sortBy rank table, rank b = rank a → b = a := fun b hb heq =>
    h.copy b (mem_sortBy.mp hb) a hmem (h.ranked b (mem_sortBy.mp hb) a hmem heq)
  have hprefix := firstBy_take_prefix key window (sortBy rank table)
  have hindex : m < (collapse key rank window table).length ↔
      a ∈ collapse key rank window table := by
    constructor
    · intro hm
      have hget := hprefix.getElem hm
      obtain ⟨hlt, rfl⟩ := List.getElem?_eq_some_iff.mp ha
      exact hget ▸ List.getElem_mem hm
    · intro hin
      obtain ⟨i, hi, hget⟩ := List.mem_iff_getElem.mp hin
      obtain ⟨hlt, hm⟩ := List.getElem?_eq_some_iff.mp ha
      have hsame := hprefix.getElem hi
      have hnodup : (distinct key rank table).Nodup :=
        List.Nodup.of_map rank (increasing_distinct h).nodup
      have hbound : i < (distinct key rank table).length := hi.trans_le hprefix.length_le
      have heq : i = m := hnodup.getElem_inj_iff.mp <|
        calc (distinct key rank table)[i] = (collapse key rank window table)[i] := hsame.symm
          _ = a := hget
          _ = (distinct key rank table)[m] := hm.symm
      exact heq ▸ hi
  rw [hindex, collapse, mem_firstBy_of_copies fun b hb c hc =>
      hcopy b (List.mem_of_mem_take hb) c (List.mem_of_mem_take hc),
    mem_take_iff_countP_lt (pairwise_sortBy rank table) (mem_sortBy.mpr hmem) hties,
    (sortBy_perm rank table).countP_eq]

/-! ## Collapsing in place -/

/-- Behind `row`, no row of another key is a copy of the last one pushed: `row` would stand
between two copies, and share their rank. -/
theorem filter_fresh {out raw : List α} {row : α}
    (hsorted : (out ++ row :: raw).Pairwise fun a b => rank a ≤ rank b)
    (h : Copied key rank (out ++ row :: raw)) :
    ((firstBy key raw).filter (key · ≠ key row)).filter (fresh key out) =
      (firstBy key raw).filter (key · ≠ key row) := by
  rw [List.filter_eq_self]
  intro x hx
  obtain ⟨hxraw, hxrow⟩ := List.mem_filter.mp hx
  have hxraw := (firstBy_sublist key raw).subset hxraw
  have hxmem : x ∈ out ++ row :: raw :=
    List.mem_append_right _ (List.mem_cons_of_mem _ hxraw)
  rw [fresh]
  cases hlast : out.getLast? with
  | none => rfl
  | some last =>
      have hmemLast := List.mem_of_getLast? hlast
      rw [Option.all_some, decide_eq_true_eq]
      intro heq
      obtain ⟨-, htail, hcross⟩ := List.pairwise_append.mp hsorted
      have hsame := h.copy last (List.mem_append_left _ hmemLast) x hxmem heq
      -- sorted, `row` stands between the two
      have hrank : rank x = rank row := le_antisymm
        (hsame ▸ hcross last hmemLast row List.mem_cons_self)
        (List.rel_of_pairwise_cons htail hxraw)
      have hkey := h.ranked x hxmem row (List.mem_append_right _ List.mem_cons_self) hrank
      exact of_decide_eq_true hxrow hkey

/-- Comparing with the last row pushed collapses a sorted list. -/
theorem dedupConsecutive_append {limit : ℕ} {out raw : List α}
    (hsorted : (out ++ raw).Pairwise fun a b => rank a ≤ rank b)
    (h : Copied key rank (out ++ raw)) (hout : out.length < limit) :
    dedupConsecutive key limit out raw =
      out ++ ((firstBy key raw).filter (fresh key out)).take (limit - out.length) := by
  induction raw generalizing out with
  | nil => simp [dedupConsecutive, firstBy]
  | cons row raw ih =>
      rw [dedupConsecutive, firstBy]
      by_cases hpush : fresh key out row = true
      · rw [if_pos hpush, List.filter_cons_of_pos hpush, filter_fresh hsorted h]
        by_cases hfull : limit ≤ (out ++ [row]).length
        · -- the page is full with it
          have hone : limit - out.length = 1 := by
            rw [List.length_append, List.length_singleton] at hfull
            omega
          rw [if_pos hfull, hone, List.take_succ_cons, List.take_zero]
        · have hassoc : (out ++ [row]) ++ raw = out ++ row :: raw := by simp
          have hlimit : limit - out.length = limit - (out ++ [row]).length + 1 := by
            rw [List.length_append, List.length_singleton] at *
            omega
          rw [if_neg hfull, ih (hassoc ▸ hsorted) (hassoc ▸ h) (not_le.mp hfull), hlimit,
            List.take_succ_cons, List.append_assoc, List.singleton_append]
          congr 3
          apply List.filter_congr
          intro x _
          simp [fresh, eq_comm]
      · -- a copy of the last row pushed is dropped
        rw [if_neg hpush, List.filter_cons_of_neg hpush]
        have hsub : (out ++ raw).Sublist (out ++ row :: raw) :=
          (List.sublist_cons_self row raw).append_left out
        rw [ih (hsorted.sublist hsub) (h.of_mem fun _ ha => hsub.subset ha) hout,
          List.filter_filter]
        congr 2
        apply List.filter_congr
        intro x _
        rw [fresh] at hpush ⊢
        cases hlast : out.getLast? with
        | none => rw [hlast] at hpush; exact absurd rfl hpush
        | some last =>
            rw [hlast, Option.all_some, decide_eq_true_eq, not_not] at hpush
            simp [hpush, eq_comm]

theorem dedupConsecutive_eq {limit : ℕ} {raw : List α}
    (hsorted : raw.Pairwise fun a b => rank a ≤ rank b) (h : Copied key rank raw)
    (hlimit : 1 ≤ limit) : dedupConsecutive key limit [] raw = (firstBy key raw).take limit := by
  rw [dedupConsecutive_append hsorted h hlimit, List.nil_append, List.length_nil, Nat.sub_zero]
  congr 1
  exact List.filter_eq_self.mpr fun _ _ => rfl

end

/-! ## A walk -/

section

variable (key : α → κ) (rank : α → ρ) (window limit : ℕ) (table : List α)

/-- The rows after the first `n` distinct ones. -/
def restAfter (n : ℕ) : List α :=
  table.filter fun row => ∀ a ∈ (distinct key rank table).take n, rank a < rank row

/-- How many rows the `k`-th fetch finds. -/
def found (k : ℕ) : ℕ :=
  min (limit + 1) (collapse key rank window (restAfter key rank table (k * limit))).length

/-- The rows the `k`-th fetch has to get past: a page, or all that are left but the
last. -/
def passed (k : ℕ) : List α :=
  let left := (distinct key rank table).drop (k * limit)
  left.take (min limit (left.length - 1))

/-- The copies of the rows to get past never fill the window. -/
def Room [DecidableEq α] : Prop :=
  ∀ k, k * limit < (distinct key rank table).length →
    table.countP (· ∈ passed key rank limit table k) < window

end

section

variable {key : α → κ} {rank : α → ρ} {window limit : ℕ} {table : List α}

theorem restAfter_zero (key : α → κ) (rank : α → ρ) (table : List α) :
    restAfter key rank table 0 = table := by
  simp [restAfter]

/-- The rows after a distinct row. -/
theorem filter_after (h : Copied key rank table) {n : ℕ} {a : α}
    (ha : (distinct key rank table)[n]? = some a) :
    table.filter (fun row => rank a < rank row) = restAfter key rank table (n + 1) := by
  have htake : (distinct key rank table).take (n + 1) =
      (distinct key rank table).take n ++ [a] := by
    rw [List.take_add_one, ha, Option.toList_some]
  have hbelow : ∀ b ∈ (distinct key rank table).take n, rank b < rank a := by
    have hincreasing := (increasing_distinct h).sublist
      (List.take_sublist (n + 1) (distinct key rank table))
    rw [htake] at hincreasing
    exact fun b hb => (List.pairwise_append.mp hincreasing).2.2 b hb a List.mem_cons_self
  apply List.filter_congr
  intro row _
  rw [decide_eq_decide, htake]
  constructor
  · intro hlt b hb
    rcases List.mem_append.mp hb with hb | hb
    · exact (hbelow b hb).trans hlt
    · exact List.mem_singleton.mp hb ▸ hlt
  · exact fun hall => hall a (List.mem_append_right _ List.mem_cons_self)

theorem distinct_restAfter (h : Copied key rank table) (n : ℕ) :
    distinct key rank (restAfter key rank table n) = (distinct key rank table).drop n := by
  have hincreasing := increasing_distinct h
  rw [restAfter, distinct_filter h]
  rw [← List.take_append_drop n (distinct key rank table)] at hincreasing
  obtain ⟨-, -, hcross⟩ := List.pairwise_append.mp hincreasing
  have hsplit : ∀ l : List α, l = (distinct key rank table).take n ++
      (distinct key rank table).drop n →
      (l.filter fun row => ∀ a ∈ (distinct key rank table).take n, rank a < rank row) =
        (distinct key rank table).drop n := by
    rintro l rfl
    have hnone : ((distinct key rank table).take n).filter (fun row =>
        ∀ a ∈ (distinct key rank table).take n, rank a < rank row) = [] :=
      List.filter_eq_nil_iff.mpr fun row hrow hall =>
        lt_irrefl _ (of_decide_eq_true hall row hrow)
    have hall : ((distinct key rank table).drop n).filter (fun row =>
        ∀ a ∈ (distinct key rank table).take n, rank a < rank row) =
        (distinct key rank table).drop n :=
      List.filter_eq_self.mpr fun row hrow =>
        decide_eq_true fun a ha => hcross a ha row hrow
    rw [List.filter_append, hnone, hall, List.nil_append]
  exact hsplit _ (List.take_append_drop n _).symm

theorem collapse_restAfter (window limit : ℕ) (h : Copied key rank table) (k : ℕ) :
    (collapse key rank window (restAfter key rank table (k * limit))).take (limit + 1) =
      PageWalk.fetched (distinct key rank table) limit (found key rank window limit table) k := by
  rw [collapse_take, distinct_restAfter h, PageWalk.fetched, found]

/-- A walk falls short nowhere exactly if the copies leave room everywhere. -/
theorem reaches_iff_room [DecidableEq α] (h : Copied key rank table) :
    PageWalk.Reaches (distinct key rank table) limit (found key rank window limit table) ↔
      Room key rank window limit table := by
  refine forall_congr' fun k => ?_
  have hrest : Copied key rank (restAfter key rank table (k * limit)) := h.filter _
  have hleft := distinct_restAfter h (k * limit)
  have hlength : ((distinct key rank table).drop (k * limit)).length =
      (distinct key rank table).length - k * limit := List.length_drop
  by_cases hmore : k * limit < (distinct key rank table).length
  · -- the row to be found behind the ones to get past
    let m := min limit (((distinct key rank table).drop (k * limit)).length - 1)
    have hm : m < ((distinct key rank table).drop (k * limit)).length := by
      simp only [m]
      omega
    have hget : (distinct key rank (restAfter key rank table (k * limit)))[m]? =
        some (((distinct key rank table).drop (k * limit))[m]) := by
      rw [hleft]
      exact List.getElem?_eq_getElem hm
    have hfound : min (limit + 1) ((distinct key rank table).length - k * limit) ≤
        found key rank window limit table k ↔
        m < (collapse key rank window (restAfter key rank table (k * limit))).length := by
      simp only [found, m]
      omega
    have hpassed : ((distinct key rank table).drop (k * limit)).filter
        (rank · < rank (((distinct key rank table).drop (k * limit))[m])) =
        passed key rank limit table k := by
      have hincreasing := (increasing_distinct h).sublist
        (List.drop_sublist (k * limit) (distinct key rank table))
      have hsplit : ((distinct key rank table).drop (k * limit)).take m ++
          ((distinct key rank table).drop (k * limit))[m] ::
            ((distinct key rank table).drop (k * limit)).drop (m + 1) =
          (distinct key rank table).drop (k * limit) := by
        rw [List.getElem_cons_drop hm, List.take_append_drop]
      rw [← hsplit] at hincreasing
      have hbelow := filter_below hincreasing
      rwa [hsplit] at hbelow
    rw [hfound, lt_length_collapse_iff hrest hget, restAfter, List.countP_filter]
    have hcount : ∀ row ∈ table, ((decide (rank row < rank
        (((distinct key rank table).drop (k * limit))[m])) &&
        decide (∀ a ∈ (distinct key rank table).take (k * limit), rank a < rank row)) = true ↔
        decide (row ∈ passed key rank limit table k) = true) := by
      intro row hrow
      have hmem : row ∈ (distinct key rank table).drop (k * limit) ↔
          decide (∀ a ∈ (distinct key rank table).take (k * limit), rank a < rank row) = true := by
        rw [← hleft, mem_distinct hrest, restAfter, List.mem_filter, and_iff_right hrow]
      rw [← hpassed, decide_eq_true_iff, List.mem_filter, hmem, Bool.and_eq_true, and_comm]
    rw [List.countP_congr hcount]
    exact (imp_iff_right hmore).symm
  · simp only [hmore, false_implies, iff_true]
    omega

theorem room_iff_of_pairwise [DecidableEq α] (h : table.Pairwise fun a b => rank a ≤ rank b) :
    Room key rank window limit table ↔ ∀ k, k * limit < (firstBy key table).length →
      table.countP (· ∈ ((firstBy key table).drop (k * limit)).take
        (min limit (((firstBy key table).drop (k * limit)).length - 1))) < window := by
  simp only [Room, passed, distinct, sortBy_eq_self h]

end

end Collapse
