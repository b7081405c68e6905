import Mathlib.Data.Int.Order.Basic
import Mathlib.Data.List.MinMax
import Mathlib.Data.List.Nodup
import Mathlib.Data.List.Sort
import Mathlib.Order.OrderDual

/-!
# Lists ranked by a key

A list sorted by a key that tells its elements apart is determined by its
members.  So sorting commutes with filtering, sorting the other way round
reverses, and what ranks above an element is what comes after it.
-/

namespace Ranked

variable {α κ : Type*} [LinearOrder κ]

/-- A list in the order of a key. -/
def sortBy (key : α → κ) (l : List α) : List α :=
  l.mergeSort fun a b => key a ≤ key b

/-- The first element of each key. -/
def firstBy {κ : Type*} [DecidableEq κ] (key : α → κ) : List α → List α
  | [] => []
  | a :: l => a :: (firstBy key l).filter (key · ≠ key a)

/-- Strictly increasing keys. -/
def Increasing (key : α → κ) (l : List α) : Prop :=
  l.Pairwise fun a b => key a < key b

variable {key : α → κ} {l l' : List α}

theorem sortBy_perm (key : α → κ) (l : List α) : (sortBy key l).Perm l :=
  List.mergeSort_perm l _

@[simp] theorem mem_sortBy {a : α} : a ∈ sortBy key l ↔ a ∈ l :=
  (sortBy_perm key l).mem_iff

@[simp] theorem length_sortBy : (sortBy key l).length = l.length :=
  (sortBy_perm key l).length_eq

theorem pairwise_sortBy (key : α → κ) (l : List α) :
    (sortBy key l).Pairwise fun a b => key a ≤ key b := by
  have hsorted := @List.pairwise_mergeSort α (fun a b => decide (key a ≤ key b))
    (fun a b c hab hbc => by simp only [decide_eq_true_eq] at hab hbc ⊢; exact hab.trans hbc)
    (fun a b => by simp only [Bool.or_eq_true, decide_eq_true_eq]; exact le_total _ _) l
  exact hsorted.imp fun hab => of_decide_eq_true hab

theorem sortBy_eq_self (h : l.Pairwise fun a b => key a ≤ key b) : sortBy key l = l :=
  List.mergeSort_of_pairwise (h.imp fun hab => decide_eq_true hab)

theorem increasing_sortBy (h : (l.map key).Nodup) : Increasing key (sortBy key l) := by
  have hle := pairwise_sortBy key l
  have hnodup : ((sortBy key l).map key).Nodup := ((sortBy_perm key l).map key).nodup_iff.mpr h
  rw [List.Nodup, List.pairwise_map] at hnodup
  exact (hle.and hnodup).imp fun hab => lt_of_le_of_ne hab.1 hab.2

theorem Increasing.nodup (h : Increasing key l) : (l.map key).Nodup := by
  rw [List.Nodup, List.pairwise_map]
  exact h.imp fun hab => ne_of_lt hab

theorem Increasing.eq_of_mem_iff (h : Increasing key l) (h' : Increasing key l')
    (hmem : ∀ a, a ∈ l ↔ a ∈ l') : l = l' :=
  have : Std.Irrefl fun a b => key a < key b := ⟨fun _ => lt_irrefl _⟩
  List.Pairwise.eq_of_mem_iff h h' hmem

theorem Increasing.sublist (h : Increasing key l) (hsub : l'.Sublist l) : Increasing key l' :=
  List.Pairwise.sublist hsub h

theorem increasing_map {β : Type*} {f : β → α} {m : List β} :
    Increasing key (m.map f) ↔ Increasing (fun b => key (f b)) m :=
  List.pairwise_map

omit [LinearOrder κ] in
theorem nodup_map_filter (h : (l.map key).Nodup) (p : α → Bool) :
    ((l.filter p).map key).Nodup :=
  h.sublist (List.filter_sublist.map key)

theorem sortBy_filter (h : (l.map key).Nodup) (p : α → Bool) :
    sortBy key (l.filter p) = (sortBy key l).filter p :=
  (increasing_sortBy (nodup_map_filter h p)).eq_of_mem_iff
    ((increasing_sortBy h).sublist List.filter_sublist) (by simp)

theorem firstBy_eq_self {κ : Type*} [DecidableEq κ] {key : α → κ} {l : List α}
    (h : (l.map key).Nodup) : firstBy key l = l := by
  induction l with
  | nil => rfl
  | cons a l ih =>
      rw [List.map_cons, List.nodup_cons] at h
      rw [firstBy, ih h.2, List.filter_eq_self.mpr]
      intro b hb
      simpa using fun heq : key b = key a => h.1 (heq ▸ List.mem_map_of_mem hb)

/-- What is kept of a key is its first element. -/
theorem filter_firstBy {κ : Type*} [DecidableEq κ] (key : α → κ) (l : List α) (k : κ) :
    (firstBy key l).filter (key · = k) = (l.find? (key · = k)).toList := by
  induction l with
  | nil => rfl
  | cons a l ih =>
      rw [firstBy]
      by_cases hk : key a = k
      · subst hk
        rw [List.filter_cons_of_pos (by simp), List.find?_cons_of_pos (by simp),
          List.filter_filter, List.filter_eq_nil_iff.mpr (by simp), Option.toList_some]
      · rw [List.filter_cons_of_neg (by simp [hk]), List.find?_cons_of_neg (by simp [hk]), ← ih,
          List.filter_filter]
        apply List.filter_congr
        intro b _
        by_cases hb : key b = k
        · simp [hb, Ne.symm hk]
        · simp [hb]

theorem getLast?_filter_firstBy {κ : Type*} [DecidableEq κ] (key : α → κ) (l : List α) (k : κ) :
    ((firstBy key l).filter (key · = k)).getLast? = l.find? (key · = k) := by
  rw [filter_firstBy]
  cases l.find? (key · = k) <;> rfl

/-- A list of keys keeps its members. -/
theorem mem_firstBy_id {κ : Type*} [DecidableEq κ] {l : List κ} {a : κ} :
    a ∈ firstBy id l ↔ a ∈ l := by
  induction l with
  | nil => rfl
  | cons b l ih =>
      rw [firstBy, List.mem_cons, List.mem_filter, ih, List.mem_cons]
      by_cases heq : a = b
      · simp [heq]
      · simp [heq]

theorem nodup_firstBy_id {κ : Type*} [DecidableEq κ] (l : List κ) : (firstBy id l).Nodup := by
  induction l with
  | nil => exact List.nodup_nil
  | cons b l ih =>
      rw [firstBy, List.nodup_cons]
      exact ⟨by simp, ih.filter _⟩

theorem nodup_map_firstBy {κ : Type*} [DecidableEq κ] (key : α → κ) (l : List α) :
    ((firstBy key l).map key).Nodup := by
  induction l with
  | nil => exact List.nodup_nil
  | cons a l ih =>
      rw [firstBy, List.map_cons, List.nodup_cons]
      exact ⟨by simp, nodup_map_filter ih _⟩

/-- Where the elements of one key are copies of each other, each keeps one. -/
theorem mem_firstBy_of_copies {κ : Type*} [DecidableEq κ] {key : α → κ} {l : List α}
    (h : ∀ a ∈ l, ∀ b ∈ l, key a = key b → a = b) {a : α} : a ∈ firstBy key l ↔ a ∈ l := by
  induction l with
  | nil => rfl
  | cons b l ih =>
      rw [firstBy, List.mem_cons, List.mem_filter, List.mem_cons,
        ih fun x hx y hy => h x (List.mem_cons_of_mem _ hx) y (List.mem_cons_of_mem _ hy)]
      constructor
      · exact Or.imp id And.left
      · rintro (rfl | ha)
        · exact .inl rfl
        · by_cases hkey : key a = key b
          · exact .inl (h a (List.mem_cons_of_mem _ ha) b List.mem_cons_self hkey)
          · exact .inr ⟨ha, by simpa using hkey⟩

theorem firstBy_sublist {κ : Type*} [DecidableEq κ] (key : α → κ) (l : List α) :
    (firstBy key l).Sublist l := by
  induction l with
  | nil => exact List.Sublist.slnil
  | cons a l ih => exact (List.filter_sublist.trans ih).cons_cons a

theorem increasing_firstBy_sortBy {κ' : Type*} [DecidableEq κ'] {key : κ' → κ}
    (hkey : Function.Injective key) (l : List κ') : Increasing key (firstBy id (sortBy key l)) := by
  have hle := (pairwise_sortBy key l).sublist (firstBy_sublist id _)
  exact (hle.and (nodup_firstBy_id (sortBy key l))).imp fun hab =>
    lt_of_le_of_ne hab.1 fun heq => hab.2 (hkey heq)

/-- Sorting copies and keeping one of each leaves the keys in order. -/
theorem increasing_firstBy {κ' : Type*} [DecidableEq κ'] {position : α → κ'} {rank : κ' → κ}
    (hrank : Function.Injective rank) (l : List α) :
    Increasing (fun a => rank (position a)) (firstBy position (sortBy (fun a => rank (position a)) l)) := by
  have hle := (pairwise_sortBy (fun a => rank (position a)) l).sublist (firstBy_sublist position _)
  have hnodup := nodup_map_firstBy position (sortBy (fun a => rank (position a)) l)
  rw [List.Nodup, List.pairwise_map] at hnodup
  exact (hle.and hnodup).imp fun hab => lt_of_le_of_ne hab.1 fun heq => hab.2 (hrank heq)

/-- What ranks above an element of an increasing list comes after it. -/
theorem filter_above {a : α} {xs ys : List α} (h : Increasing key (xs ++ a :: ys)) :
    (xs ++ a :: ys).filter (key a < key ·) = ys := by
  obtain ⟨-, hays, hcross⟩ := List.pairwise_append.mp h
  have hxs : xs.filter (key a < key ·) = [] := by
    rw [List.filter_eq_nil_iff]
    intro x hx
    simpa using (hcross x hx a List.mem_cons_self).le
  have hys : ys.filter (key a < key ·) = ys := by
    rw [List.filter_eq_self]
    intro y hy
    simpa using List.rel_of_pairwise_cons hays hy
  rw [List.filter_append, hxs, List.nil_append, List.filter_cons_of_neg (by simp), hys]

/-- What ranks below an element of an increasing list comes before it. -/
theorem filter_below {a : α} {xs ys : List α} (h : Increasing key (xs ++ a :: ys)) :
    (xs ++ a :: ys).filter (key · < key a) = xs := by
  obtain ⟨-, hays, hcross⟩ := List.pairwise_append.mp h
  have hxs : xs.filter (key · < key a) = xs := by
    rw [List.filter_eq_self]
    intro x hx
    simpa using hcross x hx a List.mem_cons_self
  have hys : ys.filter (key · < key a) = [] := by
    rw [List.filter_eq_nil_iff]
    intro y hy
    simpa using (List.rel_of_pairwise_cons hays hy).le
  rw [List.filter_append, hxs, List.filter_cons_of_neg (by simp), hys, List.append_nil]

/-- A predicate that holds on from an element keeps an end of an increasing list. -/
theorem Increasing.filter_suffix (h : Increasing key l) {p : α → Bool}
    (hp : ∀ a b, key a < key b → p a = true → p b = true) : l.filter p <:+ l := by
  induction l with
  | nil => exact List.suffix_refl _
  | cons a l ih =>
      have ih := ih (List.Pairwise.of_cons h)
      cases hpa : p a with
      | false =>
          rw [List.filter_cons_of_neg (by simp [hpa])]
          exact ih.trans (List.suffix_cons a l)
      | true =>
          have hall : l.filter p = l :=
            List.filter_eq_self.mpr fun b hb => hp a b (List.rel_of_pairwise_cons h hb) hpa
          have hsame : (a :: l).filter p = a :: l := by rw [List.filter_cons_of_pos hpa, hall]
          exact hsame.symm ▸ List.suffix_refl (a :: l)

/-- One that holds up to an element keeps a beginning. -/
theorem Increasing.filter_beginning (h : Increasing key l) {p : α → Bool}
    (hp : ∀ a b, key a < key b → p b = true → p a = true) : l.filter p <+: l := by
  induction l with
  | nil => exact List.prefix_refl _
  | cons a l ih =>
      have ih := ih (List.Pairwise.of_cons h)
      cases hpa : p a with
      | true =>
          rw [List.filter_cons_of_pos hpa]
          exact List.cons_prefix_cons.mpr ⟨rfl, ih⟩
      | false =>
          have hnone : l.filter p = [] := List.filter_eq_nil_iff.mpr fun b hb hpb => by
            rw [hp a b (List.rel_of_pairwise_cons h hb) hpb] at hpa
            cases hpa
          rw [List.filter_cons_of_neg (by simp [hpa]), hnone]
          exact List.nil_prefix

theorem Increasing.sortBy_eq (h : Increasing key l) (hperm : l'.Perm l) : sortBy key l' = l := by
  have hnodup : (l'.map key).Nodup := (hperm.map key).nodup_iff.mpr h.nodup
  exact (increasing_sortBy hnodup).eq_of_mem_iff h fun a => by rw [mem_sortBy, hperm.mem_iff]

/-- An element above all others is the one `argmax` finds. -/
theorem argmax_eq_of_dominates {c : α} (hc : c ∈ l) (hdom : ∀ a ∈ l, a = c ∨ key a < key c) :
    l.argmax key = some c := by
  cases hread : l.argmax key with
  | none =>
      rw [List.argmax_eq_none] at hread
      exact absurd (hread ▸ hc) List.not_mem_nil
  | some m =>
      rcases hdom m (List.argmax_mem hread) with rfl | hlt
      · rfl
      · exact absurd hlt (not_lt.mpr (List.le_of_mem_argmax hc hread))

/-- `argmax` by a whole number, in the order of the integers that computes. -/
def argmaxInt (key : α → ℤ) (l : List α) : Option α :=
  @List.argmax α ℤ Int.instLinearOrder.toPreorder Int.instLinearOrder.toDecidableLT key l

theorem argmaxInt_eq_of_dominates {key : α → ℤ} {l : List α} {c : α} (hc : c ∈ l)
    (hdom : ∀ a ∈ l, a = c ∨ key a < key c) : argmaxInt key l = some c :=
  @argmax_eq_of_dominates α ℤ Int.instLinearOrder key l c hc hdom

/-- A cut of an increasing list has a last element that separates it from the rest. -/
theorem Increasing.exists_last_take {n : ℕ} (h : Increasing key l) (hn : 1 ≤ n)
    (hlong : n < l.length) :
    ∃ last ∈ l.take n, (l.take n).getLast? = some last ∧
      (∀ a ∈ l.take n, key a ≤ key last) ∧ ∀ a ∈ l, a ∈ l.take n ∨ key last < key a := by
  have htake : (l.take n).length = n := by
    rw [List.length_take]
    omega
  have hne : l.take n ≠ [] := by
    intro hnil
    rw [hnil] at htake
    simp at htake
    omega
  have hsplit : (l.take n).dropLast ++ (l.take n).getLast hne :: l.drop n = l := by
    conv_rhs => rw [← List.take_append_drop n l, ← List.dropLast_append_getLast hne]
    simp
  have hincreasing := h
  rw [← hsplit] at hincreasing
  obtain ⟨-, hlast, hcross⟩ := List.pairwise_append.mp hincreasing
  refine ⟨(l.take n).getLast hne, List.getLast_mem hne, List.getLast?_eq_some_getLast hne, ?_, ?_⟩
  · intro a ha
    rw [← List.dropLast_append_getLast hne, List.mem_append, List.mem_singleton] at ha
    obtain hbefore | rfl := ha
    · exact (hcross a hbefore _ List.mem_cons_self).le
    · exact le_refl _
  · intro a ha
    rw [← List.take_append_drop n l, List.mem_append] at ha
    exact ha.imp id fun hdrop => List.rel_of_pairwise_cons hlast hdrop

end Ranked
