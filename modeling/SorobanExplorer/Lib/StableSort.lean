import Mathlib.Data.Int.Notation
import Mathlib.Data.List.Sort

/-!
# Sorting that keeps ties in their order

A stable sort by a key made of integers.  A list sorted by its keys is fixed by what it
holds under each key, in order (`eq_of_filter_eq`), and sorting does not change that
(`filter_sortByKey`); so lists that agree under every key are sorted into the same list
(`sortByKey_eq_of_filter_eq`).
-/

namespace StableSort

/-- Keys by their first components, then by the next. -/
def lexLe : List ℤ → List ℤ → Bool
  | [], _ => true
  | _ :: _, [] => false
  | x :: xs, y :: ys => decide (x < y) || (x == y && lexLe xs ys)

theorem lexLe_trans : ∀ {xs ys zs : List ℤ}, lexLe xs ys → lexLe ys zs → lexLe xs zs
  | [], _, _ => by simp [lexLe]
  | _ :: _, [], _ => by simp [lexLe]
  | _ :: _, _ :: _, [] => by simp [lexLe]
  | x :: xs, y :: ys, z :: zs => by
      simp only [lexLe, Bool.or_eq_true, decide_eq_true_eq, Bool.and_eq_true, beq_iff_eq]
      rintro (hxy | ⟨rfl, hxs⟩) (hyz | ⟨rfl, hys⟩)
      · exact .inl (hxy.trans hyz)
      · exact .inl hxy
      · exact .inl hyz
      · exact .inr ⟨rfl, lexLe_trans hxs hys⟩

theorem lexLe_total : ∀ xs ys : List ℤ, lexLe xs ys ∨ lexLe ys xs
  | [], _ => by simp [lexLe]
  | _ :: _, [] => by simp [lexLe]
  | x :: xs, y :: ys => by
      have htail := lexLe_total xs ys
      simp only [lexLe, Bool.or_eq_true, decide_eq_true_eq, Bool.and_eq_true, beq_iff_eq]
      rcases lt_trichotomy x y with hxy | rfl | hyx
      · exact .inl (.inl hxy)
      · simpa using htail
      · exact .inr (.inl hyx)

theorem lexLe_antisymm : ∀ {xs ys : List ℤ}, lexLe xs ys → lexLe ys xs → xs = ys
  | [], [] => by simp
  | [], _ :: _ => by simp [lexLe]
  | _ :: _, [] => by simp [lexLe]
  | x :: xs, y :: ys => by
      simp only [lexLe, Bool.or_eq_true, decide_eq_true_eq, Bool.and_eq_true, beq_iff_eq]
      rintro (hxy | ⟨rfl, hxs⟩) (hyx | ⟨heq, hys⟩)
      · exact absurd hxy hyx.asymm
      · exact absurd heq.symm hxy.ne
      · exact absurd hyx (lt_irrefl x)
      · rw [lexLe_antisymm hxs hys]

theorem lexLe_refl (xs : List ℤ) : lexLe xs xs :=
  (lexLe_total xs xs).elim id id

variable {α : Type*} {key : α → List ℤ} {l l' : List α}

def keyLe (key : α → List ℤ) (a b : α) : Bool :=
  lexLe (key a) (key b)

theorem keyLe_trans (a b c : α) (h : keyLe key a b) (h' : keyLe key b c) : keyLe key a c :=
  lexLe_trans h h'

theorem keyLe_total (a b : α) : keyLe key a b || keyLe key b a := by
  rw [Bool.or_eq_true]
  exact lexLe_total (key a) (key b)

/-- Smaller keys first, and equal keys as they come. -/
def sortByKey (key : α → List ℤ) (l : List α) : List α :=
  l.mergeSort (keyLe key)

theorem sortByKey_perm : (sortByKey key l).Perm l :=
  List.mergeSort_perm _ _

/-- Sorted by the key. -/
def SortedByKey (key : α → List ℤ) (l : List α) : Prop :=
  l.Pairwise fun a b => keyLe key a b

theorem sortedByKey_sortByKey : SortedByKey key (sortByKey key l) :=
  List.pairwise_mergeSort keyLe_trans keyLe_total l

theorem sortByKey_eq_self (h : SortedByKey key l) : sortByKey key l = l :=
  List.mergeSort_of_pairwise h

/-- Sorting keeps what is under a key, in order. -/
theorem filter_sortByKey (k : List ℤ) :
    (sortByKey key l).filter (key · = k) = l.filter (key · = k) := by
  have htied : SortedByKey key (l.filter (key · = k)) := by
    refine List.pairwise_of_forall_mem_list fun a ha b hb => ?_
    have ha : key a = k := by simpa using (List.mem_filter.mp ha).2
    have hb : key b = k := by simpa using (List.mem_filter.mp hb).2
    rw [keyLe, ha, hb]
    exact lexLe_refl k
  have hsub : (l.filter (key · = k)).Sublist (sortByKey key l) :=
    List.sublist_mergeSort keyLe_trans keyLe_total htied List.filter_sublist
  have hsub := hsub.filter (key · = k)
  rw [List.filter_filter] at hsub
  simp only [Bool.and_self] at hsub
  exact (hsub.eq_of_length (sortByKey_perm.filter _).length_eq.symm).symm

/-- What is under every key, in order, fixes a sorted list. -/
theorem eq_of_filter_eq (h : SortedByKey key l) (h' : SortedByKey key l')
    (hsame : ∀ k, l.filter (key · = k) = l'.filter (key · = k)) : l = l' := by
  have hmem : ∀ a, a ∈ l ↔ a ∈ l' := by
    intro a
    have ha := congrArg (a ∈ ·) (hsame (key a))
    simpa using ha
  induction l generalizing l' with
  | nil =>
      rw [eq_comm, List.eq_nil_iff_forall_not_mem]
      exact fun a ha => List.not_mem_nil ((hmem a).mpr ha)
  | cons a l ih =>
      obtain _ | ⟨b, l'⟩ := l'
      · exact absurd ((hmem a).mp List.mem_cons_self) List.not_mem_nil
      · -- The first elements rank below each other, so they are the first under one key.
        have hba : lexLe (key b) (key a) := by
          rcases List.mem_cons.mp ((hmem a).mp List.mem_cons_self) with rfl | ha
          · exact lexLe_refl _
          · exact List.rel_of_pairwise_cons h' ha
        have hab : lexLe (key a) (key b) := by
          rcases List.mem_cons.mp ((hmem b).mpr List.mem_cons_self) with rfl | hb
          · exact lexLe_refl _
          · exact List.rel_of_pairwise_cons h hb
        have hkey : key a = key b := lexLe_antisymm hab hba
        have hfirst := hsame (key a)
        rw [List.filter_cons_of_pos (by simp), List.filter_cons_of_pos (by simp [hkey])] at hfirst
        obtain ⟨rfl, -⟩ := List.cons.inj hfirst
        have hrest : ∀ k, l.filter (key · = k) = l'.filter (key · = k) := by
          intro k
          have hk := hsame k
          by_cases hak : key a = k
          · rw [List.filter_cons_of_pos (by simpa using hak),
              List.filter_cons_of_pos (by simpa using hak)] at hk
            exact (List.cons.inj hk).2
          · rwa [List.filter_cons_of_neg (by simpa using hak),
              List.filter_cons_of_neg (by simpa using hak)] at hk
        rw [ih (List.Pairwise.of_cons h) (List.Pairwise.of_cons h') hrest]
        intro c
        have hc := congrArg (c ∈ ·) (hrest (key c))
        simpa using hc

theorem sortByKey_eq_of_filter_eq (hsame : ∀ k, l.filter (key · = k) = l'.filter (key · = k)) :
    sortByKey key l = sortByKey key l' :=
  eq_of_filter_eq sortedByKey_sortByKey sortedByKey_sortByKey fun k => by
    rw [filter_sortByKey, filter_sortByKey, hsame]

end StableSort
