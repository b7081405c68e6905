import Mathlib.Data.List.Nodup

/-!
# Sorted, each once

Sorting a list and erasing the repetitions next to each other leaves every value once, in
order: the same list for any two lists with the same values (`sortedUnique_eq_iff`).
-/

namespace SortedUnique

variable {α : Type*} [BEq α] [LawfulBEq α] {a b : α} {l l' : List α}

omit [LawfulBEq α] in
private theorem eraseReps_loop (a : α) (l acc : List α) :
    List.eraseRepsBy.loop (· == ·) a l acc = acc.reverse ++ (a :: l).eraseReps := by
  have happend : ∀ (l : List α) (a : α) (acc : List α),
      List.eraseRepsBy.loop (· == ·) a l acc =
        acc.reverse ++ List.eraseRepsBy.loop (· == ·) a l [] := by
    intro l
    induction l with
    | nil =>
        intro a acc
        simp [List.eraseRepsBy.loop]
    | cons b l ih =>
        intro a acc
        unfold List.eraseRepsBy.loop
        cases hsame : a == b with
        | true => exact ih a acc
        | false =>
            dsimp only
            rw [ih b (a :: acc), ih b [a]]
            simp
  exact happend l a acc

theorem eraseReps_cons_cons [DecidableEq α] (a b : α) (l : List α) :
    (a :: b :: l).eraseReps =
      if a = b then (b :: l).eraseReps else a :: (b :: l).eraseReps := by
  show List.eraseRepsBy.loop (· == ·) a (b :: l) [] = _
  unfold List.eraseRepsBy.loop
  split_ifs with hsame
  · subst hsame
    rw [beq_self_eq_true]
    exact eraseReps_loop a l []
  · rw [beq_eq_false_iff_ne.mpr hsame]
    exact eraseReps_loop b l [a]

theorem mem_eraseReps [DecidableEq α] : a ∈ l.eraseReps ↔ a ∈ l := by
  induction l with
  | nil => rfl
  | cons b l ih =>
      cases l with
      | nil => rfl
      | cons c l =>
          rw [eraseReps_cons_cons]
          split_ifs with hsame
          · subst hsame
            rw [ih]
            simp
          · rw [List.mem_cons, ih, ← List.mem_cons]

variable [LE α] [LT α] [DecidableLE α] [Std.IsLinearOrder α] [Std.LawfulOrderLT α]

/-- Each value once, in order. -/
def sortedUnique (l : List α) : List α :=
  (l.mergeSort fun a b => a ≤ b).eraseReps

omit [DecidableLE α] in
theorem pairwise_eraseReps [DecidableEq α] (h : l.Pairwise (· ≤ ·)) :
    l.eraseReps.Pairwise (· < ·) := by
  induction l with
  | nil => exact List.Pairwise.nil
  | cons a l ih =>
      cases l with
      | nil => exact List.pairwise_singleton _ _
      | cons b l =>
          obtain ⟨hle, hrest⟩ := List.pairwise_cons.mp h
          rw [eraseReps_cons_cons]
          split_ifs with hsame
          · exact ih hrest
          · refine List.pairwise_cons.mpr ⟨fun c hc => ?_, ih hrest⟩
            -- the value after a run is above it, and so are those that follow
            have hbelow : a < b := Std.lt_of_le_of_ne (hle b List.mem_cons_self) hsame
            rcases List.mem_cons.mp (mem_eraseReps.mp hc) with rfl | hc
            · exact hbelow
            · exact Std.lt_of_lt_of_le hbelow ((List.pairwise_cons.mp hrest).1 c hc)

omit [LT α] [Std.IsLinearOrder α] [Std.LawfulOrderLT α] in
theorem mem_sortedUnique : a ∈ sortedUnique l ↔ a ∈ l := by
  classical
  rw [sortedUnique, mem_eraseReps, List.mem_mergeSort]

theorem pairwise_sortedUnique (l : List α) : (sortedUnique l).Pairwise (· < ·) := by
  classical
  have hsorted := @List.pairwise_mergeSort α (fun a b => decide (a ≤ b))
    (fun a b c hab hbc => decide_eq_true (Std.le_trans (of_decide_eq_true hab)
      (of_decide_eq_true hbc)))
    (fun a b => by simpa using Std.le_total (a := a) (b := b)) l
  exact pairwise_eraseReps (hsorted.imp fun hab => of_decide_eq_true hab)

theorem sortedUnique_eq_iff : sortedUnique l = sortedUnique l' ↔ ∀ a, a ∈ l ↔ a ∈ l' := by
  constructor
  · intro h a
    rw [← mem_sortedUnique, h, mem_sortedUnique]
  · intro h
    have hnodup : ∀ l : List α, (sortedUnique l).Nodup := fun l =>
      (pairwise_sortedUnique l).imp fun hab => Std.ne_of_lt hab
    have hperm : (sortedUnique l).Perm (sortedUnique l') := by
      refine (List.perm_ext_iff_of_nodup (hnodup l) (hnodup l')).mpr fun a => ?_
      rw [mem_sortedUnique, mem_sortedUnique, h]
    refine hperm.eq_of_pairwise (fun a b _ _ hab hba => ?_) (pairwise_sortedUnique l)
      (pairwise_sortedUnique l')
    exact absurd (Std.lt_trans hab hba) Std.lt_irrefl

end SortedUnique
