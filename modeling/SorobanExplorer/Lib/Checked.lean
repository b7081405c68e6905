import Mathlib.Algebra.BigOperators.Group.List.Basic
import Mathlib.Algebra.Order.Ring.Int
import Mathlib.Data.List.Induction

/-!
# Checked arithmetic in a range

A result outside the range is refused.  A checked sum is refused as soon as one of its
running sums is outside, whatever the exact sum is (`sum_eq_some_iff`).
-/

namespace Checked

/-- An interval of integers around 0. -/
structure Range where
  lo : ℤ
  hi : ℤ
  lo_le : lo ≤ 0
  le_hi : 0 ≤ hi

namespace Range

def i64 : Range := ⟨-2 ^ 63, 2 ^ 63 - 1, by decide, by decide⟩

def i128 : Range := ⟨-2 ^ 127, 2 ^ 127 - 1, by decide, by decide⟩

variable (range : Range)

def Has (x : ℤ) : Prop := range.lo ≤ x ∧ x ≤ range.hi

instance (x : ℤ) : Decidable (range.Has x) := inferInstanceAs (Decidable (_ ∧ _))

def fit (x : ℤ) : Option ℤ := if range.Has x then some x else none

def add (x y : ℤ) : Option ℤ := range.fit (x + y)

def neg (x : ℤ) : Option ℤ := range.fit (-x)

/-- Adds up from 0, one summand after the other. -/
def sum (l : List ℤ) : Option ℤ :=
  l.foldl (fun total x => total.bind fun total => range.add total x) (some 0)

/-- Whether every running sum is in the range. -/
def Runs (l : List ℤ) : Prop := ∀ first, first <+: l → range.Has first.sum

variable {range}

theorem fit_eq_some_iff {x y : ℤ} : range.fit x = some y ↔ range.Has x ∧ x = y := by
  rw [fit, ite_eq_iff]
  simp

theorem fit_of_nonneg {x : ℤ} (h : 0 ≤ x) :
    range.fit x = if x ≤ range.hi then some x else none := by
  have hhas : range.Has x ↔ x ≤ range.hi := and_iff_right (range.lo_le.trans h)
  rw [fit, if_congr hhas rfl rfl]

theorem has_zero : range.Has 0 := ⟨range.lo_le, range.le_hi⟩

theorem runs_nil : range.Runs [] := by
  intro first h
  rw [List.prefix_nil.mp h]
  exact has_zero

theorem runs_concat {l : List ℤ} {x : ℤ} :
    range.Runs (l ++ [x]) ↔ range.Runs l ∧ range.Has (l.sum + x) := by
  have hsum : (l ++ [x]).sum = l.sum + x := by simp
  constructor
  · intro h
    exact ⟨fun first hfirst => h first (hfirst.trans (List.prefix_append l [x])),
      hsum ▸ h _ List.prefix_rfl⟩
  · rintro ⟨hl, hx⟩ first hfirst
    rcases List.prefix_concat_iff.mp hfirst with rfl | hfirst
    · rwa [hsum]
    · exact hl first hfirst

theorem sum_concat (l : List ℤ) (x : ℤ) :
    range.sum (l ++ [x]) = (range.sum l).bind fun total => range.add total x := by
  rw [sum, List.foldl_append]
  rfl

theorem sum_eq_some_iff {l : List ℤ} {total : ℤ} :
    range.sum l = some total ↔ range.Runs l ∧ l.sum = total := by
  induction l using List.reverseRecOn generalizing total with
  | nil => simp [sum, runs_nil]
  | append_singleton l x ih =>
      rw [sum_concat, Option.bind_eq_some_iff, runs_concat]
      simp only [ih, add, fit_eq_some_iff, List.sum_append, List.sum_singleton]
      constructor
      · rintro ⟨_, ⟨hl, rfl⟩, hx, htotal⟩
        exact ⟨⟨hl, hx⟩, htotal⟩
      · rintro ⟨⟨hl, hx⟩, htotal⟩
        exact ⟨_, ⟨hl, rfl⟩, hx, htotal⟩

theorem sum_eq_none_iff {l : List ℤ} : range.sum l = none ↔ ¬ range.Runs l := by
  rw [← not_iff_not, not_not, ← ne_eq, Option.ne_none_iff_exists']
  simp only [sum_eq_some_iff]
  exact ⟨fun ⟨_, hl, _⟩ => hl, fun hl => ⟨_, hl, rfl⟩⟩

end Range

end Checked
