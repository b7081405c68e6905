import Mathlib.Data.List.Count
import Mathlib.Data.List.Nodup
import Mathlib.Data.List.Range
import Mathlib.Logic.Function.Basic

/-!
# Numbering by key

A list of keys is numbered in order, each key by a counter of its own.  The
numbers of one key are the interval from its start on, so a key and a number
name one element, whatever the order in which the keys interleave.
-/

namespace Numbering

variable {κ : Type*} [DecidableEq κ]

/-- Number each key in order, from `start` on. -/
def number (start : κ → ℕ) : List κ → List (κ × ℕ)
  | [] => []
  | key :: rest => (key, start key) :: number (Function.update start key (start key + 1)) rest

/-- The counters after some keys were numbered. -/
def advance (start : κ → ℕ) (keys : List κ) : κ → ℕ :=
  fun key => start key + keys.count key

@[simp] theorem advance_nil (start : κ → ℕ) : advance start [] = start := by
  funext key
  simp [advance]

theorem advance_cons (start : κ → ℕ) (key : κ) (rest : List κ) :
    advance start (key :: rest) =
      advance (Function.update start key (start key + 1)) rest := by
  funext other
  by_cases h : other = key
  · subst h
    simp [advance]
    omega
  · simp [advance, Function.update_of_ne h, Ne.symm h]

theorem number_append (start : κ → ℕ) (first second : List κ) :
    number start (first ++ second) =
      number start first ++ number (advance start first) second := by
  induction first generalizing start with
  | nil => simp [number]
  | cons key rest ih => simp [number, ih, advance_cons]

/-- Only the counters of the keys that occur matter. -/
theorem number_congr {start start' : κ → ℕ} {keys : List κ}
    (h : ∀ key ∈ keys, start key = start' key) : number start keys = number start' keys := by
  induction keys generalizing start start' with
  | nil => rfl
  | cons key rest ih =>
      have hkey : start key = start' key := h key List.mem_cons_self
      unfold number
      rw [hkey]
      congr 1
      apply ih
      intro other hother
      by_cases heq : other = key
      · simp [heq]
      · simpa [Function.update_of_ne heq] using h other (List.mem_cons_of_mem _ hother)

theorem map_fst_number (start : κ → ℕ) (keys : List κ) :
    (number start keys).map Prod.fst = keys := by
  induction keys generalizing start with
  | nil => rfl
  | cons key rest ih => simp [number, ih]

/-- The numbers of one key are consecutive from its start. -/
theorem filter_number (start : κ → ℕ) (keys : List κ) (key : κ) :
    ((number start keys).filter (·.1 = key)).map Prod.snd =
      List.range' (start key) (keys.count key) := by
  induction keys generalizing start with
  | nil => simp [number]
  | cons head rest ih =>
      by_cases h : head = key
      · subst h
        simp [number, ih, List.range'_succ]
      · simp [number, h, ih, Function.update_of_ne (Ne.symm h)]

theorem start_le_of_mem_number {start : κ → ℕ} {keys : List κ} {key : κ} {n : ℕ}
    (h : (key, n) ∈ number start keys) : start key ≤ n := by
  have hmem : n ∈ ((number start keys).filter (·.1 = key)).map Prod.snd :=
    List.mem_map.mpr ⟨(key, n), List.mem_filter.mpr ⟨h, by simp⟩, rfl⟩
  rw [filter_number] at hmem
  exact (List.mem_range'_1.mp hmem).1

/-- A key and a number name one element. -/
theorem nodup_number (start : κ → ℕ) (keys : List κ) : (number start keys).Nodup := by
  induction keys generalizing start with
  | nil => simp [number]
  | cons key rest ih =>
      unfold number
      rw [List.nodup_cons]
      refine ⟨fun hmem => ?_, ih _⟩
      have hle : start key + 1 ≤ start key := by simpa using start_le_of_mem_number hmem
      exact Nat.not_succ_le_self _ hle

theorem number_replicate (start : κ → ℕ) (key : κ) (n : ℕ) :
    number start (List.replicate n key) = (List.range' (start key) n).map fun i => (key, i) := by
  induction n generalizing start with
  | zero => rfl
  | succ n ih => simp [List.replicate_succ, number, ih, List.range'_succ]

end Numbering
