import Mathlib.Data.List.Basic
import Mathlib.Data.Nat.Find
import Mathlib.Tactic.Push

/-!
# Walks by pages that may come back short

A walk reads a list page by page: each fetch starts after the pages before it, finds
some of what is left and shows a page of it, and the walk goes on only after a fetch
that found more than a page.  `complete_iff_reaches` says exactly when the walk shows
the whole list.
-/

namespace PageWalk

variable {α β : Type*}

section

variable (l : List α) (limit : ℕ) (found : ℕ → ℕ)

/-- What the `k`-th fetch finds, when every page before was full. -/
def fetched (k : ℕ) : List α :=
  (l.drop (k * limit)).take (found k)

/-- The first `n` fetches all found more than a page. -/
def Goes (n : ℕ) : Prop :=
  ∀ k < n, limit < (fetched l limit found k).length

/-- What the first `n` pages show. -/
def shown (n : ℕ) : List α :=
  (List.range n).flatMap fun k => (fetched l limit found k).take limit

/-- The walk ends, and its pages are the list. -/
def Complete : Prop :=
  ∃ n, Goes l limit found n ∧ (fetched l limit found n).length ≤ limit ∧
    shown l limit found (n + 1) = l

/-- Every fetch finds more than a page, or all that is left. -/
def Reaches : Prop :=
  ∀ k, min (limit + 1) (l.length - k * limit) ≤ found k

end

variable {l : List α} {limit : ℕ} {found : ℕ → ℕ}

theorem length_fetched (l : List α) (limit : ℕ) (found : ℕ → ℕ) (k : ℕ) :
    (fetched l limit found k).length = min (found k) (l.length - k * limit) := by
  rw [fetched, List.length_take, List.length_drop]

theorem fetched_map (f : α → β) (l : List α) (limit : ℕ) (found : ℕ → ℕ) (k : ℕ) :
    fetched (l.map f) limit found k = (fetched l limit found k).map f := by
  rw [fetched, fetched, List.map_take, List.map_drop]

theorem reaches_map (f : α → β) (l : List α) (limit : ℕ) (found : ℕ → ℕ) :
    Reaches (l.map f) limit found ↔ Reaches l limit found := by
  simp only [Reaches, List.length_map]

theorem shown_succ (n : ℕ) :
    shown l limit found (n + 1) =
      shown l limit found n ++ (fetched l limit found n).take limit := by
  rw [shown, List.range_succ, List.flatMap_append, List.flatMap_singleton, shown]

/-- Full pages show the beginning of the list. -/
theorem shown_of_goes {n : ℕ} (h : Goes l limit found n) :
    shown l limit found n = l.take (n * limit) := by
  induction n with
  | zero => simp [shown]
  | succ n ih =>
      have hfull := h n (Nat.lt_succ_self n)
      rw [length_fetched] at hfull
      rw [shown_succ, ih fun k hk => h k (Nat.lt_succ_of_lt hk), fetched, List.take_take,
        Nat.min_eq_left (by omega), Nat.succ_mul, List.take_add]

/-- The last row of a full page. -/
theorem getLast?_page {k : ℕ} (hlimit : 1 ≤ limit)
    (hlong : limit < (fetched l limit found k).length) :
    ((fetched l limit found k).take limit).getLast? = l[(k + 1) * limit - 1]? := by
  have hsize : ((fetched l limit found k).take limit).length = limit := by
    rw [List.length_take]
    omega
  rw [length_fetched] at hlong
  rw [List.getLast?_eq_getElem?, hsize, List.getElem?_take_of_lt (by omega), fetched,
    List.getElem?_take_of_lt (by omega), List.getElem?_drop]
  congr 1
  rw [Nat.succ_mul]
  omega

/-- A walk that has ended showed the list up to what its last fetch found. -/
theorem shown_of_short {n : ℕ} (h : Goes l limit found n)
    (hshort : (fetched l limit found n).length ≤ limit) :
    shown l limit found (n + 1) = l.take (n * limit + (fetched l limit found n).length) := by
  have hlength := length_fetched l limit found n
  rw [shown_succ, shown_of_goes h, List.take_of_length_le hshort, List.take_add, fetched]
  congr 1
  rw [List.take_eq_take_iff, ← fetched, hlength, List.length_drop]
  omega

/-- The walk shows the whole list exactly if no fetch falls short. -/
theorem complete_iff_reaches (hlimit : 1 ≤ limit) :
    Complete l limit found ↔ Reaches l limit found := by
  constructor
  · rintro ⟨n, hgoes, hshort, hall⟩ k
    have hlast := length_fetched l limit found n
    rw [shown_of_short hgoes hshort] at hall
    have hlength : l.length ≤ n * limit + (fetched l limit found n).length := by
      have hall := congrArg List.length hall
      rw [List.length_take] at hall
      omega
    obtain hlt | rfl | hgt := Nat.lt_trichotomy k n
    · have hfull := hgoes k hlt
      rw [length_fetched] at hfull
      omega
    · omega
    · -- nothing is left after the last page
      have hmul : (n + 1) * limit ≤ k * limit := Nat.mul_le_mul_right limit hgt
      rw [Nat.succ_mul] at hmul
      omega
  · intro hreaches
    -- the page that holds the end of the list
    have hlast : ∃ n, l.length ≤ (n + 1) * limit := by
      refine ⟨l.length, ?_⟩
      calc l.length
          ≤ (l.length + 1) * 1 := by omega
        _ ≤ (l.length + 1) * limit := Nat.mul_le_mul_left _ hlimit
    classical
    have hbound := Nat.find_spec hlast
    rw [Nat.succ_mul] at hbound
    have hfinal := length_fetched l limit found (Nat.find hlast)
    have hgoes : Goes l limit found (Nat.find hlast) := by
      intro k hk
      have hmore := Nat.find_min hlast hk
      have hfound := hreaches k
      rw [Nat.succ_mul] at hmore
      rw [length_fetched]
      omega
    have hfound := hreaches (Nat.find hlast)
    have hshort : (fetched l limit found (Nat.find hlast)).length ≤ limit := by omega
    refine ⟨Nat.find hlast, hgoes, hshort, ?_⟩
    rw [shown_of_short hgoes hshort]
    exact List.take_of_length_le (by omega)

end PageWalk
