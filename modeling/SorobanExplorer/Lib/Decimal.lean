import SorobanExplorer.Lib.Text
import Mathlib.Data.Int.Notation
import Mathlib.Tactic.Ring
import Mathlib.Tactic.Positivity
import Mathlib.Tactic.Tauto

/-!
# Decimal integers

Parsing a decimal integer of a bounded type, with the errors of each failure,
and the two facts that make printed numbers readable again: the digits of a
number are digits, and their value is the number.
-/

namespace Text

inductive ParseIntError
  | empty
  | invalidDigit
  | posOverflow
  | negOverflow
  deriving DecidableEq, Repr

def ParseIntError.message : ParseIntError → String
  | .empty => "cannot parse integer from empty string"
  | .invalidDigit => "invalid digit found in string"
  | .posOverflow => "number too large to fit in target type"
  | .negOverflow => "number too small to fit in target type"

/-- The value of a decimal digit. -/
def digitValue (c : Char) : ℕ :=
  c.toNat - '0'.toNat

/-- Digits from the left, growing away from zero on one side. -/
def parseDigits (low high : ℤ) (negative : Bool) : (value : ℤ) → List Char → Except ParseIntError ℤ
  | value, [] => .ok value
  | value, c :: rest =>
      if c.isDigit then
        let next := if negative then value * 10 - digitValue c else value * 10 + digitValue c
        if next < low then .error .negOverflow
        else if high < next then .error .posOverflow
        else parseDigits low high negative next rest
      else .error .invalidDigit

/-- A decimal integer within `low..=high`, with an optional sign. -/
def parseInt (low high : ℤ) : List Char → Except ParseIntError ℤ
  | [] => .error .empty
  | ['+'] | ['-'] => .error .invalidDigit
  | '-' :: digits => parseDigits low high true 0 digits
  | '+' :: digits => parseDigits low high false 0 digits
  | digits => parseDigits low high false 0 digits

def parseI128 (s : List Char) : Except ParseIntError ℤ :=
  parseInt (-2 ^ 127) (2 ^ 127 - 1) s

/-- An unsigned integer takes no minus sign, not even of zero. -/
def parseU128 (s : List Char) : Except ParseIntError ℤ :=
  if s.head? = some '-' then .error .invalidDigit else parseInt 0 (2 ^ 128 - 1) s

/-- The text before and after the first `c`. -/
def splitOnce (c : Char) : List Char → Option (List Char × List Char)
  | [] => none
  | x :: rest => if x = c then some ([], rest)
      else (splitOnce c rest).map fun (before, after) => (x :: before, after)

/-- The digits of `n`, padded with zeros on the left to `width`. -/
def padZeros (width n : ℕ) : List Char :=
  List.replicate (width - (Nat.toDigits 10 n).length) '0' ++ Nat.toDigits 10 n

/-! ## Reading digits -/

theorem isDigit_of_mem_padZeros {width n : ℕ} {c : Char} (hc : c ∈ padZeros width n) :
    c.isDigit := by
  unfold padZeros at hc
  rw [List.mem_append] at hc
  rcases hc with hc | hc
  · rw [(List.mem_replicate.mp hc).2]
    rfl
  · exact Nat.isDigit_of_mem_toDigits (by omega) (by omega) hc

theorem ofDigitChars_padZeros (width n : ℕ) : Nat.ofDigitChars 10 (padZeros width n) 0 = n := by
  simp [padZeros, Nat.ofDigitChars_append]

theorem length_padZeros {width n : ℕ} (hwidth : 0 < width) (h : n < 10 ^ width) :
    (padZeros width n).length = width := by
  have hlen : (Nat.toDigits 10 n).length ≤ width :=
    (Nat.length_toDigits_le_iff (by omega) hwidth).mpr h
  simp [padZeros]
  omega

private theorem le_ofDigitChars (digits : List Char) (value : ℕ) :
    value ≤ Nat.ofDigitChars 10 digits value := by
  induction digits generalizing value with
  | nil => simp
  | cons c digits ih =>
      rw [Nat.ofDigitChars_cons]
      exact Nat.le_trans (by omega) (ih _)

/-- Digits whose value fits are read as that value. -/
theorem parseDigits_eq {low high : ℤ} (hlow : low ≤ 0) {digits : List Char}
    (hdigits : ∀ c ∈ digits, c.isDigit) {value : ℕ}
    (hfits : (Nat.ofDigitChars 10 digits value : ℤ) ≤ high) :
    parseDigits low high false value digits = .ok (Nat.ofDigitChars 10 digits value : ℤ) := by
  induction digits generalizing value with
  | nil => simp [parseDigits]
  | cons c digits ih =>
      have hc : c.isDigit := hdigits c List.mem_cons_self
      rw [Nat.ofDigitChars_cons] at hfits ⊢
      have hnext : ((value : ℤ) * 10 + digitValue c : ℤ) =
          ((10 * value + (c.toNat - '0'.toNat) : ℕ) : ℤ) := by
        simp [digitValue]
        omega
      have hle := le_ofDigitChars digits (10 * value + (c.toNat - '0'.toNat))
      simp only [parseDigits, hc, if_true, Bool.false_eq_true, if_false, hnext]
      rw [if_neg (by omega), if_neg (by omega)]
      exact ih (fun c hc => hdigits c (List.mem_cons_of_mem _ hc)) hfits

/-- A non-empty run of digits is a number without a sign. -/
theorem parseInt_digits {low high : ℤ} (hlow : low ≤ 0) {digits : List Char}
    (hne : digits ≠ []) (hdigits : ∀ c ∈ digits, c.isDigit)
    (hfits : (Nat.ofDigitChars 10 digits 0 : ℤ) ≤ high) :
    parseInt low high digits = .ok (Nat.ofDigitChars 10 digits 0 : ℤ) := by
  have hread := parseDigits_eq hlow hdigits hfits
  cases digits with
  | nil => exact absurd rfl hne
  | cons c digits =>
      have hc : c.isDigit := hdigits c List.mem_cons_self
      have hplus : c ≠ '+' := by rintro rfl; exact absurd hc (by decide)
      have hminus : c ≠ '-' := by rintro rfl; exact absurd hc (by decide)
      unfold parseInt
      split <;> simp_all

/-- Digits read under a minus sign are the value below zero. -/
theorem parseDigits_negative {low high : ℤ} (hhigh : 0 ≤ high) {digits : List Char}
    (hdigits : ∀ c ∈ digits, c.isDigit) {value : ℕ}
    (hfits : low ≤ -(Nat.ofDigitChars 10 digits value : ℤ)) :
    parseDigits low high true (-value) digits =
      .ok (-(Nat.ofDigitChars 10 digits value : ℤ)) := by
  induction digits generalizing value with
  | nil => simp [parseDigits]
  | cons c digits ih =>
      have hc : c.isDigit := hdigits c List.mem_cons_self
      rw [Nat.ofDigitChars_cons] at hfits ⊢
      have hnext : (-(value : ℤ) * 10 - digitValue c : ℤ) =
          -((10 * value + (c.toNat - '0'.toNat) : ℕ) : ℤ) := by
        simp [digitValue]
        omega
      have hle := le_ofDigitChars digits (10 * value + (c.toNat - '0'.toNat))
      simp only [parseDigits, hc, if_true, hnext]
      rw [if_neg (by omega), if_neg (by omega)]
      exact ih (fun c hc => hdigits c (List.mem_cons_of_mem _ hc)) hfits

theorem toList_repr (x : ℤ) :
    x.repr.toList = (if x < 0 then ['-'] else []) ++ Nat.toDigits 10 x.natAbs := by
  rw [Int.repr_eq_if]
  by_cases h : 0 ≤ x
  · have habs : x.toNat = x.natAbs := by omega
    simp [h, Int.not_lt.mpr h, habs]
  · have habs : (-x).toNat = x.natAbs := by omega
    simp [h, Int.not_le.mp h, habs]

/-- A printed integer within the bounds is read as itself. -/
theorem parseInt_toString {low high x : ℤ} (hlow : low ≤ x) (hhigh : x ≤ high) (hneg : low ≤ 0)
    (hpos : 0 ≤ high) : parseInt low high (toString x).toList = .ok x := by
  have hdigits : ∀ c ∈ Nat.toDigits 10 x.natAbs, c.isDigit := fun c =>
    Nat.isDigit_of_mem_toDigits (by omega) (by omega)
  have hvalue : Nat.ofDigitChars 10 (Nat.toDigits 10 x.natAbs) 0 = x.natAbs :=
    Nat.ofDigitChars_ten_toDigits
  rw [Int.toString_eq_repr, toList_repr]
  by_cases hx : x < 0
  · rw [if_pos hx]
    obtain ⟨c, rest, hcons⟩ := List.exists_cons_of_ne_nil
      (Nat.toDigits_ne_nil (n := x.natAbs) (b := 10))
    have hread : parseDigits low high true (-(0 : ℕ)) (Nat.toDigits 10 x.natAbs) =
        .ok (-(Nat.ofDigitChars 10 (Nat.toDigits 10 x.natAbs) 0 : ℤ)) :=
      parseDigits_negative hpos hdigits (by rw [hvalue]; omega)
    have habs : -(x.natAbs : ℤ) = x := by omega
    rw [hvalue, habs] at hread
    rw [hcons] at hread ⊢
    exact hread
  · rw [if_neg hx, List.nil_append]
    have hread : parseInt low high (Nat.toDigits 10 x.natAbs) =
        .ok (Nat.ofDigitChars 10 (Nat.toDigits 10 x.natAbs) 0 : ℤ) :=
      parseInt_digits hneg Nat.toDigits_ne_nil hdigits (by rw [hvalue]; omega)
    have habs : (x.natAbs : ℤ) = x := by omega
    rw [hread, hvalue, habs]

/-- A separator that no earlier character is splits the text there. -/
theorem splitOnce_append {c : Char} {before after : List Char} (h : c ∉ before) :
    splitOnce c (before ++ c :: after) = some (before, after) := by
  induction before with
  | nil => simp [splitOnce]
  | cons x before ih =>
      have hx : x ≠ c := fun hx => h (hx ▸ List.mem_cons_self)
      simp [splitOnce, hx, ih fun hmem => h (List.mem_cons_of_mem _ hmem)]

theorem splitOnce_eq_some_iff {c : Char} {text before after : List Char} :
    splitOnce c text = some (before, after) ↔ text = before ++ c :: after ∧ c ∉ before := by
  constructor
  · intro h
    induction text generalizing before with
    | nil => cases h
    | cons x text ih =>
        unfold splitOnce at h
        split_ifs at h with hx
        · cases h
          exact ⟨by rw [hx, List.nil_append], List.not_mem_nil⟩
        · obtain ⟨⟨start, rest⟩, hsplit, heq⟩ := Option.map_eq_some_iff.mp h
          cases heq
          obtain ⟨rfl, hnot⟩ := ih hsplit
          exact ⟨rfl, List.not_mem_cons_of_ne_of_not_mem (Ne.symm hx) hnot⟩
  · rintro ⟨rfl, hnot⟩
    exact splitOnce_append hnot

theorem splitOnce_eq_none {c : Char} {text : List Char} (h : c ∉ text) :
    splitOnce c text = none := by
  induction text with
  | nil => rfl
  | cons x text ih =>
      have hx : x ≠ c := fun hx => h (hx ▸ List.mem_cons_self)
      simp [splitOnce, hx, ih fun hmem => h (List.mem_cons_of_mem _ hmem)]

/-! ## Order

Among texts of one length, the order of the digits is the order of the values:
the first digit that differs decides both. -/

private theorem isDigit_bounds {c : Char} (h : c.isDigit) : 48 ≤ c.toNat ∧ c.toNat ≤ 57 := by
  simp [Char.isDigit] at h
  exact h

/-- The value of a digit list continued from `value`, as an offset of it. -/
private theorem ofDigitChars_eq_add (digits : List Char) (value : ℕ) :
    Nat.ofDigitChars 10 digits value =
      value * 10 ^ digits.length + Nat.ofDigitChars 10 digits 0 := by
  induction digits generalizing value with
  | nil => simp
  | cons c digits ih =>
      rw [Nat.ofDigitChars_cons, ih, Nat.ofDigitChars_cons, ih (10 * 0 + _), List.length_cons]
      ring

private theorem ofDigitChars_lt {digits : List Char} (h : ∀ c ∈ digits, c.isDigit) :
    Nat.ofDigitChars 10 digits 0 < 10 ^ digits.length := by
  induction digits with
  | nil => simp
  | cons c digits ih =>
      have hc := isDigit_bounds (h c List.mem_cons_self)
      have ih := ih fun d hd => h d (List.mem_cons_of_mem _ hd)
      have hzero : '0'.toNat = 48 := rfl
      have hpos : 0 < 10 ^ digits.length := by positivity
      have hdigit : (10 * 0 + (c.toNat - '0'.toNat)) * 10 ^ digits.length ≤
          9 * 10 ^ digits.length := Nat.mul_le_mul_right _ (by omega)
      rw [Nat.ofDigitChars_cons, ofDigitChars_eq_add, List.length_cons, pow_succ]
      omega

theorem lt_iff_ofDigitChars_lt {cs ds : List Char} (hlen : cs.length = ds.length)
    (hcs : ∀ c ∈ cs, c.isDigit) (hds : ∀ d ∈ ds, d.isDigit) :
    cs < ds ↔ Nat.ofDigitChars 10 cs 0 < Nat.ofDigitChars 10 ds 0 := by
  induction cs generalizing ds with
  | nil =>
      rw [List.length_nil, eq_comm, List.length_eq_zero_iff] at hlen
      simp [hlen]
  | cons c cs ih =>
      obtain ⟨d, ds, rfl⟩ := List.exists_cons_of_length_eq_add_one hlen.symm
      have hlen : cs.length = ds.length := by simpa using hlen
      have hcs' : ∀ c ∈ cs, c.isDigit := fun x hx => hcs x (List.mem_cons_of_mem _ hx)
      have hds' : ∀ d ∈ ds, d.isDigit := fun x hx => hds x (List.mem_cons_of_mem _ hx)
      have hc := isDigit_bounds (hcs c List.mem_cons_self)
      have hd := isDigit_bounds (hds d List.mem_cons_self)
      have hclt := ofDigitChars_lt hcs'
      have hdlt := ofDigitChars_lt hds'
      rw [List.cons_lt_cons_iff, ih hlen hcs' hds', Nat.ofDigitChars_cons, Nat.ofDigitChars_cons,
        ofDigitChars_eq_add cs (10 * 0 + _), ofDigitChars_eq_add ds (10 * 0 + _), hlen]
      rw [hlen] at hclt
      have hzero : '0'.toNat = 48 := rfl
      have hvalue : c < d ↔ c.toNat < d.toNat := Iff.rfl
      have hsame : c = d ↔ c.toNat = d.toNat := ⟨congrArg _, Char.toNat_inj.mp⟩
      rw [hvalue, hsame]
      -- the first digit that differs decides, whatever stands behind it
      generalize hp : 10 ^ ds.length = p at hclt hdlt ⊢
      obtain ⟨i, hi⟩ : ∃ i, c.toNat = 48 + i := ⟨c.toNat - 48, by omega⟩
      obtain ⟨j, hj⟩ : ∃ j, d.toNat = 48 + j := ⟨d.toNat - 48, by omega⟩
      rw [hi, hj, hzero]
      simp only [Nat.mul_zero, Nat.zero_add, Nat.add_sub_cancel_left]
      constructor
      · rintro (hlt | ⟨heq, hlt⟩)
        · have : (i + 1) * p ≤ j * p := Nat.mul_le_mul_right _ (by omega)
          rw [Nat.add_mul] at this
          omega
        · have : i = j := by omega
          subst this
          omega
      · intro hlt
        by_cases hij : i < j
        · exact .inl (by omega)
        · by_cases heq : i = j
          · subst heq
            exact .inr ⟨rfl, by omega⟩
          · have : (j + 1) * p ≤ i * p := Nat.mul_le_mul_right _ (by omega)
            rw [Nat.add_mul] at this
            omega

/-- Numbers that fit a width order as their padded texts do. -/
theorem padZeros_lt_iff {width m n : ℕ} (hwidth : 0 < width) (hm : m < 10 ^ width)
    (hn : n < 10 ^ width) : padZeros width m < padZeros width n ↔ m < n := by
  rw [lt_iff_ofDigitChars_lt (by rw [length_padZeros hwidth hm, length_padZeros hwidth hn])
    (fun _ => isDigit_of_mem_padZeros) (fun _ => isDigit_of_mem_padZeros),
    ofDigitChars_padZeros, ofDigitChars_padZeros]

theorem padZeros_injective (width : ℕ) : Function.Injective (padZeros width) := by
  intro m n h
  rw [← ofDigitChars_padZeros width m, h, ofDigitChars_padZeros]

/-- After prefixes of one length, the prefixes decide first. -/
theorem append_lt_append_iff {xs ys : List Char} (hlen : xs.length = ys.length)
    (xs' ys' : List Char) : xs ++ xs' < ys ++ ys' ↔ xs < ys ∨ xs = ys ∧ xs' < ys' := by
  induction xs generalizing ys with
  | nil =>
      rw [List.length_nil, eq_comm, List.length_eq_zero_iff] at hlen
      simp [hlen]
  | cons x xs ih =>
      obtain ⟨y, ys, rfl⟩ := List.exists_cons_of_length_eq_add_one hlen.symm
      have hlen : xs.length = ys.length := by simpa using hlen
      rw [List.cons_append, List.cons_append, List.cons_lt_cons_iff, List.cons_lt_cons_iff,
        ih hlen]
      simp only [List.cons.injEq]
      tauto

/-- Digits of one width, the most significant first, order as the numbers they spell. -/
theorem map_digits_lt {base : ℕ} (hbase : 0 < base) {digit : ℕ → Char}
    (hdigit : ∀ i j, i < j → j < base → digit i < digit j) {width m n : ℕ}
    (h : m % base ^ width < n % base ^ width) :
    ((List.range width).reverse.map fun i => digit (m / base ^ i % base)) <
      (List.range width).reverse.map fun i => digit (n / base ^ i % base) := by
  induction width with
  | zero => simp [Nat.mod_one] at h
  | succ width ih =>
      have hrest : n % base ^ width < base ^ width := Nat.mod_lt _ (Nat.pow_pos hbase)
      rw [List.range_succ, List.reverse_append, List.reverse_singleton, List.singleton_append,
        List.map_cons, List.map_cons, List.cons_lt_cons_iff]
      rw [Nat.mod_pow_succ, Nat.mod_pow_succ] at h
      rcases Nat.lt_trichotomy (m / base ^ width % base) (n / base ^ width % base) with
        hlt | heq | hgt
      · exact .inl (hdigit _ _ hlt (Nat.mod_lt _ hbase))
      · rw [heq] at h
        exact .inr ⟨by rw [heq], ih (Nat.lt_of_add_lt_add_right h)⟩
      · -- A larger digit outweighs all that follows.
        have houtweighs := Nat.mul_le_mul_left (base ^ width) (Nat.succ_le_of_lt hgt)
        rw [Nat.mul_succ] at houtweighs
        generalize m % base ^ width = restm at h
        generalize n % base ^ width = restn at h hrest
        omega

end Text
