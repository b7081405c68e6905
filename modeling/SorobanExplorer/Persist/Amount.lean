import SorobanExplorer.Lib.Decimal
import SorobanExplorer.Persist.Error

/-!
# Amounts as text

Balances leave the parser as text with seven decimals and staging reads them
back.  `decimal7StringToI128_formatStroops` says what the trip does to an
amount: nothing, except that an amount between -1 and 0 units loses its sign
(`amountText_roundTrip_iff`).
-/

namespace SorobanExplorer

open Text Persist

/-- Seven decimals, the sign carried by the whole part. -/
def formatStroops (stroops : ℤ) : String :=
  let whole := stroops.tdiv 10000000
  let frac := (stroops.tmod 10000000).natAbs
  toString whole ++ "." ++ String.ofList (padZeros 7 frac)

def stagingErr (message : String) : SchemaError :=
  .staging message

/-- A decimal text as an integer count of 10⁻⁷ units.  The decimals past the
seventh are cut off, and the last product wraps. -/
def decimal7StringToI128 (text : String) : Except SchemaError ℤ :=
  let s := trim text.toList
  if s = [] then .ok 0
  else do
    let (sign, rest) := splitSign s
    let unsigned ← unsignedDecimal (String.ofList s) rest
    return (sign * unsigned).bmod (2 ^ 128)
where
  splitSign : List Char → ℤ × List Char
    | '-' :: rest => (-1, rest)
    | '+' :: rest => (1, rest)
    | s => (1, s)
  unsignedDecimal (s : String) (rest : List Char) : Except SchemaError ℤ :=
    match splitOnce '.' rest with
    | some (whole, frac) => decimalParts s whole (frac.take 7)
    | none => (parseI128 rest).mapError fun e => stagingErr s!"integer parse '{s}': {e.message}"
  /-- An empty part counts as zero. -/
  part (what s : String) (digits : List Char) : Except SchemaError ℤ :=
    if digits = [] then .ok 0
    else (parseI128 digits).mapError fun e => stagingErr s!"{what} parse '{s}': {e.message}"
  /-- The amount of a whole part and at most seven decimals. -/
  decimalParts (s : String) (whole frac : List Char) : Except SchemaError ℤ := do
    let wholeN ← part "decimal" s whole
    let fracN ← part "decimal frac" s frac
    let scaled := wholeN * 10000000
    let total := scaled + fracN * 10 ^ (7 - frac.length)
    if -2 ^ 127 ≤ scaled ∧ scaled < 2 ^ 127 ∧ -2 ^ 127 ≤ total ∧ total < 2 ^ 127 then
      .ok total
    else .error (stagingErr s!"decimal overflow '{s}'")

example : (decimal7StringToI128 "12.5").toOption = some 125000000 := by decide
example : (decimal7StringToI128 " -3.0000001 ").toOption = some (-30000001) := by decide
example : (decimal7StringToI128 "1,5").toOption = none := by decide

/-! ## The trip through text -/

/-- What is left of an amount after the trip through its text. -/
def textAmount (stroops : ℤ) : ℤ :=
  if -10000000 < stroops ∧ stroops < 0 then -stroops else stroops

/-- The sign printed is that of the whole part, which a small amount has none of. -/
theorem formatStroops_toList (x : ℤ) :
    (formatStroops x).toList = (if x ≤ -10000000 then ['-'] else []) ++
      (Nat.toDigits 10 (x.natAbs / 10000000) ++ '.' :: padZeros 7 (x.natAbs % 10000000)) := by
  have hfrac : (x.tmod 10000000).natAbs = x.natAbs % 10000000 := by
    rw [Int.natAbs_tmod]
    rfl
  have habs : (x.tdiv 10000000).natAbs = x.natAbs / 10000000 := by
    rw [Int.natAbs_tdiv]
    rfl
  have hsign : x.tdiv 10000000 < 0 ↔ x ≤ -10000000 := by
    rcases Int.le_total 0 x with hx | hx
    · have := Int.tdiv_nonneg hx (by omega : (0 : ℤ) ≤ 10000000)
      omega
    · have hneg : x.tdiv 10000000 = -((-x).tdiv 10000000) := by rw [Int.neg_tdiv, Int.neg_neg]
      have hdiv : (-x).tdiv 10000000 = -x / 10000000 :=
        Int.tdiv_eq_ediv_of_nonneg (by omega)
      omega
  simp [formatStroops, Int.toString_eq_repr, toList_repr, habs, hfrac, hsign]

/-- The parts of a printed amount are read as its value. -/
theorem decimalParts_digits (s : String) (whole : ℕ) {frac : ℕ} (hfrac : frac < 10000000)
    (hfits : (whole : ℤ) * 10000000 + frac < 2 ^ 127) :
    decimal7StringToI128.decimalParts s (Nat.toDigits 10 whole) (padZeros 7 frac) =
      .ok (whole * 10000000 + frac : ℤ) := by
  have hpart : ∀ (what : String) (digits : List Char) (n : ℕ), digits ≠ [] →
      (∀ c ∈ digits, c.isDigit) → Nat.ofDigitChars 10 digits 0 = n → (n : ℤ) < 2 ^ 127 →
      decimal7StringToI128.part what s digits = .ok (n : ℤ) := by
    intro what digits n hne hdigits hvalue hn
    have hread : parseInt (-2 ^ 127) (2 ^ 127 - 1) digits = .ok (Nat.ofDigitChars 10 digits 0 : ℤ) :=
      parseInt_digits (by omega) hne hdigits (by omega)
    simp only [decimal7StringToI128.part, hne, if_false, parseI128, hread, hvalue, Except.mapError]
  have hlen : (padZeros 7 frac).length = 7 := length_padZeros (by omega) hfrac
  have hwhole := hpart "decimal" (Nat.toDigits 10 whole) whole Nat.toDigits_ne_nil
    (fun c => Nat.isDigit_of_mem_toDigits (by omega) (by omega)) Nat.ofDigitChars_ten_toDigits
    (by omega)
  have hpad := hpart "decimal frac" (padZeros 7 frac) frac
    (by intro h; simp [h] at hlen) (fun c => isDigit_of_mem_padZeros)
    (ofDigitChars_padZeros 7 frac) (by omega)
  simp only [decimal7StringToI128.decimalParts, hwhole, hpad, hlen, bind, Except.bind]
  rw [if_pos (by omega)]
  simp

/-- Reading a printed amount back. -/
theorem decimal7StringToI128_formatStroops {x : ℤ} (hlow : -2 ^ 63 ≤ x) (hhigh : x < 2 ^ 63) :
    decimal7StringToI128 (formatStroops x) = .ok (textAmount x) := by
  have hdigit : ∀ {n : ℕ}, ∀ c ∈ Nat.toDigits 10 n, c.isDigit := fun c =>
    Nat.isDigit_of_mem_toDigits (by omega) (by omega)
  have hfrac : x.natAbs % 10000000 < 10000000 := Nat.mod_lt _ (by omega)
  have hunsigned : ∀ s, decimal7StringToI128.unsignedDecimal s
      (Nat.toDigits 10 (x.natAbs / 10000000) ++ '.' :: padZeros 7 (x.natAbs % 10000000)) =
      .ok (x.natAbs : ℤ) := by
    intro s
    have htake : (padZeros 7 (x.natAbs % 10000000)).take 7 = padZeros 7 (x.natAbs % 10000000) :=
      List.take_of_length_le (Nat.le_of_eq (length_padZeros (by omega) hfrac))
    have hparts := decimalParts_digits s (x.natAbs / 10000000) hfrac (by omega)
    have hvalue : ((x.natAbs / 10000000 : ℕ) : ℤ) * 10000000 + (x.natAbs % 10000000 : ℕ) =
        x.natAbs := by omega
    rw [decimal7StringToI128.unsignedDecimal,
      splitOnce_append fun h => absurd (hdigit _ h) (by decide)]
    simp only [htake, hparts, hvalue]
  have htrim : trim (formatStroops x).toList = (formatStroops x).toList := by
    apply trim_eq_self
    intro c hc
    rw [formatStroops_toList] at hc
    simp only [List.mem_append, List.mem_cons] at hc
    rcases hc with hc | hc | rfl | hc
    · by_cases h : x ≤ -10000000 <;> simp [h] at hc
      subst hc
      rfl
    · exact isWhitespace_of_isDigit (hdigit _ hc)
    · rfl
    · exact isWhitespace_of_isDigit (isDigit_of_mem_padZeros hc)
  have hsign : decimal7StringToI128.splitSign (formatStroops x).toList =
      (if x ≤ -10000000 then -1 else 1, Nat.toDigits 10 (x.natAbs / 10000000) ++
        '.' :: padZeros 7 (x.natAbs % 10000000)) := by
    rw [formatStroops_toList]
    by_cases hneg : x ≤ -10000000
    · simp [hneg, decimal7StringToI128.splitSign]
    · -- The unsigned text starts with a digit, so no sign is cut off.
      obtain ⟨c, rest, hdigits⟩ := List.exists_cons_of_ne_nil
        (Nat.toDigits_ne_nil (n := x.natAbs / 10000000) (b := 10))
      have hc : c.isDigit := hdigit c (by rw [hdigits]; exact List.mem_cons_self)
      have hplus : c ≠ '+' := by rintro rfl; exact absurd hc (by decide)
      have hminus : c ≠ '-' := by rintro rfl; exact absurd hc (by decide)
      simp only [hneg, if_false, List.nil_append, hdigits, List.cons_append]
      unfold decimal7StringToI128.splitSign
      split <;> simp_all
  have hne : (formatStroops x).toList ≠ [] := by
    rw [formatStroops_toList]
    simp
  simp only [decimal7StringToI128, htrim, hne, if_false, hsign, hunsigned, bind, Except.bind,
    pure, Except.pure]
  congr 1
  unfold textAmount
  split <;> split <;> rw [Int.bmod_eq_of_le] <;> omega

/-- **An amount survives its text** exactly when it prints no lost sign: it is not
negative, or it has whole units for the sign to stand in front of. -/
theorem amountText_roundTrip_iff (stroops : Int64) :
    decimal7StringToI128 (formatStroops stroops.toInt) = .ok stroops.toInt ↔
      0 ≤ stroops.toInt ∨ stroops.toInt ≤ -10000000 := by
  rw [decimal7StringToI128_formatStroops stroops.le_toInt stroops.toInt_lt, Except.ok.injEq,
    textAmount]
  by_cases hsmall : -10000000 < stroops.toInt ∧ stroops.toInt < 0
  · -- No amount is its own negation but 0.
    rw [if_pos hsmall]
    omega
  · rw [if_neg hsmall]
    omega

/-- One stroop below zero is printed as one above. -/
theorem not_amountText_roundTrip :
    (formatStroops (-1 : Int64).toInt).toList = "0.0000001".toList ∧
      decimal7StringToI128 (formatStroops (-1 : Int64).toInt) = .ok 1 ∧
      ¬ ∀ stroops : Int64,
        decimal7StringToI128 (formatStroops stroops.toInt) = .ok stroops.toInt := by
  have hread : decimal7StringToI128 (formatStroops (-1 : Int64).toInt) = .ok 1 :=
    decimal7StringToI128_formatStroops (by decide) (by decide)
  refine ⟨by decide, hread, fun h => ?_⟩
  have hsame := (h (-1)).symm.trans hread
  exact absurd (Except.ok.inj hsame) (by decide)

/-- A printed integer without a point is read as itself. -/
theorem decimal7StringToI128_toString {x : ℤ} (hlow : -2 ^ 63 ≤ x) (hhigh : x < 2 ^ 63) :
    decimal7StringToI128 (toString x) = .ok x := by
  have hdigit : ∀ c ∈ Nat.toDigits 10 x.natAbs, c.isDigit := fun c =>
    Nat.isDigit_of_mem_toDigits (by omega) (by omega)
  have htext : (toString x).toList =
      (if x < 0 then ['-'] else []) ++ Nat.toDigits 10 x.natAbs := by
    rw [Int.toString_eq_repr, toList_repr]
  have htrim : trim (toString x).toList = (toString x).toList := by
    apply trim_eq_self
    intro c hc
    rw [htext, List.mem_append] at hc
    rcases hc with hc | hc
    · by_cases h : x < 0 <;> simp [h] at hc
      subst hc
      rfl
    · exact isWhitespace_of_isDigit (hdigit c hc)
  obtain ⟨c, rest, hdigits⟩ := List.exists_cons_of_ne_nil
    (Nat.toDigits_ne_nil (n := x.natAbs) (b := 10))
  have hsign : decimal7StringToI128.splitSign (toString x).toList =
      (if x < 0 then -1 else 1, Nat.toDigits 10 x.natAbs) := by
    rw [htext]
    by_cases hneg : x < 0
    · simp [hneg, decimal7StringToI128.splitSign]
    · -- the text starts with a digit
      have hc : c.isDigit := hdigit c (by rw [hdigits]; exact List.mem_cons_self)
      have hplus : c ≠ '+' := by rintro rfl; exact absurd hc (by decide)
      have hminus : c ≠ '-' := by rintro rfl; exact absurd hc (by decide)
      simp only [hneg, if_false, List.nil_append, hdigits]
      unfold decimal7StringToI128.splitSign
      split <;> simp_all
  have hne : (toString x).toList ≠ [] := by
    rw [htext, hdigits]
    simp
  have hpoint : splitOnce '.' (Nat.toDigits 10 x.natAbs) = none :=
    splitOnce_eq_none fun h => absurd (hdigit _ h) (by decide)
  have hread : parseI128 (Nat.toDigits 10 x.natAbs) = .ok (x.natAbs : ℤ) := by
    have hread : parseInt (-2 ^ 127) (2 ^ 127 - 1) (Nat.toDigits 10 x.natAbs) =
        .ok (Nat.ofDigitChars 10 (Nat.toDigits 10 x.natAbs) 0 : ℤ) :=
      parseInt_digits (by omega) Nat.toDigits_ne_nil hdigit
        (by rw [Nat.ofDigitChars_ten_toDigits]; omega)
    rwa [Nat.ofDigitChars_ten_toDigits] at hread
  simp only [decimal7StringToI128, htrim, hne, if_false, hsign,
    decimal7StringToI128.unsignedDecimal, hpoint, hread, Except.mapError, bind, Except.bind, pure,
    Except.pure]
  congr 1
  split <;> rw [Int.bmod_eq_of_le] <;> omega

end SorobanExplorer
