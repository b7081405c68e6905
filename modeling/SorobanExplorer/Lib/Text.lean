import Mathlib.Data.Nat.Notation
import SorobanExplorer.Lib.Traverse

/-!
# Bytes as text

UTF-8 decoding, strict and lossy, and lower-case hex, over plain byte lists.
Decoding goes character by character: one step either reads a scalar value or
skips the longest prefix that could have begun one.
-/

namespace Text

abbrev Bytes := List UInt8

/-- A continuation byte, within the range its lead byte allows. -/
private def inRange (low high : UInt8) (byte : UInt8) : Bool :=
  low ≤ byte && byte ≤ high

/-- The low six bits of a continuation byte. -/
private def payload (byte : UInt8) : ℕ :=
  byte.toNat % 64

/-- The range of the byte after a three-byte lead. -/
private def secondOfThree (lead : UInt8) : UInt8 × UInt8 :=
  if lead = 0xE0 then (0xA0, 0xBF) else if lead = 0xED then (0x80, 0x9F) else (0x80, 0xBF)

/-- The range of the byte after a four-byte lead. -/
private def secondOfFour (lead : UInt8) : UInt8 × UInt8 :=
  if lead = 0xF0 then (0x90, 0xBF) else if lead = 0xF4 then (0x80, 0x8F) else (0x80, 0xBF)

/-- Read one character, or skip an ill-formed prefix (`none`), and return the
bytes left. -/
def nextChar (lead : UInt8) (rest : Bytes) : Option Char × Bytes :=
  if lead < 0x80 then
    (some (Char.ofNat lead.toNat), rest)
  else if inRange 0xC2 0xDF lead then
    match rest with
    | b₁ :: rest₁ =>
        if inRange 0x80 0xBF b₁ then
          (some (Char.ofNat (lead.toNat % 32 * 64 + payload b₁)), rest₁)
        else (none, rest)
    | [] => (none, rest)
  else if inRange 0xE0 0xEF lead then
    match rest with
    | b₁ :: rest₁ =>
        if inRange (secondOfThree lead).1 (secondOfThree lead).2 b₁ then
          match rest₁ with
          | b₂ :: rest₂ =>
              if inRange 0x80 0xBF b₂ then
                (some (Char.ofNat (lead.toNat % 16 * 4096 + payload b₁ * 64 + payload b₂)), rest₂)
              else (none, rest₁)
          | [] => (none, rest₁)
        else (none, rest)
    | [] => (none, rest)
  else if inRange 0xF0 0xF4 lead then
    match rest with
    | b₁ :: rest₁ =>
        if inRange (secondOfFour lead).1 (secondOfFour lead).2 b₁ then
          match rest₁ with
          | b₂ :: rest₂ =>
              if inRange 0x80 0xBF b₂ then
                match rest₂ with
                | b₃ :: rest₃ =>
                    if inRange 0x80 0xBF b₃ then
                      (some (Char.ofNat (lead.toNat % 8 * 262144 + payload b₁ * 4096 +
                        payload b₂ * 64 + payload b₃)), rest₃)
                    else (none, rest₂)
                | [] => (none, rest₂)
              else (none, rest₁)
          | [] => (none, rest₁)
        else (none, rest)
    | [] => (none, rest)
  else (none, rest)

/-- Every character of a byte string; `none` stands for an ill-formed prefix.
Each step reads a byte at least, so the length is fuel enough. -/
def chars : (fuel : ℕ) → Bytes → List (Option Char)
  | 0, _ => []
  | _ + 1, [] => []
  | fuel + 1, lead :: rest =>
      (nextChar lead rest).1 :: chars fuel (nextChar lead rest).2

/-- The text of a byte string, if it is valid UTF-8. -/
def fromUtf8 (bytes : Bytes) : Option String :=
  ((chars bytes.length bytes).mapM id).map String.ofList

/-- The text of a byte string, with U+FFFD for every ill-formed prefix. -/
def fromUtf8Lossy (bytes : Bytes) : String :=
  String.ofList ((chars bytes.length bytes).map (·.getD (Char.ofNat 0xFFFD)))

/-- A lower-case hex digit. -/
def hexDigit (n : ℕ) : Char :=
  "0123456789abcdef".toList.getD n '0'

/-- Two lower-case hex digits a byte. -/
def hexEncode (bytes : Bytes) : String :=
  String.ofList (bytes.flatMap fun byte => [hexDigit (byte.toNat / 16), hexDigit (byte.toNat % 16)])

/-- The value of a hex digit of either case. -/
def hexValue (c : Char) : Option ℕ :=
  if '0' ≤ c ∧ c ≤ '9' then some (c.toNat - '0'.toNat)
  else if 'a' ≤ c ∧ c ≤ 'f' then some (c.toNat - 'a'.toNat + 10)
  else if 'A' ≤ c ∧ c ≤ 'F' then some (c.toNat - 'A'.toNat + 10)
  else none

/-- The bytes of pairs of hex digits. -/
def hexBytes : List Char → Option Bytes
  | [] => some []
  | [_] => none
  | high :: low :: rest => do
      let byte := UInt8.ofNat ((← hexValue high) * 16 + (← hexValue low))
      let rest ← hexBytes rest
      some (byte :: rest)

/-- The bytes a text spells in hex, if it spells any. -/
def hexDecode (s : String) : Option Bytes :=
  hexBytes s.toList

theorem hexValue_hexDigit {n : ℕ} (h : n < 16) : hexValue (hexDigit n) = some n := by
  have hall : ∀ n < 16, hexValue (hexDigit n) = some n := by decide
  exact hall n h

/-- Reading what was written in hex gives the bytes back. -/
theorem hexDecode_hexEncode (bytes : Bytes) : hexDecode (hexEncode bytes) = some bytes := by
  unfold hexDecode hexEncode
  rw [String.toList_ofList]
  induction bytes with
  | nil => rfl
  | cons byte rest ih =>
      have hlt : byte.toNat < 256 := byte.toNat_lt
      have hhigh : hexValue (hexDigit (byte.toNat / 16)) = some (byte.toNat / 16) :=
        hexValue_hexDigit (by omega)
      have hlow : hexValue (hexDigit (byte.toNat % 16)) = some (byte.toNat % 16) :=
        hexValue_hexDigit (by omega)
      have hbyte : UInt8.ofNat (byte.toNat / 16 * 16 + byte.toNat % 16) = byte := by
        rw [Nat.div_add_mod']
        exact UInt8.ofNat_toNat
      simp only [List.flatMap_cons, List.cons_append, List.nil_append, hexBytes, hhigh, hlow, ih,
        Option.bind_eq_bind, Option.bind_some, hbyte]

/-- The text without its trailing `c`s. -/
def trimEndMatches (c : Char) (s : String) : String :=
  String.ofList (s.toList.reverse.dropWhile (· == c)).reverse

/-- Equality of texts up to the case of ASCII letters. -/
def eqIgnoreAsciiCase (s t : String) : Bool :=
  s.toList.map Char.toLower == t.toList.map Char.toLower

def isAsciiHexdigit (c : Char) : Bool :=
  c.isDigit || ('a' ≤ c && c ≤ 'f') || ('A' ≤ c && c ≤ 'F')

/-- The UTF-8 bytes of a text. -/
def asBytes (s : String) : Bytes :=
  s.toUTF8.data.toList

/-- `char::is_whitespace`. -/
def isWhitespace (c : Char) : Bool :=
  (0x9 ≤ c.toNat && c.toNat ≤ 0xD) || (0x2000 ≤ c.toNat && c.toNat ≤ 0x200A) ||
    [0x20, 0x85, 0xA0, 0x1680, 0x2028, 0x2029, 0x202F, 0x205F, 0x3000].contains c.toNat

/-- The text without whitespace at either end. -/
def trim (s : List Char) : List Char :=
  ((s.dropWhile isWhitespace).reverse.dropWhile isWhitespace).reverse

/-- Text without whitespace is its own trim. -/
theorem trim_eq_self {s : List Char} (h : ∀ c ∈ s, isWhitespace c = false) : trim s = s := by
  have hdrop : ∀ {l : List Char}, (∀ c ∈ l, isWhitespace c = false) →
      l.dropWhile isWhitespace = l := by
    intro l hl
    cases l with
    | nil => rfl
    | cons c l => simp [hl c List.mem_cons_self]
  unfold trim
  rw [hdrop h, hdrop fun c hc => h c (List.mem_reverse.mp hc), List.reverse_reverse]

theorem isWhitespace_of_isDigit {c : Char} (h : c.isDigit) : isWhitespace c = false := by
  have hbounds : 48 ≤ c.toNat ∧ c.toNat ≤ 57 := by
    simpa [Char.isDigit, UInt32.le_iff_toNat_le] using h
  simp [isWhitespace]
  omega

/-! ## ASCII -/

private theorem bounds_of_inRange {low high byte : UInt8} (h : inRange low high byte = true) :
    low.toNat ≤ byte.toNat ∧ byte.toNat ≤ high.toNat := by
  simpa [inRange, UInt8.le_iff_toNat_le] using h

private theorem toNat_ofNat {n : ℕ} (h : n.isValidChar) : (Char.ofNat n).toNat = n := by
  have hchar : Char.ofNat n = Char.ofNatAux n h := dif_pos h
  rw [hchar]
  rfl

private theorem second_of_three {lead byte : UInt8}
    (h : inRange (secondOfThree lead).1 (secondOfThree lead).2 byte = true) :
    128 ≤ byte.toNat ∧ byte.toNat ≤ 191 ∧ (lead.toNat = 224 → 160 ≤ byte.toNat) ∧
      (lead.toNat = 237 → byte.toNat ≤ 159) := by
  have hbounds := bounds_of_inRange h
  unfold secondOfThree at hbounds
  simp only [← UInt8.toNat_inj] at hbounds
  split at hbounds
  · simp at *
    omega
  · split at hbounds <;> simp at * <;> omega

private theorem second_of_four {lead byte : UInt8}
    (h : inRange (secondOfFour lead).1 (secondOfFour lead).2 byte = true) :
    128 ≤ byte.toNat ∧ byte.toNat ≤ 191 ∧ (lead.toNat = 240 → 144 ≤ byte.toNat) ∧
      (lead.toNat = 244 → byte.toNat ≤ 143) := by
  have hbounds := bounds_of_inRange h
  unfold secondOfFour at hbounds
  simp only [← UInt8.toNat_inj] at hbounds
  split at hbounds
  · simp at *
    omega
  · split at hbounds <;> simp at * <;> omega

/-- A character read from several bytes is past ASCII. -/
theorem not_ascii_of_nextChar {lead : UInt8} {rest : Bytes} {c : Char} (hlead : ¬ lead < 0x80)
    (h : (nextChar lead rest).1 = some c) : 128 ≤ c.toNat := by
  -- two, three or four bytes: their smallest code is 0x80
  have hcode : ∃ n, c = Char.ofNat n ∧ 128 ≤ n ∧ n.isValidChar := by
    unfold nextChar at h
    rw [if_neg hlead] at h
    split at h
    · rename_i hlead
      have hlead := bounds_of_inRange hlead
      split at h
      · split at h
        · rename_i b₁ _ hb₁
          have hb₁ := bounds_of_inRange hb₁
          refine ⟨_, (Option.some.inj h).symm, ?_⟩
          simp [payload, Nat.isValidChar] at *
          omega
        · cases h
      · cases h
    · split at h
      · rename_i hlead
        have hlead := bounds_of_inRange hlead
        split at h
        · split at h
          · rename_i b₁ _ hb₁
            have hb₁ := second_of_three hb₁
            split at h
            · split at h
              · rename_i b₂ _ hb₂
                have hb₂ := bounds_of_inRange hb₂
                refine ⟨_, (Option.some.inj h).symm, ?_⟩
                simp [payload, Nat.isValidChar] at *
                omega
              · cases h
            · cases h
          · cases h
        · cases h
      · split at h
        · rename_i hlead
          have hlead := bounds_of_inRange hlead
          split at h
          · split at h
            · rename_i b₁ _ hb₁
              have hb₁ := second_of_four hb₁
              split at h
              · split at h
                · rename_i b₂ _ hb₂
                  have hb₂ := bounds_of_inRange hb₂
                  split at h
                  · split at h
                    · rename_i b₃ _ hb₃
                      have hb₃ := bounds_of_inRange hb₃
                      refine ⟨_, (Option.some.inj h).symm, ?_⟩
                      simp [payload, Nat.isValidChar] at *
                      omega
                    · cases h
                  · cases h
                · cases h
              · cases h
            · cases h
          · cases h
        · cases h
  obtain ⟨n, rfl, hlow, hvalid⟩ := hcode
  rw [toNat_ofNat hvalid]
  exact hlow

/-- An ASCII character is read from its own byte and no other. -/
theorem nextChar_ascii {lead : UInt8} {rest : Bytes} {c : Char} (hc : c.toNat < 128)
    (h : (nextChar lead rest).1 = some c) :
    lead = UInt8.ofNat c.toNat ∧ (nextChar lead rest).2 = rest := by
  by_cases hlead : lead < 0x80
  · have hlt : lead.toNat < 128 := by simpa [UInt8.lt_iff_toNat_lt] using hlead
    unfold nextChar at h ⊢
    rw [if_pos hlead] at h ⊢
    obtain rfl := Option.some.inj h
    refine ⟨?_, rfl⟩
    rw [toNat_ofNat (Or.inl (by omega)), UInt8.ofNat_toNat]
  · exact absurd (not_ascii_of_nextChar hlead h) (by omega)

theorem chars_ascii {fuel : ℕ} {bytes : Bytes} {text : List Char}
    (hascii : ∀ c ∈ text, c.toNat < 128) (hfuel : bytes.length ≤ fuel)
    (h : chars fuel bytes = text.map some) :
    bytes = text.map fun c => UInt8.ofNat c.toNat := by
  induction fuel generalizing bytes text with
  | zero =>
      obtain rfl : bytes = [] := List.length_eq_zero_iff.mp (by omega)
      obtain rfl : text = [] := by simpa [chars] using h.symm
      rfl
  | succ fuel ih =>
      cases bytes with
      | nil =>
          obtain rfl : text = [] := by simpa [chars] using h.symm
          rfl
      | cons lead rest =>
          cases text with
          | nil => simp [chars] at h
          | cons c text =>
              obtain ⟨hfirst, hlater⟩ := List.cons.inj h
              obtain ⟨hbyte, hrest⟩ := nextChar_ascii (hascii c List.mem_cons_self) hfirst
              rw [hrest] at hlater
              have hlen : rest.length ≤ fuel := by simpa using hfuel
              rw [List.map_cons, ← hbyte,
                ← ih (fun d hd => hascii d (List.mem_cons_of_mem _ hd)) hlen hlater]

/-- The only bytes that spell an ASCII text are its characters' own. -/
theorem eq_of_fromUtf8_ascii {bytes : Bytes} {text : String}
    (hascii : ∀ c ∈ text.toList, c.toNat < 128) (h : fromUtf8 bytes = some text) :
    bytes = text.toList.map fun c => UInt8.ofNat c.toNat := by
  unfold fromUtf8 at h
  obtain ⟨cs, hcs, rfl⟩ := Option.map_eq_some_iff.mp h
  rw [String.toList_ofList] at hascii ⊢
  have hread := Traverse.mapM_eq_some_iff.mp hcs
  have hchars : List.Forall₂ Eq (chars bytes.length bytes) (cs.map some) :=
    List.forall₂_map_right_iff.mpr hread
  rw [List.forall₂_eq_eq_eq] at hchars
  exact chars_ascii hascii (Nat.le_refl _) hchars

/-! ## One encoding a character -/

/-- The bytes of a character, by its scalar value. -/
def utf8Units (n : ℕ) : List ℕ :=
  if n < 0x80 then [n]
  else if n < 0x800 then [0xC0 + n / 64, 0x80 + n % 64]
  else if n < 0x10000 then [0xE0 + n / 4096, 0x80 + n / 64 % 64, 0x80 + n % 64]
  else [0xF0 + n / 262144, 0x80 + n / 4096 % 64, 0x80 + n / 64 % 64, 0x80 + n % 64]

theorem length_utf8Units (n : ℕ) : 0 < (utf8Units n).length := by
  unfold utf8Units
  split
  · exact Nat.one_pos
  · split
    · exact Nat.two_pos
    · split <;> exact Nat.succ_pos _

private theorem utf8Units_two {lead b₁ : UInt8} (hlead : inRange 0xC2 0xDF lead = true)
    (hb₁ : inRange 0x80 0xBF b₁ = true) :
    utf8Units (Char.ofNat (lead.toNat % 32 * 64 + payload b₁)).toNat =
      [lead.toNat, b₁.toNat] := by
  have hlead := bounds_of_inRange hlead
  have hb₁ := bounds_of_inRange hb₁
  simp [payload] at *
  have hvalid : (lead.toNat % 32 * 64 + b₁.toNat % 64).isValidChar := by
    simp only [Nat.isValidChar]
    omega
  rw [toNat_ofNat hvalid, utf8Units, if_neg (by omega), if_pos (by omega)]
  simp only [List.cons.injEq, and_true]
  omega

private theorem utf8Units_three {lead b₁ b₂ : UInt8} (hlead : inRange 0xE0 0xEF lead = true)
    (hb₁ : inRange (secondOfThree lead).1 (secondOfThree lead).2 b₁ = true)
    (hb₂ : inRange 0x80 0xBF b₂ = true) :
    utf8Units (Char.ofNat (lead.toNat % 16 * 4096 + payload b₁ * 64 + payload b₂)).toNat =
      [lead.toNat, b₁.toNat, b₂.toNat] := by
  have hlead := bounds_of_inRange hlead
  have hb₁ := second_of_three hb₁
  have hb₂ := bounds_of_inRange hb₂
  simp [payload] at *
  have hvalid : (lead.toNat % 16 * 4096 + b₁.toNat % 64 * 64 + b₂.toNat % 64).isValidChar := by
    simp only [Nat.isValidChar]
    omega
  rw [toNat_ofNat hvalid, utf8Units, if_neg (by omega), if_neg (by omega), if_pos (by omega)]
  simp only [List.cons.injEq, and_true]
  omega

private theorem utf8Units_four {lead b₁ b₂ b₃ : UInt8} (hlead : inRange 0xF0 0xF4 lead = true)
    (hb₁ : inRange (secondOfFour lead).1 (secondOfFour lead).2 b₁ = true)
    (hb₂ : inRange 0x80 0xBF b₂ = true) (hb₃ : inRange 0x80 0xBF b₃ = true) :
    utf8Units (Char.ofNat (lead.toNat % 8 * 262144 + payload b₁ * 4096 + payload b₂ * 64 +
        payload b₃)).toNat =
      [lead.toNat, b₁.toNat, b₂.toNat, b₃.toNat] := by
  have hlead := bounds_of_inRange hlead
  have hb₁ := second_of_four hb₁
  have hb₂ := bounds_of_inRange hb₂
  have hb₃ := bounds_of_inRange hb₃
  simp [payload] at *
  have hvalid : (lead.toNat % 8 * 262144 + b₁.toNat % 64 * 4096 + b₂.toNat % 64 * 64 +
      b₃.toNat % 64).isValidChar := by
    simp only [Nat.isValidChar]
    omega
  rw [toNat_ofNat hvalid, utf8Units, if_neg (by omega), if_neg (by omega), if_neg (by omega)]
  simp only [List.cons.injEq, and_true]
  omega

/-- A character is read from its own bytes. -/
theorem utf8Units_nextChar {lead : UInt8} {rest left : Bytes} {c : Char}
    (h : nextChar lead rest = (some c, left)) :
    (lead :: rest).map UInt8.toNat = utf8Units c.toNat ++ left.map UInt8.toNat := by
  unfold nextChar at h
  split at h
  · rename_i hlead
    have hlead : lead.toNat < 128 := by simpa [UInt8.lt_iff_toNat_lt] using hlead
    cases h
    rw [toNat_ofNat (Or.inl (by omega)), utf8Units, if_pos hlead]
    rfl
  · split at h
    · rename_i hlead
      split at h
      · split at h
        · rename_i hb₁
          cases h
          rw [utf8Units_two hlead hb₁]
          rfl
        · cases h
      · cases h
    · split at h
      · rename_i hlead
        split at h
        · split at h
          · rename_i hb₁
            split at h
            · split at h
              · rename_i hb₂
                cases h
                rw [utf8Units_three hlead hb₁ hb₂]
                rfl
              · cases h
            · cases h
          · cases h
        · cases h
      · split at h
        · rename_i hlead
          split at h
          · split at h
            · rename_i hb₁
              split at h
              · split at h
                · rename_i hb₂
                  split at h
                  · split at h
                    · rename_i hb₃
                      cases h
                      rw [utf8Units_four hlead hb₁ hb₂ hb₃]
                      rfl
                    · cases h
                  · cases h
                · cases h
              · cases h
            · cases h
          · cases h
        · cases h

/-- The bytes of a text without ill-formed prefixes are its characters' own. -/
theorem chars_eq_map_some {fuel : ℕ} {bytes : Bytes} {text : List Char}
    (hfuel : bytes.length ≤ fuel) (h : chars fuel bytes = text.map some) :
    bytes.map UInt8.toNat = text.flatMap fun c => utf8Units c.toNat := by
  induction fuel generalizing bytes text with
  | zero =>
      obtain rfl : bytes = [] := List.length_eq_zero_iff.mp (by omega)
      obtain rfl : text = [] := by simpa [chars] using h.symm
      rfl
  | succ fuel ih =>
      cases bytes with
      | nil =>
          obtain rfl : text = [] := by simpa [chars] using h.symm
          rfl
      | cons lead rest =>
          cases text with
          | nil => simp [chars] at h
          | cons c text =>
              obtain ⟨hfirst, hlater⟩ := List.cons.inj h
              have hread := utf8Units_nextChar (Prod.ext hfirst rfl :
                nextChar lead rest = (some c, (nextChar lead rest).2))
              have hlen : (nextChar lead rest).2.length ≤ fuel := by
                have hlength := congrArg List.length hread
                have hpos := length_utf8Units c.toNat
                simp only [List.length_map, List.length_append, List.length_cons] at hlength hfuel
                omega
              rw [hread, ih hlen hlater, List.flatMap_cons]

theorem fromUtf8_eq_some {bytes : Bytes} {text : String} (h : fromUtf8 bytes = some text) :
    bytes.map UInt8.toNat = text.toList.flatMap fun c => utf8Units c.toNat := by
  obtain ⟨cs, hcs, rfl⟩ := Option.map_eq_some_iff.mp h
  rw [String.toList_ofList]
  have hread := Traverse.mapM_eq_some_iff.mp hcs
  have hchars : List.Forall₂ Eq (chars bytes.length bytes) (cs.map some) :=
    List.forall₂_map_right_iff.mpr hread
  rw [List.forall₂_eq_eq_eq] at hchars
  exact chars_eq_map_some (Nat.le_refl _) hchars

theorem fromUtf8_inj {bytes bytes' : Bytes} {text : String} (h : fromUtf8 bytes = some text)
    (h' : fromUtf8 bytes' = some text) : bytes = bytes' := by
  have hunits : bytes.map UInt8.toNat = bytes'.map UInt8.toNat := by
    rw [fromUtf8_eq_some h, fromUtf8_eq_some h']
  exact List.map_injective_iff.mpr (fun _ _ => UInt8.toNat_inj.mp) hunits

example : fromUtf8 [0x55, 0x53, 0x44, 0x00] = some "USD\x00" := by decide
example : fromUtf8 [0xDE, 0xAD, 0xBE, 0xEF] = none := by decide
example : fromUtf8 [0xF0, 0x9F, 0x92, 0xB0] = some "💰" := by decide
example : fromUtf8Lossy [0x61, 0xE2, 0x82, 0x62] = "a\uFFFDb" := by decide

end Text
