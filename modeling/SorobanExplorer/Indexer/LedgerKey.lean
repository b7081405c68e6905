import Mathlib
import SorobanExplorer.Lib.Decimal

/-!
# Ledger file keys

`ledgerS3Key` is the name the datastore gives to the file of one ledger.  Every
component carries the one's complement of its number in front, so a listing is
newest-first (`ledgerS3Key_lt`).  Two ledgers never share a key: the file name
after the last `/` ends in the ledger's own decimal text.
-/

namespace SorobanExplorer.Indexer

/-- `{n:08X}` of a 32-bit number. -/
def hex8Upper (n : ℕ) : String :=
  String.ofList ((List.range 8).reverse.map fun i =>
    "0123456789ABCDEF".toList.getD (n / 16 ^ i % 16) '0')

/-- The S3 key of a ledger in the datastore's naming scheme. -/
def ledgerS3Key (keyPrefix : String) (ledger : ℤ) : String :=
  let filesPerPartition : ℤ := 64000
  let partStart := ledger.tdiv filesPerPartition * filesPerPartition
  let partEnd := partStart + filesPerPartition - 1
  let partPrefix := 0xFFFFFFFF - (partStart % 2 ^ 32).toNat
  let filePrefix := 0xFFFFFFFF - (ledger % 2 ^ 32).toNat
  keyPrefix ++ hex8Upper partPrefix ++ "--" ++ toString partStart ++ "-" ++ toString partEnd ++
    "/" ++ hex8Upper filePrefix ++ "--" ++ toString ledger ++ ".xdr.zst"

example : ledgerS3Key "" 62528059 =
    "FC45E5FF--62528000-62591999/FC45E5C4--62528059.xdr.zst" := by decide

/-! ## Distinct ledgers have distinct keys -/

/-- A list is cut at the first occurrence of `x` in only one way. -/
private theorem tail_eq_of_append_cons_eq {α : Type*} {x : α} {a b r r' : List α} (ha : x ∉ a)
    (hb : x ∉ b) (h : a ++ x :: r = b ++ x :: r') : r = r' := by
  induction a generalizing b with
  | nil =>
      cases b with
      | nil => simpa using h
      | cons y b =>
          rw [List.nil_append, List.cons_append, List.cons.injEq] at h
          exact absurd h.1 (List.ne_of_not_mem_cons hb)
  | cons z a ih =>
      cases b with
      | nil =>
          rw [List.nil_append, List.cons_append, List.cons.injEq] at h
          exact absurd h.1.symm (List.ne_of_not_mem_cons ha)
      | cons y b =>
          rw [List.cons_append, List.cons_append, List.cons.injEq] at h
          exact ih (List.not_mem_of_not_mem_cons ha) (List.not_mem_of_not_mem_cons hb) h.2

theorem length_hex8Upper (n : ℕ) : (hex8Upper n).toList.length = 8 := by
  simp [hex8Upper]

private theorem slash_notMem_hex8Upper (n : ℕ) : '/' ∉ (hex8Upper n).toList := by
  have hdigit : ∀ k < 16, "0123456789ABCDEF".toList.getD k '0' ≠ '/' := by decide
  intro h
  rw [hex8Upper, String.toList_ofList, List.mem_map] at h
  obtain ⟨i, -, hi⟩ := h
  exact hdigit _ (Nat.mod_lt _ (by decide)) hi

private theorem slash_notMem_toString_nat (n : ℕ) : '/' ∉ (toString n).toList := by
  intro h
  have hdigits : (toString n).toList = Nat.toDigits 10 n := by
    change (Nat.repr n).toList = _
    simp [Nat.repr]
  rw [hdigits] at h
  exact absurd (Nat.isDigit_of_mem_toDigits (by decide) (by decide) h) (by decide)

private theorem slash_notMem_toString (n : ℤ) : '/' ∉ (toString n).toList := by
  cases n with
  | ofNat n => exact slash_notMem_toString_nat n
  | negSucc n =>
      change '/' ∉ ("-" ++ toString (n + 1)).toList
      rw [String.toList_append]
      intro h
      rcases List.mem_append.mp h with hsign | hdigits
      · exact absurd hsign (by decide)
      · exact slash_notMem_toString_nat _ hdigits

/-- A key is its prefix, a folder without a slash, and a file name that ends in
the ledger's decimal text. -/
private theorem toList_ledgerS3Key (keyPrefix : String) (ledger : ℤ) :
    ∃ (folder : List Char) (n : ℕ), '/' ∉ folder ∧
      (ledgerS3Key keyPrefix ledger).toList = keyPrefix.toList ++ (folder ++ '/' ::
        ((hex8Upper n).toList ++ ("--".toList ++ ((toString ledger).toList ++
          ".xdr.zst".toList)))) := by
  have hslash : ("/" : String).toList = ['/'] := by decide
  set partStart := ledger.tdiv 64000 * 64000 with hstart
  refine ⟨(hex8Upper (0xFFFFFFFF - (partStart % 2 ^ 32).toNat)).toList ++ ("--".toList ++
    ((toString partStart).toList ++ ("-".toList ++ (toString (partStart + 64000 - 1)).toList))),
    0xFFFFFFFF - (ledger % 2 ^ 32).toNat, ?_, ?_⟩
  · have hdash : '/' ∉ ("-" : String).toList := by decide
    have hdashes : '/' ∉ ("--" : String).toList := by decide
    simp only [List.mem_append, not_or]
    exact ⟨slash_notMem_hex8Upper _, hdashes, slash_notMem_toString _, hdash,
      slash_notMem_toString _⟩
  · simp only [ledgerS3Key, String.toList_append, hslash, List.append_assoc,
      List.cons_append, List.nil_append, ← hstart]

/-- **Keys name ledgers.**  Under one prefix, distinct ledgers have distinct
keys. -/
theorem ledgerS3Key_injective (keyPrefix : String) :
    Function.Injective (ledgerS3Key keyPrefix) := by
  intro first second h
  obtain ⟨folder₁, n₁, hfolder₁, hkey₁⟩ := toList_ledgerS3Key keyPrefix first
  obtain ⟨folder₂, n₂, hfolder₂, hkey₂⟩ := toList_ledgerS3Key keyPrefix second
  rw [h, hkey₂] at hkey₁
  have hfile := tail_eq_of_append_cons_eq hfolder₂ hfolder₁ (List.append_cancel_left hkey₁)
  have hlength : (hex8Upper n₂).toList.length = (hex8Upper n₁).toList.length := by
    rw [length_hex8Upper, length_hex8Upper]
  have hnumber := List.append_cancel_left (List.append_inj_right hfile hlength)
  have hdecimal : toString first = toString second :=
    String.toList_inj.mp (List.append_cancel_right hnumber).symm
  exact Int.repr_injective hdecimal

/-! ## A listing is newest-first -/

theorem hex8Upper_lt {m n : ℕ} (h : m < n) (hn : n < 2 ^ 32) :
    (hex8Upper m).toList < (hex8Upper n).toList := by
  have hdigit : ∀ j < 16, ∀ i < j, "0123456789ABCDEF".toList.getD i '0' <
      "0123456789ABCDEF".toList.getD j '0' := by decide
  have htext : ∀ k, (hex8Upper k).toList = (List.range 8).reverse.map fun i =>
      "0123456789ABCDEF".toList.getD (k / 16 ^ i % 16) '0' := fun k => String.toList_ofList
  rw [htext, htext]
  apply Text.map_digits_lt (by decide) fun i j hij hj => hdigit j hj i hij
  rw [Nat.mod_eq_of_lt (by omega), Nat.mod_eq_of_lt (by omega)]
  exact h

/-- The key of a ledger in a scheme that says where a partition ends. -/
def archiveKey (partEnd : ℕ → ℕ) (ledger : ℕ) : String :=
  let partStart := ledger - ledger % 64000
  hex8Upper (0xFFFFFFFF - partStart) ++ "--" ++ toString partStart ++ "-" ++
    toString (partEnd partStart) ++ "/" ++
    (hex8Upper (0xFFFFFFFF - ledger) ++ "--" ++ toString ledger ++ ".xdr.zst")

/-- Two schemes agree on a ledger where they end its partition alike. -/
theorem archiveKey_inj {partEnd partEnd' : ℕ → ℕ} {ledger : ℕ} :
    archiveKey partEnd ledger = archiveKey partEnd' ledger ↔
      partEnd (ledger - ledger % 64000) = partEnd' (ledger - ledger % 64000) := by
  constructor
  · intro h
    simp only [archiveKey, String.append_assoc, String.append_right_inj,
      String.append_left_inj] at h
    exact Nat.repr_inj.mp h
  · intro h
    rw [archiveKey, archiveKey, h]

theorem ledgerS3Key_eq (keyPrefix : String) {ledger : ℕ} (h : ledger < 2 ^ 32) :
    ledgerS3Key keyPrefix ledger = keyPrefix ++ archiveKey (· + 63999) ledger := by
  have hstart : (ledger : ℤ).tdiv 64000 * 64000 = (ledger - ledger % 64000 : ℕ) := by
    rw [Int.tdiv_eq_ediv_of_nonneg (by omega)]
    omega
  have hend : ((ledger - ledger % 64000 : ℕ) : ℤ) + 64000 - 1 =
      (ledger - ledger % 64000 + 63999 : ℕ) := by omega
  have hlow : ∀ n : ℕ, n < 2 ^ 32 → ((n : ℤ) % 2 ^ 32).toNat = n := by
    intro n hn
    omega
  have htext : ∀ n : ℕ, toString (n : ℤ) = toString n := fun n => rfl
  simp only [ledgerS3Key, archiveKey, hstart, hend, hlow ledger h, hlow _ (by omega :
    ledger - ledger % 64000 < 2 ^ 32), htext, String.append_assoc]

/-- The later of two ledgers has the smaller key: its partition is the later one, or the
two share a partition and it is the later file. -/
theorem archiveKey_lt (partEnd : ℕ → ℕ) {a b : ℕ} (hab : a < b) (hb : b < 2 ^ 32) :
    archiveKey partEnd b < archiveKey partEnd a := by
  have hfirst : ∀ {m n : ℕ} (r r' : List Char), m < n → n < 2 ^ 32 →
      (hex8Upper (0xFFFFFFFF - n)).toList ++ r < (hex8Upper (0xFFFFFFFF - m)).toList ++ r' := by
    intro m n r r' hmn hn
    rw [Text.append_lt_append_iff (by rw [length_hex8Upper, length_hex8Upper])]
    exact .inl (hex8Upper_lt (by omega) (by omega))
  rw [String.lt_iff_toList_lt]
  simp only [archiveKey, String.toList_append, List.append_assoc]
  by_cases hpart : a - a % 64000 = b - b % 64000
  · rw [hpart]
    simp only [Text.append_lt_append_iff rfl, lt_irrefl, true_and, false_or]
    exact hfirst _ _ hab hb
  · exact hfirst _ _ (by omega) (by omega)

theorem ledgerS3Key_lt (keyPrefix : String) {a b : ℕ} (hab : a < b) (hb : b < 2 ^ 32) :
    ledgerS3Key keyPrefix b < ledgerS3Key keyPrefix a := by
  rw [ledgerS3Key_eq keyPrefix hb, ledgerS3Key_eq keyPrefix (hab.trans hb),
    String.lt_iff_toList_lt, String.toList_append, String.toList_append,
    Text.append_lt_append_iff rfl]
  exact .inr ⟨rfl, String.lt_iff_toList_lt.mp (archiveKey_lt _ hab hb)⟩

end SorobanExplorer.Indexer
