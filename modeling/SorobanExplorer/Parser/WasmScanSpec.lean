import Mathlib.Data.Nat.Bitwise
import Mathlib.Tactic.Ring
import SorobanExplorer.Parser.WasmScan

/-!
# The scans read what modules encode

On the bytes of a module each scan walks from section to section and from import to import:
every step reads one encoded thing and stands after it, whatever it was (`skipDesc_eq`).  So the
scans find what the module has (`wasm_scanners`).  On any other bytes they may stop early, but
never outside.
-/

namespace SorobanExplorer

namespace WasmScan

open Scan WasmFormat

/-! ## Numbers -/

theorem toNat_low (byte : UInt8) : (byte &&& 0x7F).toUInt32.toNat = byte.toNat % 2 ^ 7 := by
  rw [UInt8.toNat_toUInt32, UInt8.toNat_and]
  exact Nat.and_two_pow_sub_one_eq_mod byte.toNat 7

theorem high_eq_zero (byte : UInt8) : byte &&& 0x80 = 0 ↔ byte.toNat < 2 ^ 7 := by
  have hbyte := byte.toNat_lt
  rw [← UInt8.toNat_inj, UInt8.toNat_and]
  change byte.toNat &&& 2 ^ 7 = 0 ↔ _
  rw [Nat.and_two_pow, Nat.testBit_eq_decide_div_mod_eq]
  simp only [Bool.toNat_eq_zero, mul_eq_zero, decide_eq_false_iff_not]
  omega

/-- Seven more bits above those so far. -/
theorem toNat_or_shift {result low : UInt32} {shift : ℕ} (hresult : result.toNat < 2 ^ shift)
    (hshift : shift < 32) (hlow : low.toNat * 2 ^ shift < 2 ^ 32) :
    (result ||| low <<< UInt32.ofNat shift).toNat = result.toNat + low.toNat * 2 ^ shift := by
  have hmod : (UInt32.ofNat shift).toNat % 32 = shift := by
    rw [UInt32.toNat_ofNat']
    omega
  have hshifted : (low <<< UInt32.ofNat shift).toNat = low.toNat <<< shift := by
    rw [UInt32.toNat_shiftLeft, hmod, Nat.mod_eq_of_lt (by rwa [Nat.shiftLeft_eq])]
  calc (result ||| low <<< UInt32.ofNat shift).toNat
      = low.toNat <<< shift ||| result.toNat := by rw [UInt32.toNat_or, hshifted, Nat.or_comm]
    -- the bits so far lie below those shifted in
    _ = low.toNat <<< shift + result.toNat := (Nat.shiftLeft_add_eq_or_of_lt hresult _).symm
    _ = result.toNat + low.toNat * 2 ^ shift := by rw [Nat.add_comm, Nat.shiftLeft_eq]

/-- Reading on, from the bits so far. -/
theorem readLeb128From_eq {width n : ℕ} {bytes : Bytes} (h : Unsigned width bytes n) (rest : Bytes)
    {shift : ℕ} (hwidth : shift + width = 32) (hpos : 0 < width) {result : UInt32}
    (hresult : result.toNat < 2 ^ shift) (i : ℕ) :
    ∃ value : UInt32, value.toNat = result.toNat + n * 2 ^ shift ∧
      readLeb128From result shift i (bytes ++ rest) = some (value, i + bytes.length) := by
  have hsplit : ∀ {width shift : ℕ}, shift + width = 32 → 2 ^ 32 = 2 ^ width * 2 ^ shift := by
    intro width shift h
    rw [← pow_add, Nat.add_comm, h]
  induction h generalizing shift result i with
  | @last width byte hlast hfits =>
      have hlow := toNat_low byte
      rw [Nat.mod_eq_of_lt hlast] at hlow
      have hbelow : (byte &&& 0x7F).toUInt32.toNat * 2 ^ shift < 2 ^ 32 := by
        rw [hlow, hsplit hwidth]
        exact Nat.mul_lt_mul_of_pos_right hfits (Nat.two_pow_pos shift)
      refine ⟨_, toNat_or_shift hresult (by omega) hbelow |>.trans (by rw [hlow]), ?_⟩
      rw [List.singleton_append, readLeb128From, if_neg (by omega),
        if_pos ((high_eq_zero byte).mpr hlast)]
      rfl
  | @more width byte bytes n hmore hwide hrest ih =>
      have hbyte := byte.toNat_lt
      have hlow := toNat_low byte
      have hlt := Nat.mod_lt byte.toNat (Nat.two_pow_pos 7)
      have hseven : 2 ^ (shift + 7) = 2 ^ 7 * 2 ^ shift := by rw [pow_add, Nat.mul_comm]
      have hbelow : (byte &&& 0x7F).toUInt32.toNat * 2 ^ shift < 2 ^ 32 := by
        have hshort : byte.toNat % 2 ^ 7 < 2 ^ width :=
          calc byte.toNat % 2 ^ 7 < 2 ^ 7 := hlt
            _ < 2 ^ width := Nat.pow_lt_pow_right (by decide) hwide
        rw [hlow, hsplit hwidth]
        exact Nat.mul_lt_mul_of_pos_right hshort (Nat.two_pow_pos shift)
      have hnext := toNat_or_shift hresult (by omega) hbelow
      rw [hlow] at hnext
      -- the bits so far stay below those to come
      have hbits : (result ||| (byte &&& 0x7F).toUInt32 <<< UInt32.ofNat shift).toNat <
          2 ^ (shift + 7) := by
        have hle := Nat.mul_le_mul_right (2 ^ shift) (show byte.toNat % 2 ^ 7 ≤ 127 by omega)
        rw [hnext, hseven]
        omega
      obtain ⟨value, hvalue, hread⟩ := ih (show shift + 7 + (width - 7) = 32 by omega) (by omega)
        hbits (i + 1)
      refine ⟨value, ?_, ?_⟩
      · have hmod : byte.toNat % 2 ^ 7 = byte.toNat - 2 ^ 7 := by omega
        rw [hvalue, hnext, hseven, hmod]
        ring
      · rw [List.cons_append, readLeb128From, if_neg (by omega),
          if_neg (by rw [high_eq_zero]; omega)]
        rw [hread, List.length_cons, Nat.add_right_comm, Nat.add_assoc]

/-- **A number** and the bytes it takes. -/
theorem readLeb128_eq {n : ℕ} {bytes : Bytes} (h : Unsigned 32 bytes n) (rest : Bytes) :
    ∃ value : UInt32, value.toNat = n ∧
      readLeb128 (bytes ++ rest) = some (value, bytes.length) := by
  obtain ⟨value, hvalue, hread⟩ := @readLeb128From_eq _ _ _ h rest 0 rfl (by decide) 0
    (by decide) 0
  refine ⟨value, ?_, by rw [readLeb128, hread, Nat.zero_add]⟩
  simpa using hvalue

section

variable {wasm body first rest : Bytes} {pos n : ℕ}

theorem numberAt_eq (hfits : Fits wasm) (h : At wasm pos (first ++ rest))
    (hn : Unsigned 32 first n) : numberAt wasm pos = done (n, pos + first.length) := by
  obtain ⟨value, hvalue, hread⟩ := readLeb128_eq hn rest
  simp only [numberAt, h.getFrom, ofOption_some, done_bind, hread, checkedAdd_eq (h.fits hfits),
    pure_eq, hvalue]

theorem numberOrGiveUp_eq (hfits : Fits body) (h : At body pos (first ++ rest))
    (hn : Unsigned 32 first n) : numberOrGiveUp body pos = done (n, pos + first.length) := by
  obtain ⟨value, hvalue, hread⟩ := readLeb128_eq hn rest
  simp only [numberOrGiveUp, h.getFrom, Option.getD_some, ofOption_some, done_bind, hread,
    plus_eq (h.fits hfits), pure_eq, hvalue]

theorem bytesAt_eq (hfits : Fits body) (h : At body pos (first ++ rest)) :
    bytesAt body pos first.length = done (first, pos + first.length) := by
  have hmax := h.fits hfits
  simp only [bytesAt, checkedAdd_eq hmax, plus_eq hmax, h.getRange, ofOption_some, done_bind,
    pure_eq]

/-! ## Imports -/

theorem skipLimits_eq (hfits : Fits body) {limits : Limits} (h : At body pos (first ++ rest))
    (hlimits : limits.Encoded first) : skipLimits body pos = done (pos + first.length) := by
  have hend := h.fits hfits
  cases hlimits with
  | @unbounded n bytes hmin =>
      have hnext : At body (pos + 1) (bytes ++ rest) := At.next h
      obtain ⟨_, _, hread⟩ := readLeb128_eq hmin rest
      rw [List.length_cons, ← Nat.add_assoc, Nat.add_right_comm] at hend ⊢
      simp only [skipLimits, At.getElem? h, ofOption_some, done_bind,
        plus_eq (show pos + 1 ≤ maxPosition by omega), hnext.getFrom, hread, plus_eq hend,
        pure_eq]
      rfl
  | @bounded n m bytes bytes' hmin hmax =>
      have hnext : At body (pos + 1) (bytes ++ (bytes' ++ rest)) := by
        rw [← List.append_assoc]
        exact At.next h
      have hlast := hnext.after
      obtain ⟨_, _, hread⟩ := readLeb128_eq hmin (bytes' ++ rest)
      obtain ⟨_, _, hread'⟩ := readLeb128_eq hmax rest
      have hmiddle := hnext.fits hfits
      have hsum : pos + (0x01 :: (bytes ++ bytes')).length =
          pos + 1 + bytes.length + bytes'.length := by
        rw [List.length_cons, List.length_append]
        omega
      rw [hsum] at hend ⊢
      simp only [skipLimits, At.getElem? h, ofOption_some, done_bind,
        plus_eq (show pos + 1 ≤ maxPosition by omega), hnext.getFrom, hread, plus_eq hmiddle,
        hlast.getFrom, hread', plus_eq hend]
      rfl

/-- **Every kind of import is skipped whole**, but for a function of the names searched for. -/
theorem skipDesc_eq (hfits : Fits body) {desc : ImportDesc} (h : At body pos (first ++ rest))
    (hdesc : desc.Encoded first) (named : Bool) :
    skipDesc body named pos =
      done (if named && desc.isFunc then none else some (pos + first.length)) := by
  have hend := h.fits hfits
  -- each kind has a length of its own
  cases hdesc with
  | @func typeIdx bytes htype =>
      have hnext : At body (pos + 1) (bytes ++ rest) := At.next h
      have hone : pos + 1 ≤ maxPosition := by
        rw [List.length_cons] at hend
        omega
      rw [skipDesc, At.getElem? h]
      cases named with
      | true => rfl
      | false =>
          simp only [plus_eq hone, done_bind, numberOrGiveUp_eq hfits hnext htype, pure_eq,
            Bool.false_eq_true, if_false, Bool.false_and, List.length_cons]
          rw [Nat.add_assoc, Nat.add_comm 1]
  | @table type limits bytes hlimits =>
      have hnext : At body (pos + 2) (bytes ++ rest) := At.next (At.next h)
      have htwo : pos + 2 ≤ maxPosition := by
        rw [List.length_cons, List.length_cons] at hend
        omega
      rw [skipDesc, At.getElem? h]
      simp only [plus_eq htwo, done_bind, skipLimits_eq hfits hnext hlimits, pure_eq,
        ImportDesc.isFunc, Bool.and_false, Bool.false_eq_true, if_false, List.length_cons]
      rw [Nat.add_assoc, Nat.add_comm 2]
  | @memory limits bytes hlimits =>
      have hnext : At body (pos + 1) (bytes ++ rest) := At.next h
      have hone : pos + 1 ≤ maxPosition := by
        rw [List.length_cons] at hend
        omega
      rw [skipDesc, At.getElem? h]
      simp only [plus_eq hone, done_bind, skipLimits_eq hfits hnext hlimits, pure_eq,
        ImportDesc.isFunc, Bool.and_false, Bool.false_eq_true, if_false, List.length_cons]
      rw [Nat.add_assoc, Nat.add_comm 1]
  | @global type mutable =>
      rw [skipDesc, At.getElem? h]
      simp only [plus_eq (show pos + 3 ≤ maxPosition from hend), done_bind, pure_eq,
        ImportDesc.isFunc, Bool.and_false, Bool.false_eq_true, if_false]
      rfl

theorem utf8_eq_l {name : String} : utf8 name = [0x6C] ↔ name = "l" :=
  utf8_injective.eq_iff' (by decide)

theorem utf8_eq_6 {name : String} : utf8 name = [0x36] ↔ name = "6" :=
  utf8_injective.eq_iff' (by decide)

/-- Whether an import is the function that replaces a contract's code. -/
def isUpgrade (entry : Import) : Bool :=
  entry.source = "l" ∧ entry.name = "6" ∧ entry.desc.isFunc

/-- **The imports**, whatever kinds they are of. -/
theorem walkImports_eq (hfits : Fits body) {entries : List Import} {bytes : Bytes}
    (h : At body pos bytes) (hentries : Row Import.Encoded entries bytes) :
    walkImports body entries.length pos = done (entries.any isUpgrade) := by
  induction hentries generalizing pos with
  | nil => rfl
  | @cons entry entries entryBytes rest hentry hrest ih =>
      cases hentry with
      | @mk source name desc bytes bytes' bytes'' hsource hname hdesc =>
      obtain ⟨size, hsize, rfl⟩ := hsource
      obtain ⟨size', hsize', rfl⟩ := hname
      simp only [List.append_assoc] at h
      have hbytes := h.after
      have hnameAt := hbytes.after
      have hbytes' := hnameAt.after
      have hdescAt := hbytes'.after
      have hnext := ih hdescAt.after
      -- a name is compared by its bytes
      have hnamed : decide (utf8 source = [0x6C] ∧ utf8 name = [0x36]) =
          decide (source = "l" ∧ name = "6") := by
        rw [decide_eq_decide, utf8_eq_l, utf8_eq_6]
      rw [List.length_cons, walkImports]
      simp only [numberOrGiveUp_eq hfits h hsize, bytesAt_eq hfits hbytes, done_bind,
        numberOrGiveUp_eq hfits hnameAt hsize', bytesAt_eq hfits hbytes',
        skipDesc_eq hfits hdescAt hdesc, hnamed, List.any_cons, isUpgrade]
      by_cases hfound : source = "l" ∧ name = "6" ∧ desc.isFunc = true
      · have hnamed : source = "l" ∧ name = "6" := ⟨hfound.1, hfound.2.1⟩
        simp [hnamed, hfound.2.2]
      · -- not the one: its descriptor is skipped
        have hmore : (decide (source = "l" ∧ name = "6") && desc.isFunc) = false := by
          rw [Bool.eq_false_iff]
          intro h
          obtain ⟨hnamed, hfunc⟩ := (Bool.and_eq_true _ _).mp h
          exact hfound ⟨(of_decide_eq_true hnamed).1, (of_decide_eq_true hnamed).2, hfunc⟩
        rw [hmore, decide_eq_false hfound, Bool.false_or]
        exact hnext

theorem importSectionHasUpgrade_eq (hfits : Fits body) {entries : List Import}
    (hbody : (Section.imports entries).HasBody body) :
    importSectionHasUpgrade body = done (entries.any isUpgrade) := by
  cases hbody with
  | @imports _ count bytes hcount hentries =>
      obtain ⟨value, hvalue, hread⟩ := readLeb128_eq hcount bytes
      have hafter : At (count ++ bytes) count.length bytes := by
        have hstart := (at_zero (count ++ bytes)).after
        rwa [Nat.zero_add] at hstart
      simp only [importSectionHasUpgrade, hread, ofOption_some, done_bind, hvalue,
        walkImports_eq hfits hafter hentries, orFalse_done]

/-! ## Sections -/

theorem id_eq_zero {s : Section} : s.id = 0 ↔ ∃ name content, s = .custom name content := by
  cases s with
  | custom name content => exact ⟨fun _ => ⟨name, content, rfl⟩, fun _ => rfl⟩
  | imports entries =>
      exact ⟨fun h => absurd h (show (2 : UInt8) ≠ 0 by decide), by rintro ⟨_, _, ⟨⟩⟩⟩
  | other kind body => exact ⟨fun h => absurd h kind.id_ne_zero, by rintro ⟨_, _, ⟨⟩⟩⟩

theorem id_eq_two {s : Section} : s.id = 2 ↔ ∃ entries, s = .imports entries := by
  cases s with
  | custom name content =>
      exact ⟨fun h => absurd h (show (0 : UInt8) ≠ 2 by decide), by rintro ⟨_, ⟨⟩⟩⟩
  | imports entries => exact ⟨fun _ => ⟨entries, rfl⟩, fun _ => rfl⟩
  | other kind body => exact ⟨fun h => absurd h kind.id_ne_two, by rintro ⟨_, ⟨⟩⟩⟩

/-- The name of a custom section. -/
theorem sectionName_eq (hfits : Fits wasm) {name : String} (h : At wasm pos (first ++ rest))
    (hname : Counted (utf8 name) first) :
    sectionName wasm pos = done (name, pos + first.length) := by
  obtain ⟨size, hsize, rfl⟩ := hname
  rw [List.append_assoc] at h
  have hbytes := h.after
  have hread : String.fromUTF8? ⟨(utf8 name).toArray⟩ = some name := by
    change (if h : name.toByteArray.IsValidUTF8 then
      some (String.fromUTF8 name.toByteArray h) else none) = some name
    rw [dif_pos name.isValidUTF8]
    rfl
  rw [List.length_append, ← Nat.add_assoc]
  simp only [sectionName, numberAt_eq hfits h hsize, done_bind, checkedAdd_eq (hbytes.fits hfits),
    ofOption_some, if_neg (not_lt.mpr hbytes.le), hbytes.range, hread, pure_eq]

/-- What a walk finds at the first byte of a section `s`, before it looks into the body at `start`.
-/
structure Opens (wasm : Bytes) (pos : ℕ) (s : Section) (body : Bytes) (start : ℕ) (rest : Bytes) :
    Prop where
  lt : pos < wasm.length
  getElem? : wasm[pos]? = some s.id
  fits : pos + 1 ≤ maxPosition
  number : numberAt wasm (pos + 1) = done (body.length, start)
  hasBody : s.HasBody body
  body : At wasm start (body ++ rest)

theorem Opens.index {s : Section} {start : ℕ} (h : Opens wasm pos s body start rest) :
    index wasm pos = done s.id := by
  rw [Scan.index, h.getElem?]

theorem section_opens (hfits : Fits wasm) {s : Section} {bytes : Bytes}
    (h : At wasm pos (bytes ++ rest)) (hsection : s.Encoded bytes) :
    ∃ body start, Opens wasm pos s body start rest ∧ rest.length < (bytes ++ rest).length := by
  cases hsection with
  | @mk body _ hbody hcounted =>
      obtain ⟨size, hsize, rfl⟩ := hcounted
      have hlt : pos < wasm.length := by
        have hlength := h.length
        simp only [List.cons_append, List.length_cons] at hlength
        omega
      simp only [List.cons_append, List.append_assoc] at h
      have hsizeAt := h.next
      have hbodyAt := hsizeAt.after
      have hone : pos + 1 ≤ maxPosition := by
        have hend := hbodyAt.fits hfits
        omega
      refine ⟨body, pos + 1 + size.length, ⟨hlt, h.getElem?, hone, numberAt_eq hfits hsizeAt hsize,
        hbody, hbodyAt⟩, ?_⟩
      simp only [List.length_append, List.length_cons]
      omega

/-- **The custom sections**: the first of the name. -/
theorem customFrom_eq (hfits : Fits wasm) {sections : List Section} {bytes : Bytes}
    (h : At wasm pos bytes) (hsections : Row Section.Encoded sections bytes) {rounds : ℕ}
    (hrounds : bytes.length ≤ rounds) (wanted : String) :
    customFrom wasm wanted rounds pos =
      ofOption (sections.findSome? (Section.customContent wanted)) := by
  induction hsections generalizing pos rounds with
  | nil =>
      cases rounds with
      | zero => exact if_neg h.not_lt
      | succ rounds => exact if_neg h.not_lt
  | @cons s sections sectionBytes rest hsection hrest ih =>
      obtain ⟨body, start, hopens, hshorter⟩ := section_opens hfits h hsection
      have hbodyAt := hopens.body
      cases rounds with
      | zero => omega
      | succ rounds =>
          have hnext := @ih _ hbodyAt.after rounds (by omega)
          rw [customFrom, if_pos hopens.lt]
          simp only [hopens.index, done_bind, checkedAdd_eq hopens.fits, ofOption_some,
            hopens.number]
          by_cases hid : s.id = 0
          · obtain ⟨name, content, rfl⟩ := id_eq_zero.mp hid
            cases hopens.hasBody with
            | @custom _ _ bytes hname =>
            have hnameAt := hbodyAt
            rw [List.append_assoc] at hnameAt
            have hcontentAt := hnameAt.after
            have hheader : start + bytes.length - start = bytes.length := by omega
            have hcontent : (bytes ++ content).length - bytes.length = content.length := by
              rw [List.length_append]
              omega
            rw [if_pos hid]
            simp only [sectionName_eq hfits hnameAt hname, done_bind, ofOption_some,
              checkedSub_eq (Nat.le_add_right start bytes.length), hheader,
              checkedSub_eq (show bytes.length ≤ (bytes ++ content).length by
                rw [List.length_append]; exact Nat.le_add_right _ _), hcontent]
            have hstop := hcontentAt.fits hfits
            by_cases hwanted : name = wanted
            · rw [if_pos hwanted, List.findSome?_cons, Section.customContent, if_pos hwanted]
              simp only [sectionContent, checkedAdd_eq hstop, ofOption_some, done_bind,
                if_neg (not_lt.mpr hcontentAt.le), hcontentAt.range]
            · -- another name is stepped over
              have hskip : (Section.custom name content).customContent wanted = none :=
                if_neg hwanted
              rw [if_neg hwanted, List.findSome?_cons, hskip]
              simp only [checkedAdd_eq hstop, ofOption_some, done_bind]
              rw [List.length_append, ← Nat.add_assoc] at hnext
              exact hnext
          · -- and so is every other kind of section
            have hskip : s.customContent wanted = none := by
              cases s with
              | custom name content => exact absurd rfl hid
              | imports entries => rfl
              | other kind body => rfl
            rw [if_neg hid, List.findSome?_cons, hskip]
            simp only [checkedAdd_eq (hbodyAt.fits hfits), ofOption_some, done_bind]
            exact hnext

/-- Whether an import section has the function; another section does not say. -/
def upgradeIn : Section → Option Bool
  | .imports entries => some (entries.any isUpgrade)
  | _ => none

/-- **The import section**: the first says. -/
theorem importsFrom_eq (hfits : Fits wasm) {sections : List Section} {bytes : Bytes}
    (h : At wasm pos bytes) (hsections : Row Section.Encoded sections bytes) {rounds : ℕ}
    (hrounds : bytes.length ≤ rounds) :
    importsFrom wasm rounds pos = done ((sections.findSome? upgradeIn).getD false) := by
  induction hsections generalizing pos rounds with
  | nil =>
      cases rounds with
      | zero => exact if_neg h.not_lt
      | succ rounds => exact if_neg h.not_lt
  | @cons s sections sectionBytes rest hsection hrest ih =>
      obtain ⟨body, start, hopens, hshorter⟩ := section_opens hfits h hsection
      have hbodyAt := hopens.body
      cases rounds with
      | zero => omega
      | succ rounds =>
          have hnext := @ih _ hbodyAt.after rounds (by omega)
          rw [importsFrom, if_pos hopens.lt]
          simp only [hopens.getElem?, done_bind, ofOption_some, hopens.number,
            checkedAdd_eq hopens.fits, checkedAdd_eq (hbodyAt.fits hfits)]
          by_cases hid : s.id = 2
          · obtain ⟨entries, rfl⟩ := id_eq_two.mp hid
            have hbodyFits : Fits body := by
              have hle := hbodyAt.le
              unfold Fits at hfits ⊢
              omega
            rw [if_pos hid, Nat.min_eq_left hbodyAt.le, List.findSome?_cons]
            simp only [hbodyAt.getRange, ofOption_some, done_bind,
              importSectionHasUpgrade_eq hbodyFits hopens.hasBody, upgradeIn, Option.getD_some]
          · -- every other kind of section is stepped over
            have hskip : upgradeIn s = none := by
              cases s with
              | custom name content => rfl
              | imports entries => exact absurd rfl hid
              | other kind body => rfl
            rw [if_neg hid, List.findSome?_cons, hskip]
            exact hnext

end

/-- In a module the first import section is the only one. -/
theorem findSome?_upgradeIn {sections : List Section}
    (h : (sections.filterMap Section.place).Pairwise (· < ·)) :
    (sections.findSome? upgradeIn).getD false = sections.any (Section.importsFunction "l" "6") := by
  induction sections with
  | nil => rfl
  | cons s sections ih =>
      rw [List.findSome?_cons, List.any_cons]
      cases s with
      | imports entries =>
          have hnone : sections.any (Section.importsFunction "l" "6") = false := by
            rw [List.any_eq_false]
            intro other hother hfound
            cases other with
            | imports entries' =>
                -- the other would have to stand before itself
                have hplace : (Section.imports entries).place = some 2 := rfl
                rw [List.filterMap_cons_some hplace, List.pairwise_cons] at h
                exact absurd (h.1 2 (List.mem_filterMap.mpr ⟨_, hother, rfl⟩)) (lt_irrefl 2)
            | custom name content => cases hfound
            | other kind body => cases hfound
          rw [hnone, Bool.or_false]
          rfl
      | custom name content =>
          rw [List.filterMap_cons_none rfl] at h
          exact ih h
      | other kind body =>
          have hrest : (sections.filterMap Section.place).Pairwise (· < ·) :=
            h.sublist ((List.sublist_cons_self _ sections).filterMap _)
          exact ih hrest

/-! ## Modules -/

variable {wasm : Bytes} {m : WasmFormat.Module}

theorem start_of_encoded (h : m.Encoded wasm) : ∃ bytes, At wasm 8 bytes ∧
    range wasm 0 4 = done magic ∧ Row Section.Encoded m.sections bytes := by
  cases h with
  | @mk bytes hsections =>
      have hafter := (at_zero (header ++ bytes)).after
      rw [Nat.zero_add] at hafter
      have hmagic : At (header ++ bytes) 0 (magic ++ ([1, 0, 0, 0] ++ bytes)) := at_zero _
      exact ⟨bytes, hafter, hmagic.range, hsections⟩

theorem extractCustomSection_eq (hfits : Fits wasm) (h : m.Encoded wasm) (wanted : String) :
    extractCustomSection wasm wanted = ofOption (m.customContent wanted) := by
  obtain ⟨bytes, hafter, hmagic, hsections⟩ := start_of_encoded h
  have hlength := hafter.length
  rw [extractCustomSection, if_neg (by omega), hmagic, done_bind, if_pos rfl]
  exact customFrom_eq hfits hafter hsections (by omega) wanted

theorem wasmImportsUpgradeFn_eq (hfits : Fits wasm) (h : m.Encoded wasm) :
    wasmImportsUpgradeFn wasm = done (m.importsFunction "l" "6") := by
  obtain ⟨bytes, hafter, hmagic, hsections⟩ := start_of_encoded h
  have hlength := hafter.length
  rw [wasmImportsUpgradeFn, importsUpgradeInner, if_neg (by omega), hmagic, done_bind, if_pos rfl,
    importsFrom_eq hfits hafter hsections (by omega), orFalse_done, findSome?_upgradeIn m.ordered]
  rfl

/-! ## Any bytes -/

section

variable {body : Bytes} {pos : ℕ}

theorem readLeb128From_bounds {result value : UInt32} {shift i k : ℕ} {bytes : Bytes}
    (h : readLeb128From result shift i bytes = some (value, k)) :
    i < k ∧ k ≤ i + bytes.length := by
  induction bytes generalizing result shift i with
  | nil => cases h
  | cons byte bytes ih =>
      rw [readLeb128From] at h
      split_ifs at h
      · obtain ⟨-, rfl⟩ := Prod.mk.inj (Option.some.inj h)
        rw [List.length_cons]
        omega
      · have hrest := ih h
        rw [List.length_cons]
        omega

theorem readLeb128_bounds {bytes : Bytes} {value : UInt32} {k : ℕ}
    (h : readLeb128 bytes = some (value, k)) : 0 < k ∧ k ≤ bytes.length := by
  have hbounds := readLeb128From_bounds h
  rwa [Nat.zero_add] at hbounds

theorem readLeb128_getFrom {rest : Bytes} {value : UInt32} {k : ℕ}
    (hrest : getFrom body pos = some rest) (h : readLeb128 rest = some (value, k)) :
    0 < k ∧ pos + k ≤ body.length := by
  have hbounds := readLeb128_bounds h
  unfold getFrom at hrest
  split_ifs at hrest with hle
  obtain rfl := Option.some.inj hrest
  rw [List.length_drop] at hbounds
  omega

theorem ends_numberAt (wasm : Bytes) (pos : ℕ) :
    Ends (fun out => pos < out.2 ∧ out.2 ≤ wasm.length) (numberAt wasm pos) := by
  refine ends_bind (ends_ofOption fun rest hrest => hrest) fun rest hrest => ?_
  refine ends_bind (ends_ofOption fun out hread => hread) fun out hread => ?_
  have hbounds := readLeb128_getFrom hrest hread
  refine ends_bind (ends_checkedAdd pos out.2) fun next hnext => ends_done ?_
  dsimp only
  omega

theorem ends_numberOrGiveUp (hfits : Fits body) (pos : ℕ) :
    Ends (fun out => pos < out.2 ∧ out.2 ≤ body.length) (numberOrGiveUp body pos) := by
  refine ends_bind (ends_ofOption fun out hread => hread) fun out hread => ?_
  cases hrest : getFrom body pos with
  | none =>
      rw [hrest] at hread
      cases hread
  | some rest =>
      rw [hrest] at hread
      have hbounds := readLeb128_getFrom hrest hread
      refine ends_bind (ends_plus (hfits.inside hbounds.2)) fun next hnext => ends_done ?_
      dsimp only
      omega

theorem ends_bytesAt (hfits : Fits body) (pos len : ℕ) :
    Ends (fun _ => True) (bytesAt body pos len) := by
  refine ends_bind (ends_checkedAdd pos len) fun stop hstop => ?_
  refine ends_bind (ends_ofOption fun bytes hbytes => hbytes) fun bytes hbytes => ?_
  have hle : stop ≤ body.length := by
    unfold getRange at hbytes
    split_ifs at hbytes with hinside
    exact hinside.2
  have hmax : pos + len ≤ maxPosition := by
    have hinside := hfits.inside hle
    omega
  exact ends_bind (ends_plus hmax) fun _ _ => ends_done trivial

theorem ends_skipLimits (hfits : Fits body) (pos : ℕ) :
    Ends (fun _ => True) (skipLimits body pos) := by
  refine ends_bind (ends_ofOption fun flag hflag => hflag) fun flag hflag => ?_
  have hpos := (List.getElem?_eq_some_iff.mp hflag).1
  refine ends_bind (ends_plus (hfits.position hpos.le (by decide))) fun next hnext => ?_
  refine ends_bind (ends_ofOption fun rest hrest => hrest) fun rest hrest => ?_
  refine ends_bind (ends_ofOption fun out hread => hread) fun out hread => ?_
  have hbounds := readLeb128_getFrom hrest hread
  refine ends_bind (ends_plus (hfits.inside hbounds.2)) fun last hlast => ?_
  by_cases hmax : flag = 0x01
  · rw [if_pos hmax]
    refine ends_bind (ends_ofOption fun rest hrest => hrest) fun rest hrest => ?_
    refine ends_bind (ends_ofOption fun out hread => hread) fun out hread => ?_
    have hbounds := readLeb128_getFrom hrest hread
    exact (ends_plus (hfits.inside hbounds.2)).imp fun _ _ => trivial
  · rw [if_neg hmax]
    exact ends_done trivial

theorem ends_skipDesc (hfits : Fits body) (named : Bool) (pos : ℕ) :
    Ends (fun _ => True) (skipDesc body named pos) := by
  have hstep : ∀ {kind : UInt8} {n : ℕ}, body[pos]? = some kind → n ≤ 2 ^ 32 →
      pos + n ≤ maxPosition := fun hkind hn =>
    hfits.position (List.getElem?_eq_some_iff.mp hkind).1.le hn
  unfold skipDesc
  split
  next hkind =>
    cases named with
    | true => exact ends_done trivial
    | false =>
        refine ends_bind (ends_plus (hstep hkind (by decide))) fun next _ => ?_
        exact ends_bind (ends_numberOrGiveUp hfits next) fun _ _ => ends_done trivial
  next hkind =>
    refine ends_bind (ends_plus (hstep hkind (by decide))) fun next _ => ?_
    exact ends_bind (ends_skipLimits hfits next) fun _ _ => ends_done trivial
  next hkind =>
    refine ends_bind (ends_plus (hstep hkind (by decide))) fun next _ => ?_
    exact ends_bind (ends_skipLimits hfits next) fun _ _ => ends_done trivial
  next hkind =>
    exact ends_bind (ends_plus (hstep hkind (by decide))) fun _ _ => ends_done trivial
  next => exact ends_gaveUp

theorem ends_walkImports (hfits : Fits body) (count pos : ℕ) :
    Ends (fun _ => True) (walkImports body count pos) := by
  induction count generalizing pos with
  | zero => exact ends_done trivial
  | succ count ih =>
      refine ends_bind (ends_numberOrGiveUp hfits pos) fun out _ => ?_
      refine ends_bind (ends_bytesAt hfits out.2 out.1) fun out _ => ?_
      refine ends_bind (ends_numberOrGiveUp hfits out.2) fun out _ => ?_
      refine ends_bind (ends_bytesAt hfits out.2 out.1) fun out _ => ?_
      refine ends_bind (ends_skipDesc hfits _ out.2) fun next _ => ?_
      cases next with
      | none => exact ends_done trivial
      | some pos => exact ih pos

theorem ends_importSectionHasUpgrade (hfits : Fits body) :
    Ends (fun _ => True) (importSectionHasUpgrade body) := by
  refine ends_orFalse (ends_bind (ends_ofOption fun _ _ => trivial) fun out _ => ?_)
  exact ends_walkImports hfits _ _

/-- One round a section, and every section takes a byte. -/
theorem ends_importsFrom (hfits : Fits wasm) {rounds pos : ℕ}
    (hrounds : wasm.length ≤ pos + rounds) :
    Ends (fun _ => True) (importsFrom wasm rounds pos) := by
  induction rounds generalizing pos with
  | zero =>
      rw [importsFrom, if_neg (by omega)]
      exact ends_done trivial
  | succ rounds ih =>
      rw [importsFrom]
      split_ifs with hpos
      · refine ends_bind (ends_ofOption fun _ _ => trivial) fun sectionId _ => ?_
        refine ends_bind (ends_checkedAdd pos 1) fun next hnext => ?_
        refine ends_bind (ends_numberAt wasm next) fun out hout => ?_
        refine ends_bind (ends_checkedAdd out.2 out.1) fun sectionEnd hend => ?_
        by_cases hid : sectionId = 2
        · rw [if_pos hid]
          refine ends_bind (ends_ofOption fun body hbody => hbody) fun body hbody => ?_
          apply ends_importSectionHasUpgrade
          unfold getRange at hbody
          split_ifs at hbody
          obtain rfl := Option.some.inj hbody
          have hle := List.length_take_le' (min sectionEnd wasm.length - out.2) (wasm.drop out.2)
          rw [List.length_drop] at hle
          unfold Fits at hfits ⊢
          omega
        · rw [if_neg hid]
          exact ih (by omega)
      · exact ends_done trivial

theorem ends_sectionName (wasm : Bytes) (pos : ℕ) :
    Ends (fun out => pos ≤ out.2 ∧ out.2 ≤ wasm.length) (sectionName wasm pos) := by
  refine ends_bind (ends_numberAt wasm pos) fun out hout => ?_
  refine ends_bind (ends_checkedAdd out.2 out.1) fun nameEnd hend => ?_
  by_cases hlong : wasm.length < nameEnd
  · rw [if_pos hlong]
    exact ends_gaveUp
  · rw [if_neg hlong]
    refine ends_bind (ends_range (by omega) (not_lt.mp hlong)) fun name _ => ?_
    refine ends_bind (ends_ofOption fun _ _ => trivial) fun name _ => ends_done ?_
    dsimp only
    omega

theorem ends_sectionContent (wasm : Bytes) (pos contentLen : ℕ) :
    Ends (fun _ => True) (sectionContent wasm pos contentLen) := by
  refine ends_bind (ends_checkedAdd pos contentLen) fun stop hstop => ?_
  by_cases hlong : wasm.length < stop
  · rw [if_pos hlong]
    exact ends_gaveUp
  · rw [if_neg hlong]
    exact ends_range (by omega) (not_lt.mp hlong)

theorem ends_customFrom (wasm : Bytes) (wanted : String) {rounds pos : ℕ}
    (hrounds : wasm.length ≤ pos + rounds) :
    Ends (fun _ => True) (customFrom wasm wanted rounds pos) := by
  induction rounds generalizing pos with
  | zero =>
      rw [customFrom, if_neg (by omega)]
      exact ends_gaveUp
  | succ rounds ih =>
      rw [customFrom]
      split_ifs with hpos
      · refine ends_bind (ends_index hpos) fun sectionId _ => ?_
        refine ends_bind (ends_checkedAdd pos 1) fun next hnext => ?_
        refine ends_bind (ends_numberAt wasm next) fun ⟨sectionSize, start⟩ hstart => ?_
        dsimp only at hstart ⊢
        by_cases hid : sectionId = 0
        · rw [if_pos hid]
          refine ends_bind (ends_sectionName wasm start) fun ⟨name, rest⟩ hrest => ?_
          dsimp only at hrest ⊢
          refine ends_bind (ends_ofOption fun _ => eq_of_checkedSub) fun headerBytes _ => ?_
          refine ends_bind (ends_ofOption fun _ => eq_of_checkedSub) fun contentLen _ => ?_
          by_cases hwanted : name = wanted
          · rw [if_pos hwanted]
            exact ends_sectionContent wasm rest contentLen
          · rw [if_neg hwanted]
            exact ends_bind (ends_checkedAdd rest contentLen) fun last hlast => ih (by omega)
        · rw [if_neg hid]
          exact ends_bind (ends_checkedAdd start sectionSize) fun last hlast => ih (by omega)
      · exact ends_gaveUp

end

/-- **Neither scan faults**, whatever the bytes. -/
theorem ends_extractCustomSection (wasm : Bytes) (wanted : String) :
    Ends (fun _ => True) (extractCustomSection wasm wanted) := by
  unfold extractCustomSection
  split_ifs with hshort
  · exact ends_gaveUp
  · refine ends_bind (ends_range (Nat.zero_le 4) (by omega)) fun start _ => ?_
    by_cases hmagic : start = magic
    · rw [if_pos hmagic]
      exact ends_customFrom wasm wanted (by omega)
    · rw [if_neg hmagic]
      exact ends_gaveUp

theorem ends_wasmImportsUpgradeFn (hfits : Fits wasm) :
    Ends (fun _ => True) (wasmImportsUpgradeFn wasm) := by
  apply ends_orFalse
  unfold importsUpgradeInner
  split_ifs with hshort
  · exact ends_done trivial
  · refine ends_bind (ends_range (Nat.zero_le 4) (by omega)) fun start _ => ?_
    by_cases hmagic : start = magic
    · rw [if_pos hmagic]
      exact ends_importsFrom hfits (by omega)
    · rw [if_neg hmagic]
      exact ends_done trivial

/-- Bytes in memory. -/
structure Slice where
  bytes : Bytes
  fits : Fits bytes

/-- **The scans**: on a module they find what it has, and on any bytes they end without a read
outside. -/
theorem wasm_scanners (wasm : Slice) :
    (∀ m : WasmFormat.Module, m.Encoded wasm.bytes →
      wasmImportsUpgradeFn wasm.bytes = done (m.importsFunction "l" "6") ∧
        ∀ name, extractCustomSection wasm.bytes name = ofOption (m.customContent name)) ∧
      (∃ found, wasmImportsUpgradeFn wasm.bytes = done found) ∧
      ∀ name, ∃ content, extractCustomSection wasm.bytes name = ofOption content := by
  refine ⟨fun m h => ⟨wasmImportsUpgradeFn_eq wasm.fits h, extractCustomSection_eq wasm.fits h⟩,
    ?_, fun name => ?_⟩
  · have hends := ends_wasmImportsUpgradeFn wasm.fits
    unfold wasmImportsUpgradeFn at hends ⊢
    cases hscan : importsUpgradeInner wasm.bytes with
    | done found => exact ⟨found, rfl⟩
    | gaveUp => exact ⟨false, rfl⟩
    | fault f =>
        rw [hscan] at hends
        exact hends.elim
  · have hends := ends_extractCustomSection wasm.bytes name
    cases hscan : extractCustomSection wasm.bytes name with
    | done content => exact ⟨some content, rfl⟩
    | gaveUp => exact ⟨none, rfl⟩
    | fault f =>
        rw [hscan] at hends
        exact hends.elim

/-- A module with a section `test`, and the function imported after a global of the same name. -/
theorem wasm_scanners_upgradable :
    let wasm : Slice :=
      ⟨[0x00, 0x61, 0x73, 0x6D, 0x01, 0x00, 0x00, 0x00, 0x00, 8, 4, 0x74, 0x65, 0x73, 0x74, 1, 2,
        3, 0x02, 14, 2, 1, 0x6C, 1, 0x36, 0x03, 0x7F, 0x00, 1, 0x6C, 1, 0x36, 0x00, 0x00],
        by unfold Fits; decide⟩
    wasmImportsUpgradeFn wasm.bytes = done true ∧
      extractCustomSection wasm.bytes "test" = done [1, 2, 3] := by
  intro wasm
  have hnumber : ∀ byte : UInt8, byte.toNat < 2 ^ 7 → Unsigned 32 [byte] byte.toNat :=
    fun byte hbyte => .last hbyte (hbyte.trans (by decide))
  have hcustom : Section.Encoded (.custom "test" [1, 2, 3])
      [0x00, 8, 4, 0x74, 0x65, 0x73, 0x74, 1, 2, 3] :=
    .mk (.custom ⟨[4], hnumber 4 (by decide), rfl⟩) ⟨[8], hnumber 8 (by decide), rfl⟩
  have hsource : Counted (utf8 "l") [1, 0x6C] := ⟨[1], hnumber 1 (by decide), rfl⟩
  have hname : Counted (utf8 "6") [1, 0x36] := ⟨[1], hnumber 1 (by decide), rfl⟩
  -- the global comes first, under the same name
  have hglobal : Import.Encoded ⟨"l", "6", .global .i32 false⟩
      [1, 0x6C, 1, 0x36, 0x03, 0x7F, 0x00] :=
    .mk hsource hname .global
  have hfunc : Import.Encoded ⟨"l", "6", .func 0⟩ [1, 0x6C, 1, 0x36, 0x00, 0x00] :=
    .mk hsource hname (.func (hnumber 0 (by decide)))
  have himports : Section.Encoded
      (.imports [⟨"l", "6", .global .i32 false⟩, ⟨"l", "6", .func 0⟩])
      [0x02, 14, 2, 1, 0x6C, 1, 0x36, 0x03, 0x7F, 0x00, 1, 0x6C, 1, 0x36, 0x00, 0x00] :=
    .mk (.imports (hnumber 2 (by decide)) (.cons hglobal (.cons hfunc .nil)))
      ⟨[14], hnumber 14 (by decide), rfl⟩
  let m : WasmFormat.Module :=
    ⟨[.custom "test" [1, 2, 3], .imports [⟨"l", "6", .global .i32 false⟩, ⟨"l", "6", .func 0⟩]],
      by decide⟩
  have hm : m.Encoded wasm.bytes := .mk (.cons hcustom (.cons himports .nil))
  obtain ⟨hupgrade, hcontent⟩ := (wasm_scanners wasm).1 m hm
  exact ⟨hupgrade, hcontent "test"⟩

end WasmScan

end SorobanExplorer
