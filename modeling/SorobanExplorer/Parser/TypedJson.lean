import SorobanExplorer.Lib.Decimal
import SorobanExplorer.Parser.BalanceReaders

/-!
# What typed JSON keeps of a value

Two contract values share a typed form exactly when they differ in nothing but the
codes of their errors: the rendering of an error is the name of its kind.  Every
other part of a value is in its form, under two assumptions on third-party code, that
addresses and base64 are rendered apart, and one on the values, that their texts are
valid UTF-8.
-/

namespace SorobanExplorer

open Text

/-! ## Values up to error codes -/

mutual

/-- A value with the code of every error in it set to zero. -/
def ScVal.dropErrorCodes : ScVal → ScVal
  | .error kind _ => .error kind 0
  | .vec (some elements) => .vec (some (dropErrorCodesAll elements))
  | .map (some entries) => .map (some (dropErrorCodesEntries entries))
  | .contractInstance executable (some storage) =>
      .contractInstance executable (some (dropErrorCodesEntries storage))
  | value => value

def dropErrorCodesAll : List ScVal → List ScVal
  | [] => []
  | value :: rest => value.dropErrorCodes :: dropErrorCodesAll rest

def dropErrorCodesEntries : List (ScVal × ScVal) → List (ScVal × ScVal)
  | [] => []
  | (key, value) :: rest => (key.dropErrorCodes, value.dropErrorCodes) :: dropErrorCodesEntries rest

end

def ValidText (bytes : Bytes) : Prop :=
  (fromUtf8 bytes).isSome

instance (bytes : Bytes) : Decidable (ValidText bytes) :=
  inferInstanceAs (Decidable ((fromUtf8 bytes).isSome = true))

def ContractExecutable.ValidTexts : ContractExecutable → Prop
  | .externalRef _ tag => ValidText tag
  | _ => True

mutual

/-- The strings, symbols and executable tags of a value are valid UTF-8. -/
def ScVal.ValidTexts : ScVal → Prop
  | .string text | .symbol text | .executableTag text => ValidText text
  | .vec (some elements) => ValidTextsAll elements
  | .map (some entries) => ValidTextsEntries entries
  | .contractInstance executable (some storage) =>
      executable.ValidTexts ∧ ValidTextsEntries storage
  | .contractInstance executable none => executable.ValidTexts
  | _ => True

def ValidTextsAll : List ScVal → Prop
  | [] => True
  | value :: rest => value.ValidTexts ∧ ValidTextsAll rest

def ValidTextsEntries : List (ScVal × ScVal) → Prop
  | [] => True
  | (key, value) :: rest => key.ValidTexts ∧ value.ValidTexts ∧ ValidTextsEntries rest

end

/-! ## Leaves -/

theorem ScErrorKind.name_injective : Function.Injective ScErrorKind.name := by
  intro kind kind'
  cases kind <;> cases kind' <;> decide

theorem utf8OrInvalid_inj {bytes bytes' : Bytes} (h : ValidText bytes) (h' : ValidText bytes')
    (heq : utf8OrInvalid bytes = utf8OrInvalid bytes') : bytes = bytes' := by
  obtain ⟨text, htext⟩ := Option.isSome_iff_exists.mp h
  obtain ⟨text', htext'⟩ := Option.isSome_iff_exists.mp h'
  rw [utf8OrInvalid, utf8OrInvalid, htext, htext', Option.getD_some, Option.getD_some] at heq
  subst heq
  exact fromUtf8_inj htext htext'

theorem toString_int_inj {x y : ℤ} (h : toString x = toString y) : x = y := by
  -- either is read back within bounds that hold both
  have hread : ∀ z, min 0 (min x y) ≤ z → z ≤ max 0 (max x y) →
      parseInt (min 0 (min x y)) (max 0 (max x y)) (toString z).toList = .ok z := fun z hlow hhigh =>
    parseInt_toString hlow hhigh (by omega) (by omega)
  have hx := hread x (by omega) (by omega)
  rw [h, hread y (by omega) (by omega)] at hx
  exact (Except.ok.inj hx).symm

theorem toString_nat_inj {x y : ℕ} (h : toString x = toString y) : x = y := by
  have hint : toString (x : ℤ) = toString (y : ℤ) := h
  exact Int.ofNat.inj (toString_int_inj hint)

theorem u128OfParts_inj {hi hi' lo lo' : UInt64}
    (h : u128OfParts hi lo = u128OfParts hi' lo') : hi = hi' ∧ lo = lo' := by
  unfold u128OfParts at h
  have hlo := lo.toNat_lt
  have hlo' := lo'.toNat_lt
  rw [← UInt64.toNat_inj, ← UInt64.toNat_inj]
  omega

/-- The bytes of a limb, the highest first. -/
def limbBytes (limb : UInt64) : Bytes :=
  (List.range 8).map fun i => UInt8.ofNat (limb.toNat >>> (8 * (7 - i)))

theorem limbBytes_injective : Function.Injective limbBytes := by
  intro x y h
  have hbyte : ∀ i ∈ List.range 8, UInt8.ofNat (x.toNat >>> (8 * (7 - i))) =
      UInt8.ofNat (y.toNat >>> (8 * (7 - i))) := List.map_inj_left.mp h
  have hdigit : ∀ i < 8, x.toNat / 2 ^ (8 * (7 - i)) % 256 = y.toNat / 2 ^ (8 * (7 - i)) % 256 := by
    intro i hi
    have hi := hbyte i (List.mem_range.mpr hi)
    rw [← UInt8.toNat_inj, UInt8.toNat_ofNat', UInt8.toNat_ofNat', Nat.shiftRight_eq_div_pow,
      Nat.shiftRight_eq_div_pow] at hi
    exact hi
  have hx := x.toNat_lt
  have hy := y.toNat_lt
  have h0 := hdigit 0 (by omega)
  have h1 := hdigit 1 (by omega)
  have h2 := hdigit 2 (by omega)
  have h3 := hdigit 3 (by omega)
  have h4 := hdigit 4 (by omega)
  have h5 := hdigit 5 (by omega)
  have h6 := hdigit 6 (by omega)
  have h7 := hdigit 7 (by omega)
  rw [← UInt64.toNat_inj]
  norm_num at h0 h1 h2 h3 h4 h5 h6 h7
  omega

theorem hexEncode_append (first second : Bytes) :
    hexEncode (first ++ second) = hexEncode first ++ hexEncode second := by
  rw [← String.toList_inj]
  simp [hexEncode]

/-- Four limbs in hex are told apart. -/
theorem hex16_inj {a b c d a' b' c' d' : UInt64}
    (h : hex16 a ++ hex16 b ++ hex16 c ++ hex16 d = hex16 a' ++ hex16 b' ++ hex16 c' ++ hex16 d') :
    a = a' ∧ b = b' ∧ c = c' ∧ d = d' := by
  have hlimbs : ∀ a b c d : UInt64, hex16 a ++ hex16 b ++ hex16 c ++ hex16 d =
      hexEncode (limbBytes a ++ limbBytes b ++ limbBytes c ++ limbBytes d) := by
    intro a b c d
    rw [hexEncode_append, hexEncode_append, hexEncode_append]
    rfl
  have hlength : ∀ limb : UInt64, (limbBytes limb).length = 8 := fun limb => by simp [limbBytes]
  rw [hlimbs, hlimbs] at h
  have hbytes := congrArg hexDecode h
  rw [hexDecode_hexEncode, hexDecode_hexEncode, Option.some.injEq] at hbytes
  obtain ⟨habc, hd⟩ := List.append_inj hbytes (by simp [hlength])
  obtain ⟨hab, hc⟩ := List.append_inj habc (by simp [hlength])
  obtain ⟨ha, hb⟩ := List.append_inj hab (by simp [hlength])
  exact ⟨limbBytes_injective ha, limbBytes_injective hb, limbBytes_injective hc,
    limbBytes_injective hd⟩

/-! ## Values -/

variable [Crates]

/-- What the rendering of values takes from other crates: addresses are rendered
apart, and so are byte strings in base64. -/
structure RendersApart : Prop where
  address : Function.Injective Crates.scAddressStrkey
  base64 : Function.Injective Crates.base64Encode

theorem contractExecutableJson_inj (hrenders : RendersApart) {executable other : ContractExecutable}
    (hvalid : executable.ValidTexts) (hvalid' : other.ValidTexts)
    (h : contractExecutableJson executable = contractExecutableJson other) : executable = other := by
  cases executable <;> cases other <;> simp [contractExecutableJson] at h
  · rw [Hash.hexEncode_inj.mp h]
  · rfl
  · obtain ⟨howner, htag⟩ := h
    rw [hrenders.address howner, utf8OrInvalid_inj hvalid hvalid' htag]

/-- Two values of one kind, with what each holds. -/
inductive SameKind : ScVal → ScVal → Prop
  | bool (x y) : SameKind (.bool x) (.bool y)
  | void : SameKind .void .void
  | error (x y xcode ycode) : SameKind (.error x xcode) (.error y ycode)
  | u32 (x y) : SameKind (.u32 x) (.u32 y)
  | i32 (x y) : SameKind (.i32 x) (.i32 y)
  | u64 (x y) : SameKind (.u64 x) (.u64 y)
  | i64 (x y) : SameKind (.i64 x) (.i64 y)
  | timepoint (x y) : SameKind (.timepoint x) (.timepoint y)
  | duration (x y) : SameKind (.duration x) (.duration y)
  | u128 (x y xlo ylo) : SameKind (.u128 x xlo) (.u128 y ylo)
  | i128 (x y xlo ylo) : SameKind (.i128 x xlo) (.i128 y ylo)
  | u256 (a b c d a' b' c' d') : SameKind (.u256 a b c d) (.u256 a' b' c' d')
  | i256 (a b c d a' b' c' d') : SameKind (.i256 a b c d) (.i256 a' b' c' d')
  | bytes (x y) : SameKind (.bytes x) (.bytes y)
  | string (x y) : SameKind (.string x) (.string y)
  | symbol (x y) : SameKind (.symbol x) (.symbol y)
  | vec (x y) : SameKind (.vec x) (.vec y)
  | map (x y) : SameKind (.map x) (.map y)
  | address (x y) : SameKind (.address x) (.address y)
  | contractInstance (x y xs ys) : SameKind (.contractInstance x xs) (.contractInstance y ys)
  | ledgerKeyContractInstance : SameKind .ledgerKeyContractInstance .ledgerKeyContractInstance
  | ledgerKeyNonce (x y) : SameKind (.ledgerKeyNonce x) (.ledgerKeyNonce y)
  | executableTag (x y) : SameKind (.executableTag x) (.executableTag y)

omit [Crates] in
theorem sameKind_of_tag {a b : ScVal} (h : a.tag = b.tag) : SameKind a b := by
  cases a <;> cases b <;> first | constructor | simp [ScVal.tag] at h

theorem sameKind_of_json {a b : ScVal} (h : scvalToTypedJson a = scvalToTypedJson b) :
    SameKind a b := by
  have htag := congrArg (Json.get? · "type") h
  simp only [get?_type_scvalToTypedJson, Option.some.injEq, Json.str.injEq] at htag
  exact sameKind_of_tag htag

omit [Crates] in
theorem typedJson_inj {typeName : String} {x y : Json} :
    typedJson typeName x = typedJson typeName y ↔ x = y := by
  simp [typedJson]

mutual

/-- The typed form keeps everything but the codes of errors. -/
theorem dropErrorCodes_eq_of_json (hrenders : RendersApart) :
    ∀ a b : ScVal, a.ValidTexts → b.ValidTexts → scvalToTypedJson a = scvalToTypedJson b →
      a.dropErrorCodes = b.dropErrorCodes
  -- The tags make the kinds the same; what is left of each kind is its payload.
  | .vec (some elements), b, ha, hb, h => by
      cases sameKind_of_json h with
      | vec _ other =>
          cases other with
          | none => simp [scvalToTypedJson, typedJson] at h
          | some others =>
              have hall := Json.arr.inj (typedJson_inj.mp h)
              have hsame := dropErrorCodesAll_eq_of_json hrenders elements others ha hb hall
              simp only [ScVal.dropErrorCodes, hsame]
  | .map (some entries), b, ha, hb, h => by
      cases sameKind_of_json h with
      | map _ other =>
          cases other with
          | none => simp [scvalToTypedJson, typedJson] at h
          | some others =>
              have hall := Json.arr.inj (typedJson_inj.mp h)
              have hsame := dropErrorCodesEntries_eq_of_json hrenders entries others ha hb hall
              simp only [ScVal.dropErrorCodes, hsame]
  | .contractInstance executable (some storage), b, ha, hb, h => by
      cases sameKind_of_json h with
      | contractInstance _ other _ others =>
          cases others with
          | none => simp [scvalToTypedJson, typedJson] at h
          | some others =>
              simp only [scvalToTypedJson, typedJson_inj, Json.obj.injEq, List.cons.injEq,
                Prod.mk.injEq, true_and, and_true, Json.arr.injEq] at h
              have hexecutable := contractExecutableJson_inj hrenders ha.1 hb.1 h.1
              have hsame := dropErrorCodesEntries_eq_of_json hrenders storage others ha.2 hb.2 h.2
              simp only [ScVal.dropErrorCodes, hexecutable, hsame]
  | .contractInstance executable none, b, ha, hb, h => by
      cases sameKind_of_json h with
      | contractInstance _ other _ others =>
          cases others with
          | some others => simp [scvalToTypedJson, typedJson] at h
          | none =>
              simp only [scvalToTypedJson, typedJson_inj, Json.obj.injEq, List.cons.injEq,
                Prod.mk.injEq, true_and, and_true] at h
              rw [contractExecutableJson_inj hrenders ha hb h]
  | .vec none, b, _, _, h => by
      cases sameKind_of_json h with
      | vec _ other =>
          cases other with
          | none => rfl
          | some others => simp [scvalToTypedJson, typedJson] at h
  | .map none, b, _, _, h => by
      cases sameKind_of_json h with
      | map _ other =>
          cases other with
          | none => rfl
          | some others => simp [scvalToTypedJson, typedJson] at h
  | .error kind code, b, _, _, h => by
      cases sameKind_of_json h with
      | error _ other =>
          -- The form has the kind's name and no code.
          have hname := Json.str.inj (typedJson_inj.mp h)
          simp only [ScVal.dropErrorCodes, ScErrorKind.name_injective hname]
  | .bool x, b, _, _, h => by
      cases sameKind_of_json h with
      | bool _ y => rw [Json.bool.inj (typedJson_inj.mp h)]
  | .void, b, _, _, h => by
      cases sameKind_of_json h
      rfl
  | .u32 x, b, _, _, h => by
      cases sameKind_of_json h with
      | u32 _ y =>
          have hvalue := Int.ofNat.inj (Json.num.inj (typedJson_inj.mp h))
          rw [UInt32.toNat_inj.mp hvalue]
  | .i32 x, b, _, _, h => by
      cases sameKind_of_json h with
      | i32 _ y => rw [Int32.toInt_inj.mp (Json.num.inj (typedJson_inj.mp h))]
  | .u64 x, b, _, _, h => by
      cases sameKind_of_json h with
      | u64 _ y =>
          have hvalue := Int.ofNat.inj (Json.num.inj (typedJson_inj.mp h))
          rw [UInt64.toNat_inj.mp hvalue]
  | .i64 x, b, _, _, h => by
      cases sameKind_of_json h with
      | i64 _ y => rw [Int64.toInt_inj.mp (Json.num.inj (typedJson_inj.mp h))]
  | .timepoint x, b, _, _, h => by
      cases sameKind_of_json h with
      | timepoint _ y =>
          have hvalue := Int.ofNat.inj (Json.num.inj (typedJson_inj.mp h))
          rw [UInt64.toNat_inj.mp hvalue]
  | .duration x, b, _, _, h => by
      cases sameKind_of_json h with
      | duration _ y =>
          have hvalue := Int.ofNat.inj (Json.num.inj (typedJson_inj.mp h))
          rw [UInt64.toNat_inj.mp hvalue]
  | .u128 hi lo, b, _, _, h => by
      cases sameKind_of_json h with
      | u128 =>
          have hvalue := toString_nat_inj (Json.str.inj (typedJson_inj.mp h))
          obtain ⟨rfl, rfl⟩ := u128OfParts_inj hvalue
          rfl
  | .i128 hi lo, b, _, _, h => by
      cases sameKind_of_json h with
      | i128 =>
          have hvalue := toString_int_inj (Json.str.inj (typedJson_inj.mp h))
          obtain ⟨rfl, rfl⟩ := i128OfParts_injective hvalue
          rfl
  | .u256 hiHi hiLo loHi loLo, b, _, _, h => by
      cases sameKind_of_json h with
      | u256 =>
          obtain ⟨rfl, rfl, rfl, rfl⟩ := hex16_inj (Json.str.inj (typedJson_inj.mp h))
          rfl
  | .i256 hiHi hiLo loHi loLo, b, _, _, h => by
      cases sameKind_of_json h with
      | i256 =>
          -- The highest limb is signed and printed as its bits.
          obtain ⟨hhi, rfl, rfl, rfl⟩ := hex16_inj (Json.str.inj (typedJson_inj.mp h))
          rw [← Int64.toInt64_toUInt64 hiHi, hhi, Int64.toInt64_toUInt64]
  | .bytes x, b, _, _, h => by
      cases sameKind_of_json h with
      | bytes _ y => rw [hrenders.base64 (Json.str.inj (typedJson_inj.mp h))]
  | .string x, b, ha, hb, h => by
      cases sameKind_of_json h with
      | string _ y => rw [utf8OrInvalid_inj ha hb (Json.str.inj (typedJson_inj.mp h))]
  | .symbol x, b, ha, hb, h => by
      cases sameKind_of_json h with
      | symbol _ y => rw [utf8OrInvalid_inj ha hb (Json.str.inj (typedJson_inj.mp h))]
  | .address x, b, _, _, h => by
      cases sameKind_of_json h with
      | address _ y => rw [hrenders.address (Json.str.inj (typedJson_inj.mp h))]
  | .ledgerKeyContractInstance, b, _, _, h => by
      cases sameKind_of_json h
      rfl
  | .ledgerKeyNonce x, b, _, _, h => by
      cases sameKind_of_json h with
      | ledgerKeyNonce _ y => rw [Int64.toInt_inj.mp (Json.num.inj (typedJson_inj.mp h))]
  | .executableTag x, b, ha, hb, h => by
      cases sameKind_of_json h with
      | executableTag _ y => rw [utf8OrInvalid_inj ha hb (Json.str.inj (typedJson_inj.mp h))]

theorem dropErrorCodesAll_eq_of_json (hrenders : RendersApart) :
    ∀ xs ys : List ScVal, ValidTextsAll xs → ValidTextsAll ys →
      scvalsToTypedJson xs = scvalsToTypedJson ys →
      dropErrorCodesAll xs = dropErrorCodesAll ys
  | [], ys, _, _, h => by
      cases ys with
      | nil => rfl
      | cons y ys => cases h
  | x :: xs, ys, hx, hy, h => by
      cases ys with
      | nil => cases h
      | cons y ys =>
          obtain ⟨hhead, htail⟩ := List.cons.inj h
          have hvalue := dropErrorCodes_eq_of_json hrenders x y hx.1 hy.1 hhead
          have hrest := dropErrorCodesAll_eq_of_json hrenders xs ys hx.2 hy.2 htail
          simp only [dropErrorCodesAll, hvalue, hrest]

theorem dropErrorCodesEntries_eq_of_json (hrenders : RendersApart) :
    ∀ xs ys : List (ScVal × ScVal), ValidTextsEntries xs → ValidTextsEntries ys →
      entriesToTypedJson xs = entriesToTypedJson ys →
      dropErrorCodesEntries xs = dropErrorCodesEntries ys
  | [], ys, _, _, h => by
      cases ys with
      | nil => rfl
      | cons y ys => cases h
  | (key, value) :: xs, ys, hx, hy, h => by
      cases ys with
      | nil => cases h
      | cons y ys =>
          obtain ⟨key', value'⟩ := y
          obtain ⟨hhead, htail⟩ := List.cons.inj h
          simp only [Json.obj.injEq, List.cons.injEq, Prod.mk.injEq, true_and, and_true] at hhead
          have hkey := dropErrorCodes_eq_of_json hrenders key key' hx.1 hy.1 hhead.1
          have hvalue := dropErrorCodes_eq_of_json hrenders value value' hx.2.1 hy.2.1 hhead.2
          have hrest := dropErrorCodesEntries_eq_of_json hrenders xs ys hx.2.2 hy.2.2 htail
          simp only [dropErrorCodesEntries, hkey, hvalue, hrest]

end

mutual

theorem scvalToTypedJson_dropErrorCodes :
    ∀ value : ScVal, scvalToTypedJson value.dropErrorCodes = scvalToTypedJson value
  | .vec (some elements) => by
      simp only [ScVal.dropErrorCodes, scvalToTypedJson, scvalsToTypedJson_dropErrorCodes elements]
  | .map (some entries) => by
      simp only [ScVal.dropErrorCodes, scvalToTypedJson, entriesToTypedJson_dropErrorCodes entries]
  | .contractInstance executable (some storage) => by
      simp only [ScVal.dropErrorCodes, scvalToTypedJson, entriesToTypedJson_dropErrorCodes storage]
  | .contractInstance executable none | .vec none | .map none | .error _ _ | .bool _ | .void
  | .u32 _ | .i32 _ | .u64 _ | .i64 _ | .timepoint _ | .duration _ | .u128 _ _ | .i128 _ _
  | .u256 _ _ _ _ | .i256 _ _ _ _ | .bytes _ | .string _ | .symbol _ | .address _
  | .ledgerKeyContractInstance | .ledgerKeyNonce _ | .executableTag _ => by
      simp only [ScVal.dropErrorCodes, scvalToTypedJson]

theorem scvalsToTypedJson_dropErrorCodes :
    ∀ values : List ScVal, scvalsToTypedJson (dropErrorCodesAll values) = scvalsToTypedJson values
  | [] => rfl
  | value :: rest => by
      simp only [dropErrorCodesAll, scvalsToTypedJson, scvalToTypedJson_dropErrorCodes value,
        scvalsToTypedJson_dropErrorCodes rest]

theorem entriesToTypedJson_dropErrorCodes :
    ∀ entries : List (ScVal × ScVal),
      entriesToTypedJson (dropErrorCodesEntries entries) = entriesToTypedJson entries
  | [] => rfl
  | (key, value) :: rest => by
      simp only [dropErrorCodesEntries, entriesToTypedJson, scvalToTypedJson_dropErrorCodes key,
        scvalToTypedJson_dropErrorCodes value, entriesToTypedJson_dropErrorCodes rest]

end

/-- Two values share a typed form exactly when they agree up to error codes. -/
theorem scvalToTypedJson_eq_iff (hrenders : RendersApart) {a b : ScVal} (ha : a.ValidTexts)
    (hb : b.ValidTexts) :
    scvalToTypedJson a = scvalToTypedJson b ↔ a.dropErrorCodes = b.dropErrorCodes := by
  constructor
  · exact dropErrorCodes_eq_of_json hrenders a b ha hb
  · intro h
    calc scvalToTypedJson a = scvalToTypedJson a.dropErrorCodes :=
          (scvalToTypedJson_dropErrorCodes a).symm
      _ = scvalToTypedJson b.dropErrorCodes := by rw [h]
      _ = scvalToTypedJson b := scvalToTypedJson_dropErrorCodes b

/-- The typed form tells two values apart exactly when they do not differ in error
codes alone. -/
theorem typedJson_faithful_iff (hrenders : RendersApart) (a b : ScVal) (ha : a.ValidTexts)
    (hb : b.ValidTexts) :
    (scvalToTypedJson a = scvalToTypedJson b → a = b) ↔
      (a.dropErrorCodes = b.dropErrorCodes → a = b) := by
  rw [scvalToTypedJson_eq_iff hrenders ha hb]

/-! ## Values that differ and do not -/

def ScAddress.letter : ScAddress → Char
  | .account _ => 'G'
  | .contract _ => 'C'
  | .muxedAccount _ _ => 'M'
  | .claimableBalance _ => 'B'
  | .liquidityPool _ => 'L'
  | .muxedContract _ _ => 'N'

def ScAddress.payload : ScAddress → Bytes
  | .account id | .contract id | .claimableBalance id | .liquidityPool id => Hash.bytes id
  | .muxedAccount id key | .muxedContract id key => limbBytes id ++ Hash.bytes key

/-- An address spelled by the letter of its kind and its bytes in hex. -/
def ScAddress.spelled (address : ScAddress) : String :=
  String.ofList (address.letter :: (hexEncode address.payload).toList)

/-- Renderings that tell addresses and byte strings apart. -/
@[reducible] def Crates.spelled : Crates :=
  { Crates.pinned with
    scAddressStrkey := ScAddress.spelled
    base64Encode := hexEncode
    base64Decode := hexDecode }

omit [Crates] in
theorem hexEncode_inj {bytes bytes' : Bytes} (h : hexEncode bytes = hexEncode bytes') :
    bytes = bytes' := by
  have hdecoded := congrArg hexDecode h
  rwa [hexDecode_hexEncode, hexDecode_hexEncode, Option.some.injEq] at hdecoded

omit [Crates] in
theorem ScAddress.spelled_injective : Function.Injective ScAddress.spelled := by
  intro address other h
  obtain ⟨hletter, hhex⟩ := List.cons.inj (String.ofList_injective h)
  have hpayload := hexEncode_inj (String.toList_inj.mp hhex)
  have hmuxed : ∀ {id id' : UInt64} {key key' : Hash},
      limbBytes id ++ Hash.bytes key = limbBytes id' ++ Hash.bytes key' → id = id' ∧ key = key' := by
    intro id id' key key' h
    obtain ⟨hid, hkey⟩ := List.append_inj h (by simp [limbBytes])
    exact ⟨limbBytes_injective hid, Hash.bytes_injective hkey⟩
  -- six kinds are left, each with one letter
  cases address <;> cases other <;> simp [ScAddress.letter] at hletter <;>
    simp only [ScAddress.payload] at hpayload
  · rw [Hash.bytes_injective hpayload]
  · rw [Hash.bytes_injective hpayload]
  · obtain ⟨rfl, rfl⟩ := hmuxed hpayload
    rfl
  · rw [Hash.bytes_injective hpayload]
  · rw [Hash.bytes_injective hpayload]
  · obtain ⟨rfl, rfl⟩ := hmuxed hpayload
    rfl

omit [Crates] in
theorem rendersApart_spelled : @RendersApart Crates.spelled :=
  @RendersApart.mk Crates.spelled ScAddress.spelled_injective fun _ _ => hexEncode_inj

omit [Crates] in
/-- Two events that fail with different codes. -/
theorem typedJson_errors :
    let _ : Crates := Crates.spelled
    ¬ ∀ a b : ScVal, a.ValidTexts → b.ValidTexts → scvalToTypedJson a = scvalToTypedJson b →
      a = b := by
  intro _ hfaithful
  have h := hfaithful (.error .contract 1) (.error .contract 2) trivial trivial rfl
  cases h

omit [Crates] in
/-- Two maps of one text and one error each. -/
theorem typedJson_faithful_maps :
    let _ : Crates := Crates.spelled
    let text (bytes : Bytes) : ScVal := .map (some [(.symbol bytes, .error .auth 7)])
    scvalToTypedJson (text [0x61]) = scvalToTypedJson (text [0x62]) → text [0x61] = text [0x62] := by
  intro _ text
  have hvalid : ∀ bytes, ValidText bytes → (text bytes).ValidTexts :=
    fun bytes hbytes => ⟨hbytes, trivial, trivial⟩
  refine (typedJson_faithful_iff rendersApart_spelled _ _ (hvalid _ (by decide))
    (hvalid _ (by decide))).mpr fun h => ?_
  simp [text, ScVal.dropErrorCodes, dropErrorCodesEntries] at h

end SorobanExplorer
