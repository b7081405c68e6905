import SorobanExplorer.Parser.LedgerValue
import SorobanExplorer.Parser.TokenBalances

/-!
# The two readers of contract balances

Holder balances are read from the tagged changes, token movements from the
ledger entries themselves.  The first reader takes persistent entries and an
exact struct; the second looks at neither the durability nor the other fields.
`readersAgree_iff` says when they read one entry alike.
-/

namespace SorobanExplorer

open Text

/-! ## Symbols in tagged form -/

/-- A symbol is tagged with an ASCII text only if its bytes are the text's own. -/
theorem utf8OrInvalid_eq_iff {bytes : Bytes} {text : String}
    (hall : text.toList.all (·.toNat < 128)) (hvalid : text ≠ "<invalid-utf8>")
    (hown : fromUtf8 (asBytes text) = some text) :
    utf8OrInvalid bytes = text ↔ bytes = asBytes text := by
  have hascii : ∀ c ∈ text.toList, c.toNat < 128 :=
    fun c hc => of_decide_eq_true (List.all_eq_true.mp hall c hc)
  constructor
  · intro h
    cases hread : fromUtf8 bytes with
    | none =>
        rw [utf8OrInvalid, hread] at h
        exact absurd h.symm hvalid
    | some read =>
        rw [utf8OrInvalid, hread] at h
        obtain rfl : read = text := h
        rw [eq_of_fromUtf8_ascii hascii hread, eq_of_fromUtf8_ascii hascii hown]
  · rintro rfl
    rw [utf8OrInvalid, hown]
    rfl

theorem utf8OrInvalid_balance {bytes : Bytes} :
    utf8OrInvalid bytes = "Balance" ↔ bytes = asBytes "Balance" :=
  utf8OrInvalid_eq_iff (by decide) (by decide) (by decide)

/-- The fields of the struct an asset contract keeps. -/
def sacFieldNames : List String := ["amount", "authorized", "clawback"]

theorem utf8OrInvalid_sacField {bytes : Bytes} {name : String} (hname : name ∈ sacFieldNames) :
    utf8OrInvalid bytes = name ↔ bytes = asBytes name := by
  have hall : ∀ name ∈ sacFieldNames, name.toList.all (·.toNat < 128) ∧
      name ≠ "<invalid-utf8>" ∧ fromUtf8 (asBytes name) = some name := by decide
  obtain ⟨hascii, hvalid, hown⟩ := hall name hname
  exact utf8OrInvalid_eq_iff hascii hvalid hown

/-! ## Integers -/

theorem i128OfParts_bounds (hi : Int64) (lo : UInt64) :
    -2 ^ 127 ≤ i128OfParts hi lo ∧ i128OfParts hi lo ≤ 2 ^ 127 - 1 := by
  have hlow := hi.le_toInt
  have hhigh := hi.toInt_lt
  have hlo := lo.toNat_lt
  unfold i128OfParts
  omega

theorem parseI128_toString (hi : Int64) (lo : UInt64) :
    parseI128 (toString (i128OfParts hi lo)).toList = .ok (i128OfParts hi lo) :=
  parseInt_toString (i128OfParts_bounds hi lo).1 (i128OfParts_bounds hi lo).2 (by omega) (by omega)

theorem i128OfParts_injective {hi hi' : Int64} {lo lo' : UInt64}
    (h : i128OfParts hi lo = i128OfParts hi' lo') : hi = hi' ∧ lo = lo' := by
  have hlo := lo.toNat_lt
  have hlo' := lo'.toNat_lt
  unfold i128OfParts at h
  rw [← Int64.toInt_inj, ← UInt64.toNat_inj]
  omega

/-- The integer a value is. -/
def ScVal.i128? : ScVal → Option ℤ
  | .i128 hi lo => some (i128OfParts hi lo)
  | _ => none

def ScVal.bool? : ScVal → Option Bool
  | .bool value => some value
  | _ => none

theorem bool?_eq_some {value : ScVal} {flag : Bool} :
    value.bool? = some flag ↔ value = .bool flag := by
  cases value <;> simp [ScVal.bool?]

theorem i128?_eq_some {value : ScVal} {amount : ℤ} :
    value.i128? = some amount ↔ ∃ hi lo, value = .i128 hi lo ∧ i128OfParts hi lo = amount := by
  cases value <;> simp [ScVal.i128?]

/-! ## Keys -/

/-- A key `[Balance, holder]`. -/
def BalanceKeyed (key : ScVal) : Prop :=
  ∃ holder, key = .vec (some [.symbol (asBytes "Balance"), .address holder])

/-- The type name a value is tagged with. -/
def ScVal.tag : ScVal → String
  | .bool _ => "bool"
  | .void => "void"
  | .error _ _ => "error"
  | .u32 _ => "u32"
  | .i32 _ => "i32"
  | .u64 _ => "u64"
  | .i64 _ => "i64"
  | .timepoint _ => "timepoint"
  | .duration _ => "duration"
  | .u128 _ _ => "u128"
  | .i128 _ _ => "i128"
  | .u256 _ _ _ _ => "u256"
  | .i256 _ _ _ _ => "i256"
  | .bytes _ => "bytes"
  | .string _ => "string"
  | .symbol _ => "sym"
  | .vec _ => "vec"
  | .map _ => "map"
  | .address _ => "address"
  | .contractInstance _ _ => "contract_instance"
  | .ledgerKeyContractInstance => "ledger_key_contract_instance"
  | .ledgerKeyNonce _ => "ledger_key_nonce"
  | .executableTag _ => "executable_tag"

/-- The fields of a struct after one more entry of it. -/
def SacBalanceFields.read (fields : SacBalanceFields) : ScVal × ScVal → Option SacBalanceFields
  | (.symbol key, value) =>
      if key = asBytes "amount" then
        value.i128?.map fun amount => { fields with amount := some amount }
      else if key = asBytes "authorized" then some { fields with authorized := value.bool? }
      else if key = asBytes "clawback" then some { fields with clawback := value.bool? }
      else none
  | _ => none

/-! ## Structs -/

/-- The values under one name, in order. -/
def fieldsNamed (name : String) (entries : List (ScVal × ScVal)) : List ScVal :=
  entries.filterMap fun
    | (.symbol key, value) => if key = asBytes name then some value else none
    | _ => none

theorem fieldsNamed_cons (name : String) (entry : ScVal × ScVal)
    (entries : List (ScVal × ScVal)) :
    fieldsNamed name (entry :: entries) =
      fieldsNamed name [entry] ++ fieldsNamed name entries := by
  rw [fieldsNamed, fieldsNamed, fieldsNamed, ← List.filterMap_append, List.singleton_append]

/-- Every entry is a field of the struct, and every amount an integer. -/
structure SacBalanceEntries (entries : List (ScVal × ScVal)) : Prop where
  known : ∀ entry ∈ entries, ∃ name ∈ sacFieldNames, entry.1 = .symbol (asBytes name)
  amounts : ∀ value ∈ fieldsNamed "amount" entries, ∃ hi lo, value = .i128 hi lo

theorem sacBalanceEntries_cons {entry : ScVal × ScVal} {entries : List (ScVal × ScVal)} :
    SacBalanceEntries (entry :: entries) ↔
      SacBalanceEntries [entry] ∧ SacBalanceEntries entries := by
  have hamounts : ∀ value, value ∈ fieldsNamed "amount" (entry :: entries) ↔
      value ∈ fieldsNamed "amount" [entry] ∨ value ∈ fieldsNamed "amount" entries := by
    intro value
    rw [fieldsNamed_cons, List.mem_append]
  constructor
  · intro h
    exact ⟨⟨fun e he => h.known e (by simp at he; simp [he]),
        fun v hv => h.amounts v ((hamounts v).mpr (.inl hv))⟩,
      ⟨fun e he => h.known e (List.mem_cons_of_mem _ he),
        fun v hv => h.amounts v ((hamounts v).mpr (.inr hv))⟩⟩
  · intro h
    refine ⟨fun e he => ?_, fun v hv => ?_⟩
    · rcases List.mem_cons.mp he with rfl | he
      · exact h.1.known e List.mem_cons_self
      · exact h.2.known e he
    · exact ((hamounts v).mp hv).elim (h.1.amounts v) (h.2.amounts v)

/-- The fields after all entries of a struct: each name's last value. -/
def SacBalanceFields.readAll (fields : SacBalanceFields) (entries : List (ScVal × ScVal)) :
    SacBalanceFields where
  amount := (fieldsNamed "amount" entries).getLast?.elim fields.amount ScVal.i128?
  authorized := (fieldsNamed "authorized" entries).getLast?.elim fields.authorized ScVal.bool?
  clawback := (fieldsNamed "clawback" entries).getLast?.elim fields.clawback ScVal.bool?

theorem readAll_cons (fields : SacBalanceFields) (entry : ScVal × ScVal)
    (entries : List (ScVal × ScVal)) :
    fields.readAll (entry :: entries) = (fields.readAll [entry]).readAll entries := by
  have helim : ∀ {α : Type} (name : String) (held : Option α) (read : ScVal → Option α),
      (fieldsNamed name (entry :: entries)).getLast?.elim held read =
        (fieldsNamed name entries).getLast?.elim
          ((fieldsNamed name [entry]).getLast?.elim held read) read := by
    intro α name held read
    rw [fieldsNamed_cons, List.getLast?_append]
    cases (fieldsNamed name entries).getLast? <;> rfl
  simp only [SacBalanceFields.readAll, helim]

theorem sacFieldNames_bytes : asBytes "amount" ≠ asBytes "authorized" ∧
    asBytes "amount" ≠ asBytes "clawback" ∧ asBytes "authorized" ≠ asBytes "clawback" := by
  decide

theorem sacBalanceEntries_singleton {bytes : Bytes} {value : ScVal} :
    SacBalanceEntries [(.symbol bytes, value)] ↔
      (bytes = asBytes "amount" ∧ ∃ hi lo, value = .i128 hi lo) ∨
        bytes = asBytes "authorized" ∨ bytes = asBytes "clawback" := by
  obtain ⟨hauthorized, hclawback, -⟩ := sacFieldNames_bytes
  constructor
  · intro h
    obtain ⟨name, hname, hbytes⟩ := h.known _ List.mem_cons_self
    obtain rfl : bytes = asBytes name := ScVal.symbol.inj hbytes
    simp only [sacFieldNames, List.mem_cons, List.not_mem_nil, or_false] at hname
    rcases hname with rfl | rfl | rfl
    · exact .inl ⟨rfl, h.amounts value (by simp [fieldsNamed])⟩
    · exact .inr (.inl rfl)
    · exact .inr (.inr rfl)
  · rintro (⟨rfl, hi, lo, rfl⟩ | rfl | rfl)
    · exact ⟨by simp [sacFieldNames], by simp [fieldsNamed]⟩
    · exact ⟨by simp [sacFieldNames], by simp [fieldsNamed, Ne.symm hauthorized]⟩
    · exact ⟨by simp [sacFieldNames], by simp [fieldsNamed, Ne.symm hclawback]⟩

/-- One entry is read exactly when it is a field of the struct. -/
theorem read_eq_some {fields fields' : SacBalanceFields} {entry : ScVal × ScVal} :
    fields.read entry = some fields' ↔
      SacBalanceEntries [entry] ∧ fields' = fields.readAll [entry] := by
  obtain ⟨key, value⟩ := entry
  by_cases htag : key.tag = "sym"
  · obtain ⟨bytes, rfl⟩ : ∃ bytes, key = .symbol bytes := by
      cases key <;> simp [ScVal.tag] at htag ⊢
    obtain ⟨hauthorized, hclawback, hflags⟩ := sacFieldNames_bytes
    rw [sacBalanceEntries_singleton]
    by_cases hamount : bytes = asBytes "amount"
    · subst hamount
      cases value with
      | i128 hi lo =>
          simp [SacBalanceFields.read, SacBalanceFields.readAll, fieldsNamed, ScVal.i128?,
            hauthorized, hclawback, eq_comm]
      | _ => simp [SacBalanceFields.read, ScVal.i128?, hauthorized, hclawback]
    · by_cases hauth : bytes = asBytes "authorized"
      · subst hauth
        simp [SacBalanceFields.read, SacBalanceFields.readAll, fieldsNamed, hamount, hflags,
          eq_comm]
      · by_cases hclaw : bytes = asBytes "clawback"
        · subst hclaw
          simp [SacBalanceFields.read, SacBalanceFields.readAll, fieldsNamed, hamount, hauth,
            eq_comm]
        · simp [SacBalanceFields.read, hamount, hauth, hclaw]
  · -- a key that is no symbol is no field
    have hnone : fields.read (key, value) = none := by
      cases key <;> first | rfl | exact absurd rfl htag
    rw [hnone]
    refine iff_of_false nofun ?_
    rintro ⟨hentries, -⟩
    obtain ⟨name, -, hkey⟩ := hentries.known _ List.mem_cons_self
    obtain rfl : key = .symbol (asBytes name) := hkey
    exact htag rfl

theorem foldlM_read {entries : List (ScVal × ScVal)} {fields fields' : SacBalanceFields} :
    entries.foldlM SacBalanceFields.read fields = some fields' ↔
      SacBalanceEntries entries ∧ fields' = fields.readAll entries := by
  induction entries generalizing fields with
  | nil =>
      have hnil : SacBalanceEntries [] := ⟨by simp, by simp [fieldsNamed]⟩
      simp [hnil, SacBalanceFields.readAll, fieldsNamed, eq_comm]
  | cons entry entries ih =>
      rw [List.foldlM_cons, sacBalanceEntries_cons, readAll_cons]
      constructor
      · intro h
        obtain ⟨next, hnext, hrest⟩ := Option.bind_eq_some_iff.mp h
        obtain ⟨hentry, rfl⟩ := read_eq_some.mp hnext
        obtain ⟨hentries, heq⟩ := ih.mp hrest
        exact ⟨⟨hentry, hentries⟩, heq⟩
      · rintro ⟨⟨hentry, hentries⟩, heq⟩
        exact Option.bind_eq_some_iff.mpr
          ⟨_, read_eq_some.mpr ⟨hentry, rfl⟩, ih.mpr ⟨hentries, heq⟩⟩

/-- The struct an asset contract keeps: its three fields, the flags last set to
booleans. -/
structure IsSacBalance (entries : List (ScVal × ScVal)) : Prop where
  fields : SacBalanceEntries entries
  amount : fieldsNamed "amount" entries ≠ []
  authorized : ∃ flag, (fieldsNamed "authorized" entries).getLast? = some (.bool flag)
  clawback : ∃ flag, (fieldsNamed "clawback" entries).getLast? = some (.bool flag)

/-! ## Amounts -/

/-- A value an amount is read from without a look at the rest of it. -/
def HoldsAmount : ScVal → Prop
  | .i128 _ _ => True
  | .map (some entries) => ∃ hi lo, .i128 hi lo ∈ fieldsNamed "amount" entries
  | _ => False

/-- A balance value in one of its two shapes, its amount given once. -/
def IsBalanceValue : ScVal → Prop
  | .i128 _ _ => True
  | .map (some entries) => IsSacBalance entries ∧
      (fieldsNamed "amount" entries).head? = (fieldsNamed "amount" entries).getLast?
  | _ => False

/-- The amount read from an entry itself. -/
def ledgerAmount (value : ScVal) : Option ℤ :=
  (sacBalanceStructAmount value).or value.i128?

theorem sacBalanceStructAmount_map (entries : List (ScVal × ScVal)) :
    sacBalanceStructAmount (.map (some entries)) =
      (fieldsNamed "amount" entries).findSome? ScVal.i128? := by
  unfold fieldsNamed
  rw [← List.head?_filterMap, List.filterMap_filterMap, List.head?_filterMap]
  show List.findSome? _ entries = _
  congr 1
  funext entry
  obtain ⟨key, value⟩ := entry
  cases key with
  | symbol bytes =>
      by_cases hbytes : bytes = asBytes "amount"
      · cases value <;> simp [hbytes, ScVal.i128?]
      · cases value <;> simp [hbytes]
  | _ => rfl

theorem isSome_ledgerAmount {value : ScVal} : (ledgerAmount value).isSome ↔ HoldsAmount value := by
  cases value with
  | map entries =>
      cases entries with
      | none => simp [ledgerAmount, sacBalanceStructAmount, ScVal.i128?, HoldsAmount]
      | some entries =>
          rw [ledgerAmount, sacBalanceStructAmount_map]
          simp only [ScVal.i128?, Option.or_none, List.findSome?_isSome_iff, HoldsAmount]
          constructor
          · rintro ⟨value, hmem, hvalue⟩
            obtain ⟨amount, hamount⟩ := Option.isSome_iff_exists.mp hvalue
            obtain ⟨hi, lo, rfl, -⟩ := i128?_eq_some.mp hamount
            exact ⟨hi, lo, hmem⟩
          · rintro ⟨hi, lo, hmem⟩
            exact ⟨_, hmem, rfl⟩
  | _ => simp [ledgerAmount, sacBalanceStructAmount, ScVal.i128?, HoldsAmount]

/-! ## Tagged keys and values -/

theorem isSome_balanceKeyHolder [Crates] {key : ScVal} :
    (balanceKeyHolder key).isSome ↔ BalanceKeyed key := by
  constructor
  · intro h
    unfold balanceKeyHolder at h
    split at h
    · split at h
      · rename_i htag
        subst htag
        exact ⟨_, rfl⟩
      · cases h
    · cases h
  · rintro ⟨holder, rfl⟩
    simp [balanceKeyHolder]

section

variable [Crates]

@[simp] theorem get?_type_scvalToTypedJson (value : ScVal) :
    (scvalToTypedJson value).get? "type" = some (.str value.tag) := by
  cases value with
  | vec elements => cases elements <;> simp [scvalToTypedJson, typedJson, ScVal.tag]
  | map entries => cases entries <;> simp [scvalToTypedJson, typedJson, ScVal.tag]
  | contractInstance executable storage =>
      cases storage <;> simp [scvalToTypedJson, typedJson, ScVal.tag]
  | _ => simp [scvalToTypedJson, typedJson, ScVal.tag]

theorem balanceKeyHolder_ne {tag holder : ScVal} (h : tag.tag ≠ "sym" ∨ holder.tag ≠ "address") :
    balanceKeyHolder (.vec (some [tag, holder])) = none := by
  unfold balanceKeyHolder
  split
  · rename_i heq
    simp only [ScVal.vec.injEq, Option.some.injEq, List.cons.injEq] at heq
    obtain ⟨rfl, rfl, -⟩ := heq
    exact absurd h (by simp [ScVal.tag])
  · rfl

/-- A key's two elements are read alike. -/
theorem balanceKeyHolder_pair (contract : ScAddress) (tag holder : ScVal) :
    State.balanceKeyHolder (contractDataKey contract (.vec (some [tag, holder])) .persistent) =
      balanceKeyHolder (.vec (some [tag, holder])) := by
  have hkey : scvalToTypedJson (.vec (some [tag, holder])) =
      typedJson "vec" (.arr [scvalToTypedJson tag, scvalToTypedJson holder]) := by
    simp [scvalToTypedJson, scvalsToTypedJson]
  by_cases htags : tag.tag = "sym" ∧ holder.tag = "address"
  · obtain ⟨bytes, rfl⟩ : ∃ bytes, tag = .symbol bytes := by
      cases tag <;> simp [ScVal.tag] at htags ⊢
    obtain ⟨address, rfl⟩ : ∃ address, holder = .address address := by
      cases holder <;> simp [ScVal.tag] at htags ⊢
    by_cases hbytes : bytes = asBytes "Balance" <;>
      simp [State.balanceKeyHolder, contractDataKey, formatDurability, scvalToTypedJson,
        scvalsToTypedJson, typedJson, balanceKeyHolder, utf8OrInvalid_balance, hbytes]
  · rw [balanceKeyHolder_ne (not_and_or.mp htags)]
    simp [State.balanceKeyHolder, contractDataKey, formatDurability, hkey, typedJson]
    tauto

/-- Both readers find the same holder in a persistent entry's key. -/
theorem balanceKeyHolder_contractDataKey (contract : ScAddress) (key : ScVal) :
    State.balanceKeyHolder (contractDataKey contract key .persistent) = balanceKeyHolder key := by
  cases key with
  | vec elements =>
      match elements with
      | some [tag, holder] => exact balanceKeyHolder_pair contract tag holder
      | none | some [] | some [_] | some (_ :: _ :: _ :: _) =>
          simp [State.balanceKeyHolder, contractDataKey, formatDurability, scvalToTypedJson,
            scvalsToTypedJson, typedJson, balanceKeyHolder, Json.asArray]
  | _ =>
      -- no other kind of key is tagged as a vector
      simp [State.balanceKeyHolder, contractDataKey, formatDurability, balanceKeyHolder, ScVal.tag]

theorem balanceKeyHolder_temporary (contract : ScAddress) (key : ScVal) :
    State.balanceKeyHolder (contractDataKey contract key .temporary) = none := by
  simp [State.balanceKeyHolder, contractDataKey, formatDurability]

/-! ## Values -/

/-- An integer is read from a tagged value that is one. -/
theorem readI128_scvalToTypedJson (value : ScVal) :
    (do
      guard ((← (← (scvalToTypedJson value).get? "type").asStr) = "i128")
      (parseI128 (← (← (scvalToTypedJson value).get? "value").asStr).toList).toOption) =
      value.i128? := by
  by_cases htag : value.tag = "i128"
  · obtain ⟨hi, lo, rfl⟩ : ∃ hi lo, value = .i128 hi lo := by
      cases value <;> simp [ScVal.tag] at htag ⊢
    have hread := parseI128_toString hi lo
    simp [scvalToTypedJson, typedJson, ScVal.i128?] at hread ⊢
    simp [hread, Except.toOption]
  · have hnone : value.i128? = none := by
      cases value <;> first | rfl | exact absurd rfl htag
    simp [htag, hnone]

theorem exists_value_scvalToTypedJson (value : ScVal) :
    ∃ field, (scvalToTypedJson value).get? "value" = some field := by
  cases value with
  | vec elements => cases elements <;> simp [scvalToTypedJson, typedJson]
  | map entries => cases entries <;> simp [scvalToTypedJson, typedJson]
  | contractInstance executable storage =>
      cases storage <;> simp [scvalToTypedJson, typedJson]
  | _ => simp [scvalToTypedJson, typedJson]

theorem readBool_scvalToTypedJson (value : ScVal) :
    ((scvalToTypedJson value).get? "value").bind Json.asBool = value.bool? := by
  cases value with
  | vec elements => cases elements <;> simp [scvalToTypedJson, typedJson, ScVal.bool?, Json.asBool]
  | map entries => cases entries <;> simp [scvalToTypedJson, typedJson, ScVal.bool?, Json.asBool]
  | contractInstance executable storage =>
      cases storage <;> simp [scvalToTypedJson, typedJson, ScVal.bool?, Json.asBool]
  | _ => simp [scvalToTypedJson, typedJson, ScVal.bool?, Json.asBool]

theorem decodeScvalI128_contractDataData (entry : ContractDataEntry) :
    decodeScvalI128 (contractDataData entry) = entry.val.i128? := by
  rw [← readI128_scvalToTypedJson entry.val]
  simp [decodeScvalI128, contractDataData]

theorem decodeSacBalanceField_tagged (fields : SacBalanceFields) (entry : ScVal × ScVal) :
    decodeSacBalanceField fields
        (.obj [("key", scvalToTypedJson entry.1), ("value", scvalToTypedJson entry.2)]) =
      fields.read entry := by
  obtain ⟨key, value⟩ := entry
  by_cases htag : key.tag = "sym"
  · obtain ⟨bytes, rfl⟩ : ∃ bytes, key = .symbol bytes := by
      cases key <;> simp [ScVal.tag] at htag ⊢
    have hint := readI128_scvalToTypedJson value
    have hflag := readBool_scvalToTypedJson value
    -- a name in ASCII is read alike as bytes and as text
    have hamount : bytes = asBytes "amount" ↔ utf8OrInvalid bytes = "amount" :=
      (utf8OrInvalid_sacField (by decide)).symm
    have hauthorized : bytes = asBytes "authorized" ↔ utf8OrInvalid bytes = "authorized" :=
      (utf8OrInvalid_sacField (by decide)).symm
    have hclawback : bytes = asBytes "clawback" ↔ utf8OrInvalid bytes = "clawback" :=
      (utf8OrInvalid_sacField (by decide)).symm
    have hkey : scvalToTypedJson (.symbol bytes) = typedJson "sym" (.str (utf8OrInvalid bytes)) :=
      by simp [scvalToTypedJson]
    obtain ⟨field, hfield⟩ := exists_value_scvalToTypedJson value
    rw [hfield] at hint hflag
    simp only [decodeSacBalanceField, SacBalanceFields.read, hkey, ← hint, ← hflag]
    simp only [hamount, hauthorized, hclawback]
    simp [typedJson, hfield]
    split
    · simp only [Option.map_eq_bind]
      rfl
    · rfl
  · have hnone : fields.read (key, value) = none := by
      cases key <;> first | rfl | exact absurd rfl htag
    simp [decodeSacBalanceField, htag, hnone]

theorem foldlM_decodeSacBalanceField (entries : List (ScVal × ScVal)) (fields : SacBalanceFields) :
    (entriesToTypedJson entries).foldlM decodeSacBalanceField fields =
      entries.foldlM SacBalanceFields.read fields := by
  induction entries generalizing fields with
  | nil => rfl
  | cons entry entries ih =>
      obtain ⟨key, value⟩ := entry
      simp only [entriesToTypedJson, List.foldlM_cons]
      rw [decodeSacBalanceField_tagged fields (key, value)]
      exact congrArg _ (funext ih)

/-- The amount of the struct is its last one. -/
theorem decodeSacBalanceValue_map {entry : ContractDataEntry} {entries : List (ScVal × ScVal)}
    (hval : entry.val = .map (some entries)) {amount : ℤ} :
    (decodeSacBalanceValue (contractDataData entry)).map (·.amount) = some amount ↔
      IsSacBalance entries ∧
        (fieldsNamed "amount" entries).getLast?.bind ScVal.i128? = some amount := by
  -- without what the reader does with the flags
  have hdecode : (decodeSacBalanceValue (contractDataData entry)).map (·.amount) =
      (entries.foldlM SacBalanceFields.read ⟨none, none, none⟩).bind fun fields =>
        fields.amount.bind fun amount => fields.authorized.bind fun _ =>
          fields.clawback.bind fun _ => some amount := by
    simp only [decodeSacBalanceValue, contractDataData, hval]
    simp [scvalToTypedJson, typedJson, foldlM_decodeSacBalanceField, Option.map_bind]
  have hlast : ∀ {α : Type} (name : String) (read : ScVal → Option α),
      (fieldsNamed name entries).getLast?.elim none read =
        (fieldsNamed name entries).getLast?.bind read := by
    intro α name read
    cases (fieldsNamed name entries).getLast? <;> rfl
  rw [hdecode]
  constructor
  · intro h
    obtain ⟨fields, hfields, h⟩ := Option.bind_eq_some_iff.mp h
    obtain ⟨hentries, rfl⟩ := foldlM_read.mp hfields
    simp only [SacBalanceFields.readAll, hlast] at h
    obtain ⟨last, hamount, h⟩ := Option.bind_eq_some_iff.mp h
    obtain ⟨authorized, hauthorized, h⟩ := Option.bind_eq_some_iff.mp h
    obtain ⟨clawback, hclawback, h⟩ := Option.bind_eq_some_iff.mp h
    obtain rfl : last = amount := Option.some.inj h
    obtain ⟨_, hvalue, hflag⟩ := Option.bind_eq_some_iff.mp hauthorized
    obtain ⟨_, hvalue', hflag'⟩ := Option.bind_eq_some_iff.mp hclawback
    -- both flags are there, and what they say plays no part
    obtain rfl := bool?_eq_some.mp hflag
    obtain rfl := bool?_eq_some.mp hflag'
    refine ⟨⟨hentries, ?_, ⟨authorized, hvalue⟩, ⟨clawback, hvalue'⟩⟩, hamount⟩
    intro hnil
    rw [hnil] at hamount
    cases hamount
  · rintro ⟨⟨hentries, -, ⟨authorized, hauthorized⟩, ⟨clawback, hclawback⟩⟩, hamount⟩
    rw [foldlM_read.mpr ⟨hentries, rfl⟩]
    simp only [SacBalanceFields.readAll, hlast, Option.bind_some, hamount, hauthorized, hclawback]
    rfl

theorem decodeSacBalanceValue_other {entry : ContractDataEntry}
    (h : ∀ entries, entry.val ≠ .map (some entries)) :
    decodeSacBalanceValue (contractDataData entry) = none := by
  unfold decodeSacBalanceValue contractDataData
  by_cases htag : entry.val.tag = "map"
  · obtain ⟨entries, hval⟩ : ∃ entries, entry.val = .map entries := by
      cases hval : entry.val <;> simp [ScVal.tag, hval] at htag ⊢
    cases entries with
    | none => simp [hval, scvalToTypedJson, typedJson, Json.asArray]
    | some entries => exact absurd hval (h entries)
  · simp [htag]

/-! ## Agreement -/

/-- A balance as either reader reports it. -/
structure HeldBalance where
  holder : String
  contract : String
  amount : ℤ
  deriving DecidableEq

def ExtractedSorobanBalance.held (balance : ExtractedSorobanBalance) : HeldBalance :=
  ⟨balance.holder, balance.contractId, balance.balance⟩

/-- The contract whose entry a balance is read from. -/
def LedgerAsset.contract : LedgerAsset → String
  | .sacWrapped contract | .bespoke contract => contract
  | .native | .credit _ _ => ""

def ledgerHeld (balance : BalanceKey × ℤ) : HeldBalance :=
  ⟨balance.1.account, balance.1.asset.contract, balance.2⟩

/-- The amount read from a tagged entry. -/
def taggedAmount (entry : ContractDataEntry) : Option ℤ :=
  (decodeScvalI128 (contractDataData entry)).or
    ((decodeSacBalanceValue (contractDataData entry)).map (·.amount))

theorem contractDataBalance_held (entry : ContractDataEntry) :
    (contractDataBalance entry).map ledgerHeld = (balanceKeyHolder entry.key).bind fun holder =>
      (ledgerAmount entry.val).map fun amount =>
        ⟨holder, Crates.scAddressStrkey entry.contract, amount⟩ := by
  unfold contractDataBalance ledgerAmount
  cases balanceKeyHolder entry.key with
  | none => rfl
  | some holder =>
      cases hamount : sacBalanceStructAmount entry.val with
      | some amount => rfl
      | none => cases entry.val <;> rfl

/-- A proper struct with one amount is read alike, any other map that holds an
amount is not. -/
theorem taggedAmount_map {entry : ContractDataEntry} {entries : List (ScVal × ScVal)}
    (hval : entry.val = .map (some entries)) {amount : ℤ}
    (hledger : (fieldsNamed "amount" entries).findSome? ScVal.i128? = some amount) :
    (decodeSacBalanceValue (contractDataData entry)).map (·.amount) = some amount ↔
      IsSacBalance entries ∧
        (fieldsNamed "amount" entries).head? = (fieldsNamed "amount" entries).getLast? := by
  rw [decodeSacBalanceValue_map hval]
  refine and_congr_right fun hstruct => ?_
  obtain ⟨first, rest, hcons⟩ := List.exists_cons_of_ne_nil hstruct.amount
  have hints := hstruct.fields.amounts
  obtain ⟨hi, lo, rfl⟩ := hints first (by rw [hcons]; exact List.mem_cons_self)
  have hfirst : i128OfParts hi lo = amount := by
    rw [hcons] at hledger
    exact Option.some.inj hledger
  have hlast : ∃ hi' lo', (fieldsNamed "amount" entries).getLast? = some (.i128 hi' lo') := by
    cases hlast : (fieldsNamed "amount" entries).getLast? with
    | none => exact absurd (List.getLast?_eq_none_iff.mp hlast) hstruct.amount
    | some last =>
        obtain ⟨hi', lo', rfl⟩ := hints last (List.mem_of_getLast? hlast)
        exact ⟨hi', lo', rfl⟩
  obtain ⟨hi', lo', hlast⟩ := hlast
  rw [hlast, hcons, ← hfirst]
  constructor
  · intro h
    obtain ⟨rfl, rfl⟩ := i128OfParts_injective (Option.some.inj h)
    rfl
  · intro h
    obtain ⟨rfl, rfl⟩ := ScVal.i128.inj (Option.some.inj h)
    rfl

theorem amounts_agree_iff (entry : ContractDataEntry) :
    taggedAmount entry = ledgerAmount entry.val ↔
      (HoldsAmount entry.val → IsBalanceValue entry.val) := by
  unfold taggedAmount
  rw [decodeScvalI128_contractDataData]
  by_cases hmap : ∃ entries, entry.val = .map (some entries)
  · obtain ⟨entries, hval⟩ := hmap
    have hledger : ledgerAmount entry.val =
        (fieldsNamed "amount" entries).findSome? ScVal.i128? := by
      rw [hval, ledgerAmount, sacBalanceStructAmount_map]
      simp [ScVal.i128?]
    have hbare : entry.val.i128? = none := by
      rw [hval]
      rfl
    rw [hbare, Option.none_or, ← isSome_ledgerAmount, hledger]
    cases hfind : (fieldsNamed "amount" entries).findSome? ScVal.i128? with
    | some amount =>
        rw [taggedAmount_map hval hfind, hval]
        simp [IsBalanceValue]
    | none =>
        refine iff_of_true ?_ nofun
        rw [Option.eq_none_iff_forall_ne_some]
        intro amount hamount
        obtain ⟨-, hlast⟩ := (decodeSacBalanceValue_map hval).mp hamount
        obtain ⟨value, hvalue, hint⟩ := Option.bind_eq_some_iff.mp hlast
        rw [List.findSome?_eq_none_iff] at hfind
        rw [hfind value (List.mem_of_getLast? hvalue)] at hint
        cases hint
  · -- no struct: both readers take an integer by itself and nothing else
    rw [decodeSacBalanceValue_other fun entries hval => hmap ⟨entries, hval⟩]
    cases hval : entry.val with
    | map entries =>
        cases entries with
        | some entries => exact absurd ⟨entries, hval⟩ hmap
        | none => simp [ledgerAmount, sacBalanceStructAmount, ScVal.i128?, HoldsAmount]
    | _ => simp [ledgerAmount, sacBalanceStructAmount, ScVal.i128?, HoldsAmount, IsBalanceValue]

/-- The contract data entry a change shows, and whether the change wrote it. -/
def LedgerEntryChange.contractDataImage : LedgerEntryChange → Option (ContractDataEntry × Bool)
  | .created ⟨_, .contractData entry⟩ | .updated ⟨_, .contractData entry⟩
  | .restored ⟨_, .contractData entry⟩ => some (entry, true)
  | .state ⟨_, .contractData entry⟩ => some (entry, false)
  | _ => none

/-- Wherever the change stands, its tagged form is read as the entry itself is. -/
def ReadersAgree (change : LedgerEntryChange) (entry : ContractDataEntry) : Prop :=
  ∀ operationIndex transactionHash ledgerSequence createdAt changeIndex,
    (extractSorobanTokenBalances [extractSingleChange change operationIndex transactionHash
      ledgerSequence createdAt changeIndex]).map ExtractedSorobanBalance.held =
    ((contractDataBalance entry).map ledgerHeld).toList

theorem changeInfo_image {change : LedgerEntryChange} {entry : ContractDataEntry} {written : Bool}
    (himage : change.contractDataImage = some (entry, written)) :
    ∃ changeType,
      changeInfo change = (changeType, "contract_data",
        contractDataKey entry.contract entry.key entry.durability,
        some (contractDataData entry)) ∧
      changeType ≠ "removed" ∧
      (changeType ∈ ["created", "updated", "restored"] ↔ written = true) := by
  unfold LedgerEntryChange.contractDataImage at himage
  split at himage
  case h_5 => cases himage
  all_goals
    cases himage
    exact ⟨_, rfl, by decide, by decide⟩

/-- What the tagged form of a change reports: nothing of an image from before the
change, nor of a temporary entry. -/
theorem sorobanTokenBalance_image {change : LedgerEntryChange} {entry : ContractDataEntry}
    {written : Bool} (himage : change.contractDataImage = some (entry, written))
    (hcontract : Crates.scAddressStrkey entry.contract ≠ "") (operationIndex : Option ℕ)
    (transactionHash : String) (ledgerSequence : UInt32) (createdAt : ℤ) (changeIndex : ℕ) :
    (sorobanTokenBalance (extractSingleChange change operationIndex transactionHash ledgerSequence
      createdAt changeIndex)).map ExtractedSorobanBalance.held =
      if written ∧ entry.durability = .persistent then
        (balanceKeyHolder entry.key).bind fun holder => (taggedAmount entry).map fun amount =>
          ⟨holder, Crates.scAddressStrkey entry.contract, amount⟩
      else none := by
  obtain ⟨changeType, hinfo, hkept, hwritten⟩ := changeInfo_image himage
  -- the contract of a key is the entry's own
  have hid : extractContractIdFromKey
      (contractDataKey entry.contract entry.key entry.durability) =
      some (Crates.scAddressStrkey entry.contract) := by
    simp [extractContractIdFromKey, contractDataKey, hcontract]
  simp only [sorobanTokenBalance, extractSingleChange, hinfo, sorobanBalanceLeft, hkept, if_false,
    hwritten, hid]
  cases hdurability : entry.durability with
  | temporary => simp [balanceKeyHolder_temporary]
  | persistent =>
      rw [balanceKeyHolder_contractDataKey]
      cases hholder : balanceKeyHolder entry.key with
      | none => simp
      | some holder =>
          cases written with
          | false => simp
          | true =>
              have hamount : (decodeScvalI128 (contractDataData entry)).or
                  ((decodeSacBalanceValue (contractDataData entry)).map (·.amount)) =
                  taggedAmount entry := rfl
              simp only [Option.bind_some, hamount]
              cases taggedAmount entry <;> simp [ExtractedSorobanBalance.held]

/-- The two readers read an entry alike exactly when it is keyed as no balance,
or holds no amount, or was written to a persistent entry in one of the two shapes
of a balance value. -/
theorem readersAgree_iff {change : LedgerEntryChange} {entry : ContractDataEntry}
    {written : Bool} (himage : change.contractDataImage = some (entry, written))
    (hcontract : Crates.scAddressStrkey entry.contract ≠ "") :
    ReadersAgree change entry ↔ (BalanceKeyed entry.key → HoldsAmount entry.val →
      written ∧ entry.durability = .persistent ∧ IsBalanceValue entry.val) := by
  have hagree : ReadersAgree change entry ↔
      (if written ∧ entry.durability = .persistent then
        (balanceKeyHolder entry.key).bind fun holder => (taggedAmount entry).map fun amount =>
          HeldBalance.mk holder (Crates.scAddressStrkey entry.contract) amount
      else none) = (balanceKeyHolder entry.key).bind fun holder =>
        (ledgerAmount entry.val).map fun amount =>
          ⟨holder, Crates.scAddressStrkey entry.contract, amount⟩ := by
    -- each reader has at most one balance to report
    have hone : ∀ extracted, (extractSorobanTokenBalances [extracted]).map
        ExtractedSorobanBalance.held =
        ((sorobanTokenBalance extracted).map ExtractedSorobanBalance.held).toList := by
      intro extracted
      cases hread : sorobanTokenBalance extracted <;> simp [extractSorobanTokenBalances, hread]
    have htoList : ∀ {x y : Option HeldBalance}, x.toList = y.toList ↔ x = y := by
      intro x y
      cases x <;> cases y <;> simp
    unfold ReadersAgree
    simp only [hone, htoList, contractDataBalance_held,
      sorobanTokenBalance_image himage hcontract]
    exact ⟨fun h => h none "" 0 0 0, fun h _ _ _ _ _ => h⟩
  rw [hagree, ← isSome_balanceKeyHolder, ← isSome_ledgerAmount]
  cases hholder : balanceKeyHolder entry.key with
  | none => simp
  | some holder =>
      -- the holder is the same: the amounts decide
      have hinj : ∀ {x y : Option ℤ}, x.map (HeldBalance.mk holder
          (Crates.scAddressStrkey entry.contract)) = y.map (HeldBalance.mk holder
          (Crates.scAddressStrkey entry.contract)) ↔ x = y := by
        intro x y
        refine (Option.map_injective fun m n h => ?_).eq_iff
        exact (HeldBalance.mk.inj h).2.2
      have hread := amounts_agree_iff entry
      rw [← isSome_ledgerAmount] at hread
      simp only [Option.bind_some, Option.isSome_some, true_imp_iff]
      by_cases hkept : written ∧ entry.durability = .persistent
      · rw [if_pos hkept, hinj, hread]
        simp [hkept]
      · rw [if_neg hkept]
        cases ledgerAmount entry.val with
        | none => simp
        | some amount => simpa using fun hwritten hdurability => absurd ⟨hwritten, hdurability⟩ hkept

end

/-! ## A temporary entry -/

/-- Five units of the pinned contract's token, held by the pinned account. -/
def pinnedTokenBalance (durability : ContractDataDurability) : ContractDataEntry where
  contract := .contract Crates.pinnedContract
  key := .vec (some [.symbol (asBytes "Balance"), .address (.account Crates.pinnedAccount)])
  durability
  val := .i128 0 5

def createsTokenBalance (durability : ContractDataDurability) : LedgerEntryChange :=
  .created ⟨60000000, .contractData (pinnedTokenBalance durability)⟩

theorem readersAgree_iff_persistent :
    @ReadersAgree Crates.pinned (createsTokenBalance .persistent)
      (pinnedTokenBalance .persistent) :=
  (@readersAgree_iff Crates.pinned (createsTokenBalance .persistent)
    (pinnedTokenBalance .persistent) true rfl (by decide)).mpr
    fun _ _ => ⟨rfl, rfl, trivial⟩

/-- A temporary entry shaped as a balance: the ledger reader reports its five
units, the holder balances do not. -/
theorem not_readersAgree_temporary :
    ¬ @ReadersAgree Crates.pinned (createsTokenBalance .temporary)
      (pinnedTokenBalance .temporary) := by
  let _ : Crates := Crates.pinned
  intro h
  exact absurd (h (some 0) "aa" 60000000 0 0) (by decide)

end SorobanExplorer
