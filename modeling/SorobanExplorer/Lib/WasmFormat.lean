import Mathlib.Tactic.Ring

/-!
# The binary format of WebAssembly modules

What it is for bytes to encode a module of the core format: unsigned integers of seven bits a
byte, counted sequences, names, and the four kinds of imports.  The bodies of other sections may
be any bytes, so the modules here include all well-formed ones.
-/

namespace WasmFormat

abbrev Bytes := List UInt8

/-- An unsigned integer of at most `width` bits, seven bits a byte, the lowest first. -/
inductive Unsigned : (width : ℕ) → Bytes → ℕ → Prop
  | last {width : ℕ} {byte : UInt8} (hlast : byte.toNat < 2 ^ 7)
      (hwidth : byte.toNat < 2 ^ width) : Unsigned width [byte] byte.toNat
  | more {width : ℕ} {byte : UInt8} {rest : Bytes} {n : ℕ} (hmore : 2 ^ 7 ≤ byte.toNat)
      (hwidth : 7 < width) (hrest : Unsigned (width - 7) rest n) :
      Unsigned width (byte :: rest) (2 ^ 7 * n + (byte.toNat - 2 ^ 7))

/-- Bytes after their number. -/
def Counted (content bytes : Bytes) : Prop :=
  ∃ size, Unsigned 32 size content.length ∧ bytes = size ++ content

/-- The encodings of several things, one after the other. -/
inductive Row {α : Type} (Encodes : α → Bytes → Prop) : List α → Bytes → Prop
  | nil : Row Encodes [] []
  | cons {a : α} {as : List α} {bytes rest : Bytes} (hfirst : Encodes a bytes)
      (hrest : Row Encodes as rest) : Row Encodes (a :: as) (bytes ++ rest)

/-- The UTF-8 bytes of a name. -/
def utf8 (name : String) : Bytes := name.toUTF8.data.toList

theorem utf8_injective : Function.Injective utf8 := by
  intro a b h
  apply String.toByteArray_inj.mp
  exact ByteArray.ext (Array.toList_inj.mp h)

/-! ## Imports -/

inductive RefType
  | funcref
  | externref

def RefType.byte : RefType → UInt8
  | funcref => 0x70
  | externref => 0x6F

inductive ValType
  | i32
  | i64
  | f32
  | f64
  | v128
  | ref (type : RefType)

def ValType.byte : ValType → UInt8
  | i32 => 0x7F
  | i64 => 0x7E
  | f32 => 0x7D
  | f64 => 0x7C
  | v128 => 0x7B
  | ref type => type.byte

structure Limits where
  min : ℕ
  max : Option ℕ

inductive Limits.Encoded : Limits → Bytes → Prop
  | unbounded {n : ℕ} {bytes : Bytes} (hmin : Unsigned 32 bytes n) :
      Encoded ⟨n, none⟩ (0x00 :: bytes)
  | bounded {n m : ℕ} {bytes bytes' : Bytes} (hmin : Unsigned 32 bytes n)
      (hmax : Unsigned 32 bytes' m) : Encoded ⟨n, some m⟩ (0x01 :: (bytes ++ bytes'))

inductive ImportDesc
  | func (typeIdx : ℕ)
  | table (type : RefType) (limits : Limits)
  | memory (limits : Limits)
  | global (type : ValType) (mutable : Bool)

inductive ImportDesc.Encoded : ImportDesc → Bytes → Prop
  | func {typeIdx : ℕ} {bytes : Bytes} (htype : Unsigned 32 bytes typeIdx) :
      Encoded (func typeIdx) (0x00 :: bytes)
  | table {type : RefType} {limits : Limits} {bytes : Bytes} (hlimits : limits.Encoded bytes) :
      Encoded (table type limits) (0x01 :: type.byte :: bytes)
  | memory {limits : Limits} {bytes : Bytes} (hlimits : limits.Encoded bytes) :
      Encoded (memory limits) (0x02 :: bytes)
  | global {type : ValType} {mutable : Bool} :
      Encoded (global type mutable) [0x03, type.byte, if mutable then 0x01 else 0x00]

structure Import where
  source : String
  name : String
  desc : ImportDesc

/-- The module an import comes from, its name there, and what it is. -/
inductive Import.Encoded : Import → Bytes → Prop
  | mk {source name : String} {desc : ImportDesc} {bytes bytes' bytes'' : Bytes}
      (hsource : Counted (utf8 source) bytes) (hname : Counted (utf8 name) bytes')
      (hdesc : desc.Encoded bytes'') : Encoded ⟨source, name, desc⟩ (bytes ++ bytes' ++ bytes'')

def ImportDesc.isFunc : ImportDesc → Bool
  | func _ => true
  | _ => false

/-! ## Sections -/

/-- The sections whose bodies are not looked into. -/
inductive SectionKind
  | type
  | function
  | table
  | memory
  | global
  | exports
  | start
  | element
  | dataCount
  | code
  | data

def SectionKind.id : SectionKind → UInt8
  | type => 1
  | function => 3
  | table => 4
  | memory => 5
  | global => 6
  | exports => 7
  | start => 8
  | element => 9
  | dataCount => 12
  | code => 10
  | data => 11

theorem SectionKind.id_ne_zero (kind : SectionKind) : kind.id ≠ 0 := by
  cases kind <;> decide

theorem SectionKind.id_ne_two (kind : SectionKind) : kind.id ≠ 2 := by
  cases kind <;> decide

inductive Section
  | custom (name : String) (content : Bytes)
  | imports (entries : List Import)
  | other (kind : SectionKind) (body : Bytes)

/-- The id of a section. -/
def Section.id : Section → UInt8
  | custom _ _ => 0
  | imports _ => 2
  | other kind _ => kind.id

inductive Section.HasBody : Section → Bytes → Prop
  | custom {name : String} {content bytes : Bytes} (hname : Counted (utf8 name) bytes) :
      HasBody (custom name content) (bytes ++ content)
  | imports {entries : List Import} {count bytes : Bytes}
      (hcount : Unsigned 32 count entries.length) (hentries : Row Import.Encoded entries bytes) :
      HasBody (imports entries) (count ++ bytes)
  | other {kind : SectionKind} {body : Bytes} : HasBody (other kind body) body

/-- The id, and the counted body. -/
inductive Section.Encoded : Section → Bytes → Prop
  | mk {s : Section} {body bytes : Bytes} (hbody : s.HasBody body) (hcounted : Counted body bytes) :
      Encoded s (s.id :: bytes)

/-- The place of a section among the others; custom sections stand anywhere. -/
def Section.place : Section → Option ℕ
  | custom _ _ => none
  | imports _ => some 2
  | other .dataCount _ => some 10
  | other .code _ => some 11
  | other .data _ => some 12
  | other kind _ => some kind.id.toNat

/-- A module; each section but a custom one stands at most once and in its place. -/
structure Module where
  sections : List Section
  ordered : (sections.filterMap Section.place).Pairwise (· < ·)

def header : Bytes := [0x00, 0x61, 0x73, 0x6D, 0x01, 0x00, 0x00, 0x00]

inductive Module.Encoded : Module → Bytes → Prop
  | mk {m : Module} {bytes : Bytes} (hsections : Row Section.Encoded m.sections bytes) :
      Encoded m (header ++ bytes)

/-! ## What a module has -/

def Section.importsFunction (source name : String) : Section → Bool
  | imports entries =>
      entries.any fun entry => entry.source = source ∧ entry.name = name ∧ entry.desc.isFunc
  | _ => false

/-- The import section has a function of the name. -/
def Module.importsFunction (m : Module) (source name : String) : Bool :=
  m.sections.any (Section.importsFunction source name)

def Section.customContent (name : String) : Section → Option Bytes
  | custom name' content => if name' = name then some content else none
  | _ => none

/-- The content of the first custom section of the name. -/
def Module.customContent (m : Module) (name : String) : Option Bytes :=
  m.sections.findSome? (Section.customContent name)

end WasmFormat
