import Mathlib.Algebra.Group.Int.Defs
import Mathlib.Algebra.Group.Nat.Defs

/-!
# JSON values

The values the parser hands from stage to stage.  An object is the list of its
fields; no literal of the parser repeats a key, so looking a key up finds the
field of that name.
-/

namespace SorobanExplorer

inductive Json
  | null
  | bool (value : Bool)
  | num (value : ℤ)
  | str (value : String)
  | arr (elements : List Json)
  | obj (fields : List (String × Json))
  deriving Repr

namespace Json

mutual

/-- Equality of values is decidable. -/
def decEq : (a b : Json) → Decidable (a = b)
  | .null, .null => isTrue rfl
  | .bool a, .bool b => decidable_of_iff (a = b) (by simp)
  | .num a, .num b => decidable_of_iff (a = b) (by simp)
  | .str a, .str b => decidable_of_iff (a = b) (by simp)
  | .arr as, .arr bs =>
      have := decEqList as bs
      decidable_of_iff (as = bs) (by simp)
  | .obj as, .obj bs =>
      have := decEqFields as bs
      decidable_of_iff (as = bs) (by simp)
  | .null, .bool _ | .null, .num _ | .null, .str _ | .null, .arr _ | .null, .obj _
  | .bool _, .null | .bool _, .num _ | .bool _, .str _ | .bool _, .arr _ | .bool _, .obj _
  | .num _, .null | .num _, .bool _ | .num _, .str _ | .num _, .arr _ | .num _, .obj _
  | .str _, .null | .str _, .bool _ | .str _, .num _ | .str _, .arr _ | .str _, .obj _
  | .arr _, .null | .arr _, .bool _ | .arr _, .num _ | .arr _, .str _ | .arr _, .obj _
  | .obj _, .null | .obj _, .bool _ | .obj _, .num _ | .obj _, .str _ | .obj _, .arr _ =>
      isFalse nofun

def decEqList : (as bs : List Json) → Decidable (as = bs)
  | [], [] => isTrue rfl
  | a :: as, b :: bs =>
      have := decEq a b
      have := decEqList as bs
      decidable_of_iff (a = b ∧ as = bs) (by simp)
  | [], _ :: _ | _ :: _, [] => isFalse nofun

def decEqFields : (as bs : List (String × Json)) → Decidable (as = bs)
  | [], [] => isTrue rfl
  | (k, a) :: as, (l, b) :: bs =>
      have := decEq a b
      have := decEqFields as bs
      decidable_of_iff ((k = l ∧ a = b) ∧ as = bs) (by simp)
  | [], _ :: _ | _ :: _, [] => isFalse nofun

end

instance : DecidableEq Json := decEq

/-- The field of an object; nothing for any other value. -/
def get? (value : Json) (key : String) : Option Json :=
  match value with
  | .obj fields => (fields.find? (·.1 == key)).map (·.2)
  | _ => none

def asStr : Json → Option String
  | .str value => some value
  | _ => none

def asArray : Json → Option (List Json)
  | .arr elements => some elements
  | _ => none

def asObject : Json → Option (List (String × Json))
  | .obj fields => some fields
  | _ => none

def asBool : Json → Option Bool
  | .bool value => some value
  | _ => none

/-- The number, if it fits a signed 64-bit integer. -/
def asI64 : Json → Option ℤ
  | .num value => if -2 ^ 63 ≤ value ∧ value < 2 ^ 63 then some value else none
  | _ => none

/-- The number, if it fits an unsigned 64-bit integer. -/
def asU64 : Json → Option ℕ
  | .num value => if 0 ≤ value ∧ value < 2 ^ 64 then some value.toNat else none
  | _ => none

@[simp] theorem get?_obj (fields : List (String × Json)) (key : String) :
    (obj fields).get? key = (fields.find? (·.1 == key)).map (·.2) := rfl

@[simp] theorem asStr_str (value : String) : (str value).asStr = some value := rfl

@[simp] theorem asArray_arr (elements : List Json) : (arr elements).asArray = some elements := rfl

theorem asI64_num {value : ℤ} (hlow : -2 ^ 63 ≤ value) (hhigh : value < 2 ^ 63) :
    (num value).asI64 = some value :=
  if_pos ⟨hlow, hhigh⟩

end Json

end SorobanExplorer
