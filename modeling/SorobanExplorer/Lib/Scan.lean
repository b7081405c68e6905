import Mathlib.Algebra.Group.Nat.Defs
import Mathlib.Data.List.Basic

/-!
# Reading bytes by position

A scan reads a list of bytes by index arithmetic.  It ends with a value or gives up, or it
faults: by a read outside the bytes, a position that overflows, or a loop that goes on without
end.

* `Ends` is the postcondition of a scan that does not fault, and `ends_bind` its rule;
* `At` says which bytes are ahead of a position, and what each read makes of them.
-/

inductive ScanFault
  | outside
  | overflow
  | endless
  deriving DecidableEq

/-- How a scan ends. -/
inductive Scan (α : Type)
  | done (value : α)
  | gaveUp
  | fault (fault : ScanFault)
  deriving DecidableEq

namespace Scan

variable {α β : Type}

def bind : Scan α → (α → Scan β) → Scan β
  | done value, next => next value
  | gaveUp, _ => gaveUp
  | fault f, _ => fault f

instance : Monad Scan where
  pure := done
  bind := bind

@[simp] theorem pure_eq (value : α) : (pure value : Scan α) = done value := rfl

@[simp] theorem done_bind (value : α) (next : α → Scan β) : (done value >>= next) = next value :=
  rfl

@[simp] theorem gaveUp_bind (next : α → Scan β) : (gaveUp >>= next) = gaveUp := rfl

/-- Give up on nothing. -/
def ofOption : Option α → Scan α
  | some value => done value
  | none => gaveUp

@[simp] theorem ofOption_some (value : α) : ofOption (some value) = done value := rfl

@[simp] theorem ofOption_none : ofOption (none : Option α) = gaveUp := rfl

/-- A scan of a truth value; giving up is false. -/
def orFalse : Scan Bool → Scan Bool
  | gaveUp => done false
  | scan => scan

@[simp] theorem orFalse_done (value : Bool) : orFalse (done value) = done value := rfl

/-! ## Positions -/

/-- The largest position a machine word holds. -/
def maxPosition : ℕ := 2 ^ 64 - 1

/-- Bytes in memory are fewer by far. -/
def Fits (bytes : List α) : Prop := bytes.length < 2 ^ 63

def checkedAdd (a b : ℕ) : Option ℕ := if a + b ≤ maxPosition then some (a + b) else none

def checkedSub (a b : ℕ) : Option ℕ := if b ≤ a then some (a - b) else none

def plus (a b : ℕ) : Scan ℕ := if a + b ≤ maxPosition then done (a + b) else fault .overflow

theorem checkedAdd_eq {a b : ℕ} (h : a + b ≤ maxPosition) : checkedAdd a b = some (a + b) :=
  if_pos h

theorem checkedSub_eq {a b : ℕ} (h : b ≤ a) : checkedSub a b = some (a - b) :=
  if_pos h

theorem plus_eq {a b : ℕ} (h : a + b ≤ maxPosition) : plus a b = done (a + b) :=
  if_pos h

theorem eq_of_checkedAdd {a b c : ℕ} (h : checkedAdd a b = some c) : c = a + b := by
  unfold checkedAdd at h
  split_ifs at h
  exact (Option.some.inj h).symm

theorem eq_of_checkedSub {a b c : ℕ} (h : checkedSub a b = some c) : b ≤ a ∧ c = a - b := by
  unfold checkedSub at h
  split_ifs at h with hle
  exact ⟨hle, (Option.some.inj h).symm⟩

/-! ## Reads -/

section

variable (bytes : List α)

/-- A read that faults outside the bytes. -/
def index (i : ℕ) : Scan α :=
  match bytes[i]? with
  | some byte => done byte
  | none => fault .outside

/-- The bytes from `i` to `j`; outside there are none. -/
def getRange (i j : ℕ) : Option (List α) :=
  if i ≤ j ∧ j ≤ bytes.length then some ((bytes.drop i).take (j - i)) else none

/-- The bytes from `i` to `j`; a read outside faults. -/
def range (i j : ℕ) : Scan (List α) :=
  match getRange bytes i j with
  | some bytes => done bytes
  | none => fault .outside

/-- The bytes from `i` on. -/
def getFrom (i : ℕ) : Option (List α) :=
  if i ≤ bytes.length then some (bytes.drop i) else none

end

/-! ## Postconditions -/

/-- The scan does not fault, and a value it ends with has the property. -/
def Ends (P : α → Prop) : Scan α → Prop
  | done value => P value
  | gaveUp => True
  | fault _ => False

variable {P : α → Prop} {Q : β → Prop} {scan : Scan α}

theorem ends_done {value : α} (h : P value) : Ends P (done value) := h

theorem ends_gaveUp : Ends P gaveUp := trivial

/-- **Sequencing.** -/
theorem ends_bind {next : α → Scan β} (h : Ends P scan)
    (hnext : ∀ value, P value → Ends Q (next value)) : Ends Q (scan >>= next) := by
  cases scan with
  | done value => exact hnext value h
  | gaveUp => trivial
  | fault f => exact h.elim

theorem Ends.imp {P' : α → Prop} (h : Ends P scan) (himp : ∀ value, P value → P' value) :
    Ends P' scan := by
  cases scan with
  | done value => exact himp value h
  | gaveUp => trivial
  | fault f => exact h.elim

theorem ends_ofOption {value : Option α} (h : ∀ a, value = some a → P a) :
    Ends P (ofOption value) := by
  cases value with
  | none => trivial
  | some a => exact h a rfl

theorem ends_plus {a b : ℕ} (h : a + b ≤ maxPosition) : Ends (· = a + b) (plus a b) := by
  rw [plus_eq h]
  exact rfl

theorem ends_checkedAdd (a b : ℕ) : Ends (· = a + b) (ofOption (checkedAdd a b)) :=
  ends_ofOption fun _ => eq_of_checkedAdd

theorem ends_index {bytes : List α} {i : ℕ} (h : i < bytes.length) :
    Ends (fun _ => True) (index bytes i) := by
  rw [index, List.getElem?_eq_getElem h]
  trivial

theorem ends_range {bytes : List α} {i j : ℕ} (hij : i ≤ j) (hj : j ≤ bytes.length) :
    Ends (fun _ => True) (range bytes i j) := by
  rw [range, getRange, if_pos ⟨hij, hj⟩]
  trivial

theorem ends_orFalse {scan : Scan Bool} (h : Ends (fun _ => True) scan) :
    Ends (fun _ => True) (orFalse scan) := by
  cases scan with
  | done value => trivial
  | gaveUp => trivial
  | fault f => exact h.elim

/-! ## What is ahead of a position -/

/-- The bytes from a position on. -/
structure At (bytes : List α) (pos : ℕ) (ahead : List α) : Prop where
  length : pos + ahead.length = bytes.length
  drop : bytes.drop pos = ahead

variable {bytes ahead rest first : List α} {pos : ℕ}

theorem at_zero (bytes : List α) : At bytes 0 bytes :=
  ⟨Nat.zero_add _, rfl⟩

theorem At.after (h : At bytes pos (first ++ rest)) : At bytes (pos + first.length) rest := by
  have hlength := h.length
  rw [List.length_append] at hlength
  refine ⟨by omega, ?_⟩
  rw [← List.drop_drop, h.drop, List.drop_left]

theorem At.next {byte : α} (h : At bytes pos (byte :: rest)) : At bytes (pos + 1) rest :=
  At.after (List.singleton_append ▸ h : At bytes pos ([byte] ++ rest))

theorem At.le (h : At bytes pos (first ++ rest)) : pos + first.length ≤ bytes.length := by
  have hlength := h.length
  rw [List.length_append] at hlength
  omega

theorem At.not_lt (h : At bytes pos []) : ¬pos < bytes.length := by
  have hlength := h.length
  rw [List.length_nil] at hlength
  omega

theorem At.getFrom (h : At bytes pos ahead) : getFrom bytes pos = some ahead := by
  have hlength := h.length
  rw [Scan.getFrom, if_pos (by omega), h.drop]

theorem At.getElem? {byte : α} (h : At bytes pos (byte :: rest)) : bytes[pos]? = some byte := by
  rw [← List.head?_drop, h.drop]
  rfl

theorem At.index {byte : α} (h : At bytes pos (byte :: rest)) : index bytes pos = done byte := by
  rw [Scan.index, h.getElem?]

theorem At.getRange (h : At bytes pos (first ++ rest)) :
    getRange bytes pos (pos + first.length) = some first := by
  rw [Scan.getRange, if_pos ⟨Nat.le_add_right _ _, h.le⟩, h.drop, Nat.add_sub_cancel_left,
    List.take_left]

theorem At.range (h : At bytes pos (first ++ rest)) :
    range bytes pos (pos + first.length) = done first := by
  rw [Scan.range, h.getRange]

theorem Fits.position (h : Fits bytes) {n : ℕ} (hpos : pos ≤ bytes.length) (hn : n ≤ 2 ^ 32) :
    pos + n ≤ maxPosition := by
  unfold Fits at h
  unfold maxPosition
  omega

theorem Fits.inside (h : Fits bytes) (hpos : pos ≤ bytes.length) : pos ≤ maxPosition :=
  h.position hpos (Nat.zero_le _)

theorem At.fits (h : At bytes pos (first ++ rest)) (hfits : Fits bytes) :
    pos + first.length ≤ maxPosition :=
  hfits.inside h.le

end Scan
