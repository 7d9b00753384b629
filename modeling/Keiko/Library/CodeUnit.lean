import Mathlib.Algebra.GroupWithZero.Nat
import Mathlib.Data.List.Basic

/-! A JavaScript string by its sixteen-bit code units, in which one half of a surrogate pair may
stand alone. -/
namespace Keiko.Library

abbrev CodeUnit := UInt16

abbrev Units := List CodeUnit

instance : LawfulBEq Units := inferInstance

def unit (c : Char) : CodeUnit := UInt16.ofNat c.toNat

def units (text : String) : Units := text.toList.map unit

theorem of_all_units (p : CodeUnit → Prop) [DecidablePred p] {t : Units}
    (all : (t.all fun c => decide (p c)) = true) {c : CodeUnit} (mem : c ∈ t) : p c :=
  of_decide_eq_true (List.all_eq_true.mp all c mem)

namespace CodeUnit

variable (c : CodeUnit)

def isDigit : Bool := unit '0' ≤ c && c ≤ unit '9'

def isLetter : Bool :=
  (unit 'a' ≤ c && c ≤ unit 'z') || (unit 'A' ≤ c && c ≤ unit 'Z')

def isSurrogate : Bool := 0xd800 ≤ c && c ≤ 0xdfff

def isHexDigit : Bool :=
  isDigit c || (unit 'a' ≤ c && c ≤ unit 'f') || (unit 'A' ≤ c && c ≤ unit 'F')

def isSpace : Bool :=
  [9, 10, 11, 12, 13, 32, 160, 5760, 8232, 8233, 8239, 8287, 12288, 65279].contains c ||
    (8192 ≤ c && c ≤ 8202)

def isLineTerminator : Bool := [10, 13, 0x2028, 0x2029].contains c

def hexDigit (digit : ℕ) : CodeUnit :=
  if digit < 10 then UInt16.ofNat (48 + digit) else UInt16.ofNat (87 + digit)

/-- The hexadecimal digits of a unit, the last `width` of them. -/
def hex (width : ℕ) (c : CodeUnit) : Units :=
  (List.range width).reverse.map fun place => hexDigit (c.toNat / 16 ^ place % 16)

@[simp] theorem length_hex (width : ℕ) (c : CodeUnit) : (hex width c).length = width := by
  simp [hex]

theorem isHexDigit_hexDigit : ∀ digit < 16, isHexDigit (hexDigit digit) = true := by
  decide

theorem isHexDigit_of_mem_hex {width : ℕ} {c d : CodeUnit} (mem : d ∈ hex width c) : isHexDigit d = true := by
  obtain ⟨place,_,rfl⟩ := List.mem_map.mp mem
  exact isHexDigit_hexDigit _ (Nat.mod_lt _ (by omega))

end CodeUnit
end Keiko.Library
