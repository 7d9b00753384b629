import Mathlib.Algebra.Group.Nat.Defs
import Mathlib.Data.List.Basic
import Mathlib.Tactic.Ring

/-! Binary frames: numbers of a fixed width with their low byte first, fields at offsets, and how
fields of a frame that is put together are read off it. -/
namespace Keiko.Library
open List

abbrev Bytes := List UInt8

namespace Bytes

/-- A number in `width` bytes, low byte first. -/
def le : ℕ → ℕ → Bytes
  | 0, _ => []
  | width + 1, n => UInt8.ofNat n :: le width (n / 256)

def fromLe : Bytes → ℕ
  | [] => 0
  | b :: rest => b.toNat + 256 * fromLe rest

@[simp] theorem length_le (width n : ℕ) : (le width n).length = width := by
  induction width generalizing n with
  | zero => rfl
  | succ width ih => rw [le,length_cons,ih]

theorem fromLe_le : ∀ {width n : ℕ}, n < 256 ^ width → fromLe (le width n) = n := by
  intro width
  induction width with
  | zero =>
    intro n small
    rw [pow_zero] at small
    rw [le,fromLe]
    omega
  | succ width ih =>
    intro n small
    have behind : n / 256 < 256 ^ width := by
      rw [Nat.div_lt_iff_lt_mul (by omega),← pow_succ]
      exact small
    rw [le,fromLe,ih behind,UInt8.toNat_ofNat']
    omega

theorem fromLe_lt (bytes : Bytes) : fromLe bytes < 256 ^ bytes.length := by
  induction bytes with
  | nil => simp [fromLe]
  | cons b bytes ih =>
    have small := b.toNat_lt
    rw [fromLe,length_cons,pow_succ]
    omega

theorem le_fromLe (bytes : Bytes) : le bytes.length (fromLe bytes) = bytes := by
  induction bytes with
  | nil => rfl
  | cons b bytes ih =>
    have small := b.toNat_lt
    have low : UInt8.ofNat (b.toNat + 256 * fromLe bytes) = b := by
      apply UInt8.toNat_inj.mp
      rw [UInt8.toNat_ofNat']
      omega
    have high : (b.toNat + 256 * fromLe bytes) / 256 = fromLe bytes := by omega
    rw [fromLe,length_cons,le,low,high,ih]

variable {offset width : ℕ} {a bytes : Bytes}

theorem eq_le_of_fromLe {n : ℕ} (size : bytes.length = width)
    (v : fromLe bytes = n) : bytes = le width n := by
  rw [← size,← v,le_fromLe]

def read (offset width : ℕ) (bytes : Bytes) : ℕ := fromLe ((bytes.drop offset).take width)

theorem read_skip (behind : a.length ≤ offset) (width : ℕ)
    (rest : Bytes) : read offset width (a ++ rest) = read (offset - a.length) width rest := by
  rw [read,drop_append,drop_eq_nil_of_le behind,nil_append,← read]

theorem read_here (size : a.length = width) (rest : Bytes) :
    read 0 width (a ++ rest) = fromLe a := by
  rw [read,drop_zero,take_left' size]

theorem read_add (a offset width : ℕ) (bytes : Bytes) :
    read (a + offset) width bytes = read offset width (bytes.drop a) := by
  rw [read,read,drop_drop]

theorem read_take {size : ℕ} (mem : offset + width ≤ size) (bytes : Bytes) :
    read offset width (bytes.take size) = read offset width bytes := by
  rw [read,read,drop_take,take_take,Nat.min_eq_left (by omega)]

theorem read_at {front field : Bytes} (place : front.length = offset)
    (size : field.length = width) (rest : Bytes) :
    read offset width (front ++ (field ++ rest)) = fromLe field := by
  rw [read_skip place.le,place,Nat.sub_self,read_here size]

theorem drop_skip (behind : a.length ≤ offset) (rest : Bytes) :
    (a ++ rest).drop offset = rest.drop (offset - a.length) := by
  rw [drop_append,drop_eq_nil_of_le behind,nil_append]

theorem cut (long : width ≤ bytes.length) :
    ∃ a rest, bytes = a ++ rest ∧ a.length = width :=
  ⟨bytes.take width,bytes.drop width,(take_append_drop width bytes).symm,length_take_of_le long⟩

def overwrite (offset : ℕ) (given bytes : Bytes) : Bytes :=
  bytes.take offset ++ given ++ bytes.drop (offset + given.length)

theorem overwrite_here {given : Bytes} (size : a.length = given.length) (rest : Bytes) :
    overwrite 0 given (a ++ rest) = given ++ rest := by
  rw [overwrite,take_zero,nil_append,zero_add,drop_left' size]

theorem overwrite_skip (behind : a.length ≤ offset)
    (given rest : Bytes) : overwrite offset given (a ++ rest) =
      a ++ overwrite (offset - a.length) given rest := by
  rw [overwrite,take_append,take_of_length_le behind,drop_skip (by omega),overwrite,
    append_assoc,append_assoc,append_assoc]
  congr 4
  omega

end Bytes
end Keiko.Library
