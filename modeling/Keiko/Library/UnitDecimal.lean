import Keiko.Library.CodeUnit
import Mathlib.Data.Nat.Digits.Lemmas

/-! Decimal numerals of natural numbers in a JavaScript string: `String(n)` and its way back. -/
namespace Keiko.Library.UnitDecimal
open List

def digit (d : ℕ) : CodeUnit := UInt16.ofNat (48 + d)

def digitValue (c : CodeUnit) : ℕ := c.toNat - 48

/-- `String(n)`. -/
def ofNat (n : ℕ) : Units := if n = 0 then [digit 0] else (Nat.digits 10 n).reverse.map digit

def value (digits : Units) : ℕ := Nat.ofDigits 10 (digits.reverse.map digitValue)

variable {c : CodeUnit} {n d : ℕ}

theorem digitValue_digit (small : d < 10) : digitValue (digit d) = d := by
  rw [digitValue,digit,UInt16.toNat_ofNat_of_lt' (by rw [UInt16.size]; omega)]
  omega

theorem isDigit_iff : CodeUnit.isDigit c = true ↔ 48 ≤ c.toNat ∧ c.toNat ≤ 57 := by
  rw [CodeUnit.isDigit,Bool.and_eq_true,decide_eq_true_eq,decide_eq_true_eq,UInt16.le_iff_toNat_le,
    UInt16.le_iff_toNat_le]
  rfl

theorem digit_digitValue (isDigit : CodeUnit.isDigit c = true) : digit (digitValue c) = c := by
  obtain ⟨low,high⟩ := isDigit_iff.mp isDigit
  rw [digit,digitValue,Nat.add_sub_cancel' low]
  exact UInt16.ofNat_toNat

theorem isDigit_digit (small : d < 10) : CodeUnit.isDigit (digit d) = true := by
  rw [isDigit_iff,digit,UInt16.toNat_ofNat_of_lt' (by rw [UInt16.size]; omega)]
  omega

theorem digitValue_lt (isDigit : CodeUnit.isDigit c = true) : digitValue c < 10 := by
  obtain ⟨low,high⟩ := isDigit_iff.mp isDigit
  rw [digitValue]
  omega

theorem isDigit_of_mem_ofNat (mem : c ∈ ofNat n) : CodeUnit.isDigit c = true := by
  unfold ofNat at mem
  split at mem
  · rw [mem_singleton.mp mem]
    decide
  · obtain ⟨d,inside,rfl⟩ := mem_map.mp mem
    exact isDigit_digit (Nat.digits_lt_base (by omega) (mem_reverse.mp inside))

theorem value_ofNat (n : ℕ) : value (ofNat n) = n := by
  unfold ofNat value
  split
  next zero =>
    rw [zero]
    rfl
  next =>
    rw [← map_reverse,reverse_reverse,map_map]
    have back : (Nat.digits 10 n).map (digitValue ∘ digit) = (Nat.digits 10 n).map id :=
      map_congr_left fun d mem => digitValue_digit (Nat.digits_lt_base (by omega) mem)
    rw [back,map_id,Nat.ofDigits_digits]

theorem ofNat_value {a : CodeUnit} {rest : Units}
    (ds : ∀ c ∈ a :: rest, CodeUnit.isDigit c = true) (leading : digitValue a ≠ 0) :
    ofNat (value (a :: rest)) = a :: rest := by
  have small : ∀ d ∈ (a :: rest).reverse.map digitValue, d < 10 := by
    intro d mem
    obtain ⟨c,inside,rfl⟩ := mem_map.mp mem
    exact digitValue_lt (ds c (mem_reverse.mp inside))
  have last : ∀ nonempty : (a :: rest).reverse.map digitValue ≠ [],
      ((a :: rest).reverse.map digitValue).getLast nonempty ≠ 0 := by
    intro nonempty
    simpa using leading
  have expanded : Nat.digits 10 (value (a :: rest)) = (a :: rest).reverse.map digitValue :=
    Nat.digits_ofDigits 10 (by omega) _ small last
  have positive : value (a :: rest) ≠ 0 := by
    intro zero
    rw [zero,Nat.digits_zero] at expanded
    simp at expanded
  rw [ofNat,if_neg positive,expanded,← map_reverse,reverse_reverse,map_map]
  have back : (a :: rest).map (digit ∘ digitValue) = (a :: rest).map id :=
    map_congr_left fun c inside => digit_digitValue (ds c inside)
  rw [back,map_id]

theorem length_ofNat_le {size : ℕ} (positive : 0 < n) (small : n < 10 ^ size) : (ofNat n).length ≤ size := by
  rw [ofNat,if_neg positive.ne',length_map,length_reverse]
  exact (Nat.digits_length_le_iff (by omega) n).mpr small

theorem ofNat_eq_cons (positive : 0 < n) : ∃ a rest, ofNat n = a :: rest ∧ digitValue a ≠ 0 := by
  have some_digit : Nat.digits 10 n ≠ [] := Nat.digits_ne_nil_iff_ne_zero.mpr positive.ne'
  have last := Nat.getLast_digit_ne_zero 10 positive.ne'
  refine ⟨digit ((Nat.digits 10 n).getLast some_digit),((Nat.digits 10 n).reverse.tail).map digit,?_,?_⟩
  · rw [ofNat,if_neg positive.ne',← map_cons]
    congr 1
    rw [← head_reverse (reverse_ne_nil_iff.mpr some_digit),cons_head_tail]
  · rw [digitValue_digit (Nat.digits_lt_base (by omega) (getLast_mem some_digit))]
    exact last

end Keiko.Library.UnitDecimal
