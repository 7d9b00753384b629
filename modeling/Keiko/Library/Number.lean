import Mathlib.Algebra.Order.Floor.Defs
import Mathlib.Data.Rat.Floor
import Mathlib.Tactic.Linarith

/-! Numbers of a JavaScript program, as far as comparison, rounding and slicing
see them: the rationals with the two infinities and the value that is no number. -/
namespace Keiko.Library

inductive Number where
  | finite (value : ℚ)
  | infinity
  | negInfinity
  | nan
  deriving DecidableEq

namespace Number

instance (n : Nat) : OfNat Number n := ⟨.finite n⟩

def ofNat (n : Nat) : Number := .finite n

/-- `Number.isFinite`. -/
def isFinite : Number → Bool
  | .finite _ => true
  | _ => false

/-- `Number.isInteger`. -/
def isInteger : Number → Bool
  | .finite value => decide (value.den = 1)
  | _ => false

/-- `Math.max`. -/
def max : Number → Number → Number
  | .nan, _ => .nan
  | _, .nan => .nan
  | .infinity, _ => .infinity
  | _, .infinity => .infinity
  | .negInfinity, other => other
  | value, .negInfinity => value
  | .finite left, .finite right => .finite (if left ≤ right then right else left)

/-- `Math.min`. -/
def min : Number → Number → Number
  | .nan, _ => .nan
  | _, .nan => .nan
  | .negInfinity, _ => .negInfinity
  | _, .negInfinity => .negInfinity
  | .infinity, other => other
  | value, .infinity => value
  | .finite left, .finite right => .finite (if left ≤ right then left else right)

theorem max_finite (left right : ℚ) : max (.finite left) (.finite right) = .finite (Max.max left right) :=
  congrArg Number.finite (max_def left right).symm

theorem min_finite (left right : ℚ) : min (.finite left) (.finite right) = .finite (Min.min left right) :=
  congrArg Number.finite (min_def left right).symm

theorem one_eq : (1 : Number) = .finite 1 := congrArg Number.finite Nat.cast_one

/-- `<=`, which never holds of the value that is no number. -/
def LessEq : Number → Number → Prop
  | .nan, _ => False
  | _, .nan => False
  | .negInfinity, _ => True
  | _, .infinity => True
  | .finite left, .finite right => left ≤ right
  | _, _ => False

instance : (left right : Number) → Decidable (left.LessEq right)
  | .nan, _ => isFalse id
  | .negInfinity, .nan => isFalse id
  | .infinity, .nan => isFalse id
  | .finite _, .nan => isFalse id
  | .negInfinity, .negInfinity => isTrue trivial
  | .negInfinity, .infinity => isTrue trivial
  | .negInfinity, .finite _ => isTrue trivial
  | .infinity, .infinity => isTrue trivial
  | .finite _, .infinity => isTrue trivial
  | .infinity, .negInfinity => isFalse id
  | .finite _, .negInfinity => isFalse id
  | .infinity, .finite _ => isFalse id
  | .finite left, .finite right => inferInstanceAs (Decidable (left ≤ right))

/-- `<`. -/
def Less : Number → Number → Prop
  | .nan, _ => False
  | _, .nan => False
  | _, .negInfinity => False
  | .negInfinity, _ => True
  | .infinity, _ => False
  | .finite _, .infinity => True
  | .finite left, .finite right => left < right

instance : (left right : Number) → Decidable (left.Less right)
  | .nan, _ => isFalse id
  | .negInfinity, .nan => isFalse id
  | .infinity, .nan => isFalse id
  | .finite _, .nan => isFalse id
  | .negInfinity, .negInfinity => isFalse id
  | .infinity, .negInfinity => isFalse id
  | .finite _, .negInfinity => isFalse id
  | .negInfinity, .infinity => isTrue trivial
  | .negInfinity, .finite _ => isTrue trivial
  | .infinity, .infinity => isFalse id
  | .infinity, .finite _ => isFalse id
  | .finite _, .infinity => isTrue trivial
  | .finite left, .finite right => inferInstanceAs (Decidable (left < right))

/-- The sum, without the rounding of the format. -/
def add : Number → Number → Number
  | .nan, _ => .nan
  | _, .nan => .nan
  | .infinity, .negInfinity => .nan
  | .negInfinity, .infinity => .nan
  | .infinity, _ => .infinity
  | _, .infinity => .infinity
  | .negInfinity, _ => .negInfinity
  | _, .negInfinity => .negInfinity
  | .finite left, .finite right => .finite (left + right)

def neg : Number → Number
  | .finite value => .finite (-value)
  | .infinity => .negInfinity
  | .negInfinity => .infinity
  | .nan => .nan

/-- `Math.round`, which rounds halves up. -/
def round : Number → Number
  | .finite value => .finite ⌊value + 1 / 2⌋
  | value => value

theorem round_intCast (n : ℤ) : round (.finite n) = .finite n := by
  have whole : ⌊(n : ℚ) + 1 / 2⌋ = n := by
    rw [Int.floor_eq_iff]
    constructor <;> linarith
  rw [round,whole]

/-- The position in a list of the given length that `slice` reads off a number. -/
def sliceIndex (length : Nat) : Number → Nat
  | .finite value =>
    let whole : Int := if value < 0 then ⌈value⌉ else ⌊value⌋
    if whole < 0 then (length + whole).toNat else Nat.min whole.toNat length
  | .infinity => length
  | .negInfinity => 0
  | .nan => 0

/-- The length of the list that `Array.from` makes of a length. -/
def toLength : Number → Nat
  | .finite value => Nat.min ⌊value⌋.toNat (2 ^ 53 - 1)
  | .infinity => 2 ^ 53 - 1
  | .negInfinity => 0
  | .nan => 0

end Number

end Keiko.Library
