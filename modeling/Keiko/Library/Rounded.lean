import Keiko.Library.Binary64

/-! Arithmetic of the binary64 format: the exact result, rounded. Zero has one sign only. -/
namespace Keiko.Library.Binary64

def add : Number → Number → Number
  | .finite left, .finite right => round (left + right)
  | left, right => left.add right

def infinite (sign : ℚ) : Number :=
  if 0 < sign then .infinity else if sign < 0 then .negInfinity else .nan

def mul : Number → Number → Number
  | .nan, _ => .nan
  | _, .nan => .nan
  | .finite left, .finite right => round (left * right)
  | .finite left, .infinity => infinite left
  | .finite left, .negInfinity => infinite (-left)
  | .infinity, .finite right => infinite right
  | .negInfinity, .finite right => infinite (-right)
  | .infinity, .infinity => .infinity
  | .negInfinity, .negInfinity => .infinity
  | .infinity, .negInfinity => .negInfinity
  | .negInfinity, .infinity => .negInfinity

def div : Number → Number → Number
  | .nan, _ => .nan
  | _, .nan => .nan
  | .finite left, .finite right => if right = 0 then infinite left else round (left / right)
  | .finite _, _ => 0
  | .infinity, .finite right => if right < 0 then .negInfinity else .infinity
  | .negInfinity, .finite right => if right < 0 then .infinity else .negInfinity
  | _, _ => .nan

theorem mul_comm (left right : Number) : mul left right = mul right left := by
  cases left with
  | finite x =>
    cases right with
    | finite y => rw [mul,mul,Rat.mul_comm]
    | _ => rfl
  | _ =>
    cases right with
    | _ => rfl

end Keiko.Library.Binary64
