import Keiko.Library.Binary64
import Keiko.Library.UnitText

/-! `Number(text)`: the number that a whole string spells, with white space around it left out. The
empty string spells zero, and a string of no numeric form spells no number. -/
namespace Keiko.Library.NumberText

def digitValue (c : CodeUnit) : Option ℕ :=
  if CodeUnit.isDigit c then some (c.toNat - 48)
  else if unit 'a' ≤ c && c ≤ unit 'f' then some (c.toNat - 87)
  else if unit 'A' ≤ c && c ≤ unit 'F' then some (c.toNat - 55)
  else none

def readWhole (base : ℕ) (text : Units) : Option ℕ :=
  if text = [] then none
  else text.foldlM (fun value c => do
      let digit ← digitValue c
      if digit < base then some (value * base + digit) else none) 0

/-- What follows the digits of a decimal: nothing, or an exponent to the end of the string. -/
def readExponent : Units → Option ℤ
  | [] => some 0
  | c :: rest =>
    if c = unit 'e' ∨ c = unit 'E' then match rest with
      | [] => none
      | sign :: digits =>
        if sign = unit '+' then (readWhole 10 digits).map fun n => (n : ℤ)
        else if sign = unit '-' then (readWhole 10 digits).map fun n => -(n : ℤ)
        else (readWhole 10 rest).map fun n => (n : ℤ)
    else none

def splitDecimal (text : Units) : Units × Units × Units :=
  let whole := text.takeWhile CodeUnit.isDigit
  match text.dropWhile CodeUnit.isDigit with
  | [] => ⟨whole,[],[]⟩
  | c :: rest =>
    if c = unit '.' then ⟨whole,rest.takeWhile CodeUnit.isDigit,rest.dropWhile CodeUnit.isDigit⟩
    else ⟨whole,[],c :: rest⟩

def readUnsigned (text : Units) : Option Number :=
  if text = units "Infinity" then some .infinity
  else
    let parts := splitDecimal text
    (readWhole 10 (parts.1 ++ parts.2.1)).bind fun digits =>
      (readExponent parts.2.2).map fun (exponent : ℤ) =>
        Binary64.round ((digits : ℚ) * 10 ^ (exponent - parts.2.1.length))

def readSigned : Units → Option Number
  | [] => none
  | sign :: rest =>
    if sign = unit '+' then readUnsigned rest
    else if sign = unit '-' then (readUnsigned rest).map Number.neg
    else readUnsigned (sign :: rest)

def baseOf (c : CodeUnit) : Option ℕ :=
  if c = unit 'x' ∨ c = unit 'X' then some 16
  else if c = unit 'o' ∨ c = unit 'O' then some 8
  else if c = unit 'b' ∨ c = unit 'B' then some 2
  else none

def readBody (text : Units) : Option Number :=
  match text with
  | zero :: c :: digits =>
    match baseOf c with
    | some base =>
      if zero = unit '0' then (readWhole base digits).map fun n => Binary64.round n
      else readSigned text
    | none => readSigned text
  | _ => readSigned text

def stringToNumber (text : Units) : Number :=
  let body := Units.trim text
  if body = [] then 0 else (readBody body).getD .nan

end Keiko.Library.NumberText
