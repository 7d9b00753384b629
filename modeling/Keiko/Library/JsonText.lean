import Keiko.Library.Decimal
import Keiko.Library.Json
import Keiko.Library.Record

/-! JSON texts. Writing follows `JSON.stringify`, reading `JSON.parse`: texts are quoted and
escaped by code unit, a later field of one name replaces the earlier, and what stands behind
the value must be blank. -/
namespace Keiko.Library.Json
open List

section Strings

def quotationMark : Char := '\x22'

def backslash : Char := '\\'

def shortEscapes : List (Char × Char) :=
  [(quotationMark,quotationMark),(backslash,backslash),('\x08','b'),('\x0c','f'),('\n','n'),('\r','r'),('\t','t')]

def escapeChar (c : Char) : Text :=
  match shortEscapes.find? fun escape => escape.1 = c with
  | some escape => [backslash,escape.2]
  | none =>
    if c.toNat < 0x20 then [backslash,'u','0','0',Nat.digitChar (c.toNat / 16),Nat.digitChar (c.toNat % 16)]
    else [c]

def quote (text : Text) : Text := quotationMark :: (text.flatMap escapeChar ++ [quotationMark])

def codeUnits (c : Char) : List Nat :=
  if c.toNat < 0x10000 then [c.toNat]
  else [0xd800 + (c.toNat - 0x10000) / 0x400,0xdc00 + (c.toNat - 0x10000) % 0x400]

def isHighSurrogate (unit : Nat) : Bool := 0xd800 ≤ unit && unit < 0xdc00

def isLowSurrogate (unit : Nat) : Bool := 0xdc00 ≤ unit && unit < 0xe000

def ofCodeUnits : List Nat → Text
  | [] => []
  | [unit] => [if isHighSurrogate unit || isLowSurrogate unit then '\ufffd' else Char.ofNat unit]
  | first :: second :: units =>
    if isHighSurrogate first && isLowSurrogate second then
      Char.ofNat (0x10000 + (first - 0xd800) * 0x400 + (second - 0xdc00)) :: ofCodeUnits units
    else (if isHighSurrogate first || isLowSurrogate first then '\ufffd' else Char.ofNat first) ::
        ofCodeUnits (second :: units)

def hexValue (c : Char) : Option Nat :=
  if Text.isDigit c then some (c.toNat - '0'.toNat)
  else if 'a' ≤ c ∧ c ≤ 'f' then some (c.toNat - 'a'.toNat + 10)
  else if 'A' ≤ c ∧ c ≤ 'F' then some (c.toNat - 'A'.toNat + 10)
  else none

def unescape (letter : Char) : Option Char :=
  if letter = '/' then some '/'
  else (shortEscapes.find? fun escape => escape.2 = letter).map Prod.fst

inductive Place where
  | plain
  | escape
  | hex (left unit : Nat)

def readUnits : Place → Text → Option (List Nat × Text)
  | _, [] => none
  | .plain, c :: rest =>
    if c = quotationMark then some ⟨[],rest⟩
    else if c = backslash then readUnits .escape rest
    else if c.toNat < 0x20 then none
    else (readUnits .plain rest).map fun read => ⟨codeUnits c ++ read.1,read.2⟩
  | .escape, letter :: rest =>
    if letter = 'u' then readUnits (.hex 3 0) rest
    else match unescape letter with
      | some c => (readUnits .plain rest).map fun read => ⟨codeUnits c ++ read.1,read.2⟩
      | none => none
  | .hex left unit, c :: rest =>
    match hexValue c, left with
    | none, _ => none
    | some digit, 0 =>
      (readUnits .plain rest).map fun read => ⟨(16 * unit + digit) :: read.1,read.2⟩
    | some digit, left + 1 => readUnits (.hex left (16 * unit + digit)) rest

def readString (text : Text) : Option (Text × Text) :=
  (readUnits .plain text).map fun read => ⟨ofCodeUnits read.1,read.2⟩

theorem ofCodeUnits_cons (c : Char) (units : List Nat) :
    ofCodeUnits (codeUnits c ++ units) = c :: ofCodeUnits units := by
  have valid : c.toNat < 0xd800 ∨ (0xdfff < c.toNat ∧ c.toNat < 0x110000) := c.valid
  unfold codeUnits
  split
  case isTrue small =>
    have plain : isHighSurrogate c.toNat = false ∧ isLowSurrogate c.toNat = false := by
      simp only [isHighSurrogate,isLowSurrogate,Bool.and_eq_false_iff,decide_eq_false_iff_not]
      omega
    rw [singleton_append]
    cases units with
    | nil => simp [ofCodeUnits,plain]
    | cons b units => simp [ofCodeUnits,plain]
  case isFalse large =>
    have pair : (isHighSurrogate (0xd800 + (c.toNat - 0x10000) / 0x400) &&
        isLowSurrogate (0xdc00 + (c.toNat - 0x10000) % 0x400)) = true := by
      simp only [isHighSurrogate,isLowSurrogate,Bool.and_eq_true,decide_eq_true_eq]
      omega
    have whole : 0x10000 + (0xd800 + (c.toNat - 0x10000) / 0x400 - 0xd800) * 0x400 +
        (0xdc00 + (c.toNat - 0x10000) % 0x400 - 0xdc00) = c.toNat := by omega
    simp only [cons_append,nil_append,ofCodeUnits]
    rw [if_pos pair,whole,Char.ofNat_toNat]

theorem ofCodeUnits_flatMap (t : Text) : ofCodeUnits (t.flatMap codeUnits) = t := by
  induction t with
  | nil => rfl
  | cons c t ih => rw [flatMap_cons,ofCodeUnits_cons,ih]

theorem readUnits_hex {c : Char} {left unit digit : Nat} (t : Text) (v : hexValue c = some digit) :
    readUnits (.hex (left + 1) unit) (c :: t) = readUnits (.hex left (16 * unit + digit)) t := by
  simp [readUnits,v]

theorem readUnits_lastHex {c : Char} {unit digit : Nat} (t : Text) (v : hexValue c = some digit) :
    readUnits (.hex 0 unit) (c :: t) =
      (readUnits .plain t).map fun read => ⟨(16 * unit + digit) :: read.1,read.2⟩ := by
  simp [readUnits,v]

theorem readUnits_escapeChar (c : Char) (t : Text) : readUnits .plain (escapeChar c ++ t) =
      (readUnits .plain t).map fun read => ⟨codeUnits c ++ read.1,read.2⟩ := by
  have marks : backslash ≠ quotationMark := by decide
  unfold escapeChar
  cases hit : shortEscapes.find? fun escape => escape.1 = c with
  | some escape =>
    have named : escape.1 = c := by simpa using find?_some hit
    have letters : ∀ escape ∈ shortEscapes, unescape escape.2 = some escape.1 ∧ escape.2 ≠ 'u' := by
      decide
    obtain ⟨back,other⟩ := letters escape (mem_of_find?_eq_some hit)
    rw [named] at back
    simp only [cons_append,nil_append]
    rw [readUnits,if_neg marks,if_pos rfl,readUnits,if_neg other,back]
  | none =>
    have special : c ≠ quotationMark ∧ c ≠ backslash := by
      constructor
      · intro same
        subst same
        contradiction
      · intro same
        subst same
        contradiction
    dsimp only
    split
    case isTrue control =>
      have unit : codeUnits c = [c.toNat] := by
        rw [codeUnits,if_pos (by omega)]
      have ds : ∀ n < 0x20, hexValue (Nat.digitChar (n / 16)) = some (n / 16) ∧
          hexValue (Nat.digitChar (n % 16)) = some (n % 16) := by decide
      obtain ⟨high,low⟩ := ds c.toNat control
      have zero : hexValue '0' = some 0 := by decide
      have whole : 16 * (16 * (16 * (16 * 0 + 0) + 0) + c.toNat / 16) + c.toNat % 16 = c.toNat := by
        omega
      simp only [cons_append,nil_append]
      rw [readUnits,if_neg marks,if_pos rfl,readUnits,if_pos rfl,readUnits_hex _ zero,
        readUnits_hex _ zero,readUnits_hex _ high,readUnits_lastHex _ low,whole,unit]
      rfl
    case isFalse plain =>
      rw [singleton_append,readUnits,if_neg special.1,if_neg special.2,if_neg plain]

theorem readString_quote (t rest : Text) :
    readString (t.flatMap escapeChar ++ quotationMark :: rest) = some ⟨t,rest⟩ := by
  have units : readUnits .plain (t.flatMap escapeChar ++ quotationMark :: rest) =
      some ⟨t.flatMap codeUnits,rest⟩ := by
    induction t with
    | nil => rfl
    | cons c t ih =>
      rw [flatMap_cons,append_assoc,readUnits_escapeChar,ih]
      rfl
  rw [readString,units,Option.map_some,ofCodeUnits_flatMap]

end Strings

section Writing

def literals : List (Text × Json) :=
  [(['n','u','l','l'],.null),(['t','r','u','e'],.bool true),(['f','a','l','s','e'],.bool false)]

def numberText : Number → Text
  | .finite value => Decimal.numberText value
  | _ => ['n','u','l','l']

mutual

/-- `JSON.stringify`. -/
def stringify : Json → Text
  | .null => ['n','u','l','l']
  | .bool true => ['t','r','u','e']
  | .bool false => ['f','a','l','s','e']
  | .number value => numberText value
  | .string text => quote text
  | .array [] => ['[',']']
  | .array (item :: items) => '[' :: (stringify item ++ laterItems items)
  | .object [] => ['\x7b','\x7d']
  | .object ((key,value) :: fields) =>
    '\x7b' :: (quote key ++ ':' :: (stringify value ++ laterFields fields))

def laterItems : List Json → Text
  | [] => [']']
  | item :: items => ',' :: (stringify item ++ laterItems items)

def laterFields : List (Text × Json) → Text
  | [] => ['\x7d']
  | (key,value) :: fields => ',' :: (quote key ++ ':' :: (stringify value ++ laterFields fields))

end

end Writing

section Reading

def isBlank (c : Char) : Bool := [' ','\t','\n','\r'].contains c

def skipSpace (text : Text) : Text := text.dropWhile isBlank

def readScalar (text : Text) : Option (Json × Text) :=
  match literals.find? fun literal => literal.1.isPrefixOf text with
  | some literal => some ⟨literal.2,text.drop literal.1.length⟩
  | none => (Decimal.readNumber text).map fun read => ⟨.number read.1,read.2⟩

def readField (value : Text → Option (Json × Text)) (text : Text) : Option ((Text × Json) × Text) :=
  match skipSpace text with
  | [] => none
  | c :: text =>
    if c = quotationMark then do
      let ⟨key,text⟩ ← readString text
      match skipSpace text with
      | ':' :: text => (value text).map fun read => ⟨(key,read.1),read.2⟩
      | _ => none
    else none

def objectOf (fields : List (Text × Json)) : Json := .object (Record.fromEntries fields).entries

mutual

/-- The value that a text begins with. Every turn takes a character, so as many turns as the
text has characters are enough. -/
def readValue : Nat → Text → Option (Json × Text)
  | 0, _ => none
  | turns + 1, text =>
    match skipSpace text with
    | [] => none
    | c :: text =>
      if c = quotationMark then (readString text).map fun read => ⟨.string read.1,read.2⟩
      else if c = '[' then if (skipSpace text).head? = some ']' then some ⟨.array [],(skipSpace text).tail⟩ else do
          let ⟨item,text⟩ ← readValue turns text
          let ⟨items,text⟩ ← readLaterItems turns text
          some ⟨.array (item :: items),text⟩
      else if c = '\x7b' then if (skipSpace text).head? = some '\x7d' then some ⟨.object [],(skipSpace text).tail⟩
        else do
          let ⟨field,text⟩ ← readField (readValue turns) text
          let ⟨fields,text⟩ ← readLaterFields turns text
          some ⟨objectOf (field :: fields),text⟩
      else readScalar (c :: text)

def readLaterItems : Nat → Text → Option (List Json × Text)
  | 0, _ => none
  | turns + 1, text =>
    match skipSpace text with
    | [] => none
    | c :: text =>
      if c = ']' then some ⟨[],text⟩
      else if c = ',' then do
        let ⟨item,text⟩ ← readValue turns text
        let ⟨items,text⟩ ← readLaterItems turns text
        some ⟨item :: items,text⟩
      else none

def readLaterFields : Nat → Text → Option (List (Text × Json) × Text)
  | 0, _ => none
  | turns + 1, text =>
    match skipSpace text with
    | [] => none
    | c :: text =>
      if c = '\x7d' then some ⟨[],text⟩
      else if c = ',' then do
        let ⟨field,text⟩ ← readField (readValue turns) text
        let ⟨fields,text⟩ ← readLaterFields turns text
        some ⟨field :: fields,text⟩
      else none

end

/-- `JSON.parse`, where a text that it throws on has no value. -/
def parse (text : Text) : Option Json :=
  match readValue text.length text with
  | some read => if read.2.all isBlank then some read.1 else none
  | none => none

end Reading

end Keiko.Library.Json
