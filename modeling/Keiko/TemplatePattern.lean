import Keiko.Library.Text

/-! Syntax and parser of the closed pattern language of issue templates.
A group's body is read by the parser one nesting level further in, so the depth
bound of the source is the recursion of `alternationAt`; each loop of the source
runs on a budget of one round for each remaining character. -/
namespace Keiko.TemplatePattern
open Keiko.Library Option

def patternCharsMax : Nat := 200
def programMax : Nat := 4096
def depthMax : Nat := 16

abbrev UnitTest := Int → Bool

inductive Assertion where
  | start
  | stop
  | boundary
  | notBoundary
  deriving DecidableEq, Repr

/-- The syntax tree; a repetition without an upper count is the source's `Infinity`. -/
inductive PatternNode where
  | empty
  | unit (test : UnitTest)
  | assert (assertion : Assertion)
  | seq (items : List PatternNode)
  | alt (items : List PatternNode)
  | repetition (body : PatternNode) (min : Nat) (max : Option Nat)

def isDigit : UnitTest := fun unit => 48 ≤ unit && unit ≤ 57
def isWord : UnitTest := fun unit =>
  isDigit unit || (65 ≤ unit && unit ≤ 90) || (97 ≤ unit && unit ≤ 122) || unit == 95
def isSpace : UnitTest := Text.isSpaceCode
def isLineTerminator : UnitTest := fun unit =>
  unit == 10 || unit == 13 || unit == 8232 || unit == 8233
def not (test : UnitTest) : UnitTest := fun unit => !test unit
def literal (code : Int) : UnitTest := fun unit => unit == code

def classEscapes : Char → Option UnitTest
  | 'd' => some isDigit
  | 'D' => some (not isDigit)
  | 'w' => some isWord
  | 'W' => some (not isWord)
  | 's' => some isSpace
  | 'S' => some (not isSpace)
  | _ => none

def controlEscapes : Char → Option Int
  | 't' => some 9
  | 'n' => some 10
  | 'v' => some 11
  | 'f' => some 12
  | 'r' => some 13
  | _ => none

structure Quantifier where
  width : Nat
  min : Nat
  max : Option Nat
  deriving DecidableEq, Repr

def codeAt (chars : Text) (index : Nat) : Int :=
  match chars[index]? with
  | some c => c.toNat
  | none => -1

/-- The quantifier `{n}`, `{n,}` or `{n,m}` at the head of a text; a count past the
program bound becomes the refused range, whose minimum exceeds its maximum. -/
def braceQuantifier : Text → Option Quantifier
  | '{' :: rest =>
    let low := rest.takeWhile Text.isDigit
    if low.isEmpty then none
    else
      let min := Text.decimal low
      let quantifier (width : Nat) (max : Option Nat) : Quantifier :=
        if programMax < min ∨ ∃ count ∈ max, programMax < count then ⟨width, 1, some 0⟩
        else ⟨width, min, max⟩
      match rest.drop low.length with
      | '}' :: _ => some (quantifier (low.length + 2) (some min))
      | ',' :: more =>
        let high := more.takeWhile Text.isDigit
        match more.drop high.length with
        | '}' :: _ =>
          some (quantifier (low.length + high.length + 3) (if high.isEmpty then none else some (Text.decimal high)))
        | _ => none
      | _ => none
  | _ => none

def quantifierAt (chars : Text) (index : Nat) : Option Quantifier :=
  match chars[index]? with
  | some '*' => some ⟨1, 0, none⟩
  | some '+' => some ⟨1, 1, none⟩
  | some '?' => some ⟨1, 0, some 1⟩
  | some '{' => braceQuantifier ((chars.drop index).take patternCharsMax)
  | _ => none

mutual
def holdsRepeatOrAlternation : PatternNode → Bool
  | .repetition .. => true
  | .alt _ => true
  | .seq items => anyHoldsRepeatOrAlternation items
  | _ => false
def anyHoldsRepeatOrAlternation : List PatternNode → Bool
  | [] => false
  | item :: items => holdsRepeatOrAlternation item || anyHoldsRepeatOrAlternation items
end

def isHexDigit (c : Char) : Bool :=
  Text.isDigit c || ('a' ≤ c && c ≤ 'f') || ('A' ≤ c && c ≤ 'F')

def hexValue (c : Char) : Nat :=
  if Text.isDigit c then c.toNat - '0'.toNat
  else if 'a' ≤ c then c.toNat - 'a'.toNat + 10
  else c.toNat - 'A'.toNat + 10

def hex (chars : Text) (start width : Nat) : Option Int :=
  let digits := (chars.drop start).take width
  if digits.length = width ∧ digits.all isHexDigit then
    some (digits.foldl (fun value digit => 16 * value + hexValue digit) 0 : Nat)
  else none

/-- What an escape or a class member reads: its test, and the code unit it names
when it names one (only then may it end a range). -/
structure Escape where
  test : UnitTest
  code : Option Int
  width : Nat

def numericEscape (chars : Text) (index : Nat) : Option Escape :=
  if chars[index + 1]? = some '0' then if isDigit (codeAt chars (index + 2)) then none else some ⟨literal 0, some 0, 2⟩
  else
    let width := if chars[index + 1]? = some 'x' then 2 else 4
    (hex chars (index + 2) width).map fun code => ⟨literal code, some code, 2 + width⟩

def isAsciiAlphanumeric (c : Char) : Bool :=
  Text.isDigit c || ('a' ≤ c && c ≤ 'z') || ('A' ≤ c && c ≤ 'Z')

def characterEscape (chars : Text) (index : Nat) : Option Escape :=
  match chars[index + 1]? with
  | none => none
  | some letter =>
    match controlEscapes letter with
    | some controlled => some ⟨literal controlled, some controlled, 2⟩
    | none =>
      if letter = '0' ∨ letter = 'x' ∨ letter = 'u' then numericEscape chars index
      -- Any other letter or digit would be a back-reference, a property or a legacy escape.
      else if isAsciiAlphanumeric letter then none
      else some ⟨literal (codeAt chars (index + 1)), some (codeAt chars (index + 1)), 2⟩

def classEscape (chars : Text) (index : Nat) : Option Escape :=
  match chars[index + 1]?.bind classEscapes with
  | some test => some ⟨test, none, 2⟩
  | none => characterEscape chars index

def classMember (chars : Text) (index : Nat) : Option Escape :=
  if chars[index]? = some '\\' then classEscape chars index
  else some ⟨literal (codeAt chars index), some (codeAt chars index), 1⟩

def classItem (chars : Text) (index : Nat) : Option (UnitTest × Nat) := do
  let first ← if chars[index]?.isNone then none else classMember chars index
  let index := index + first.width
  let opened := chars[index]? = some '-' ∧ chars[index + 1]? ≠ some ']'
  match first.code with
  | none => some (first.test, index)
  | some low =>
    if ¬opened ∨ chars.length ≤ index + 1 then some (first.test, index)
    else
      let last ← classMember chars (index + 1)
      let high ← last.code
      if high < low then none
      else some (fun unit => low ≤ unit && unit ≤ high, index + 1 + last.width)

def classItems (chars : Text) : Nat → Nat → List UnitTest → Option (List UnitTest × Nat)
  | 0, _, _ => none
  | rounds + 1, index, members =>
    if chars[index]? = some ']' then some (members, index + 1)
    else do
      let (member, index) ← classItem chars index
      classItems chars rounds index (members ++ [member])

def characterClass (chars : Text) (index : Nat) : Option (PatternNode × Nat) := do
  let negate := chars[index + 1]? = some '^'
  let start := if negate then index + 2 else index + 1
  let (members, index) ← classItems chars (chars.length + 1) start []
  return (.unit fun unit => members.any (fun test => test unit) != decide negate, index)

def escape (chars : Text) (index : Nat) : Option (PatternNode × Nat) :=
  match chars[index + 1]? with
  | some 'b' => some (.assert .boundary, index + 2)
  | some 'B' => some (.assert .notBoundary, index + 2)
  | _ => (classEscape chars index).map fun escape => (.unit escape.test, index + escape.width)

section
variable (chars : Text) (nested : Nat → Option (PatternNode × Nat))

/-- A group; `nested` reads its body one nesting level further in. -/
def group (index : Nat) : Option (PatternNode × Nat) :=
  let plain := chars[index + 1]? ≠ some '?'
  if ¬plain ∧ chars[index + 2]? ≠ some ':' then none
  else do
    let (body, index) ← nested (if plain then index + 1 else index + 3)
    if chars[index]? = some ')' then some (body, index + 1) else none

def atom (index : Nat) : Option (PatternNode × Nat) :=
  match chars[index]? with
  | some '(' => group chars nested index
  | some '[' => characterClass chars index
  | some '\\' => escape chars index
  | some '.' => some (.unit (not isLineTerminator), index + 1)
  | some '^' => some (.assert .start, index + 1)
  | some '$' => some (.assert .stop, index + 1)
  | some c => some (.unit (literal c.toNat), index + 1)
  | none => some (.unit (literal 0), index + 1)

def isAssertion : PatternNode → Bool
  | .assert _ => true
  | _ => false

def skipLazySuffix (index : Nat) : Nat :=
  if chars[index]? = some '?' then index + 1 else index

def term (index : Nat) : Option (PatternNode × Nat) :=
  if (quantifierAt chars index).isSome then none
  else do
    let (atom, index) ← atom chars nested index
    match quantifierAt chars index with
    | none => some (atom, index)
    | some quantifier =>
      if isAssertion atom ∨ ∃ max ∈ quantifier.max, max < quantifier.min then none
      else
        let index := skipLazySuffix chars (index + quantifier.width)
        if (quantifierAt chars index).isSome ∨ holdsRepeatOrAlternation atom then none
        else some (.repetition atom quantifier.min quantifier.max, index)

def sequenceItems : Nat → Nat → List PatternNode → Option (List PatternNode × Nat)
  | 0, _, _ => none
  | rounds + 1, index, items =>
    if chars[index]? = none ∨ chars[index]? = some '|' ∨ chars[index]? = some ')' then some (items, index)
    else do
      let (item, index) ← term chars nested index
      sequenceItems rounds index (items ++ [item])

def sequence (index : Nat) : Option (PatternNode × Nat) := do
  let (items, index) ← sequenceItems chars nested (chars.length + 1) index []
  match items with
  | [item] => return (item, index)
  | items => return (.seq items, index)

def alternationItems : Nat → Nat → List PatternNode → Option (List PatternNode × Nat)
  | 0, _, _ => none
  | rounds + 1, index, items => do
    let (item, index) ← sequence chars nested index
    if chars[index]? = some '|' then alternationItems rounds (index + 1) (items ++ [item])
    else some (items ++ [item], index)

def alternation (index : Nat) : Option (PatternNode × Nat) := do
  let (items, index) ← alternationItems chars nested (chars.length + 1) index []
  match items with
  | [item] => return (item, index)
  | items => return (.alt items, index)

end

/-- The alternation of a pattern with `levels` nesting levels left for its groups. -/
def alternationAt (chars : Text) : Nat → Nat → Option (PatternNode × Nat)
  | 0 => alternation chars (fun _ => none)
  | levels + 1 => alternation chars (alternationAt chars levels)

def parse (chars : Text) : Option PatternNode := do
  let (node, index) ← alternationAt chars depthMax 0
  if index = chars.length then some node else none

mutual
def WellFormed : PatternNode → Prop
  | .seq items => AllWellFormed items
  | .alt items => items ≠ [] ∧ AllWellFormed items
  | .repetition body min max => WellFormed body ∧ ∀ count ∈ max, min ≤ count
  | _ => True

def AllWellFormed : List PatternNode → Prop
  | [] => True
  | item :: items => WellFormed item ∧ AllWellFormed items
end

theorem AllWellFormed.snoc {xs : List PatternNode} {item : PatternNode}
    (valid : AllWellFormed xs) (last : WellFormed item) : AllWellFormed (xs ++ [item]) := by
  induction xs with
  | nil => exact ⟨last,trivial⟩
  | cons head tail ih => exact ⟨valid.1,ih valid.2⟩

variable {chars : Text} {n : PatternNode} {stop i : Nat}

theorem characterClass_wellFormed
    (read : characterClass chars i = some (n,stop)) : WellFormed n := by
  simp only [characterClass,bind,bind_eq_some_iff,pure,some.injEq,Prod.mk.injEq] at read
  obtain ⟨_,_,rfl,_⟩ := read
  trivial

theorem escape_wellFormed (read : escape chars i = some (n,stop)) : WellFormed n := by
  unfold escape at read
  split at read
  · cases read
    trivial
  · cases read
    trivial
  · obtain ⟨_,_,same⟩ := map_eq_some_iff.mp read
    cases same
    trivial

section
variable {chars : Text} {nested : Nat → Option (PatternNode × Nat)}
  (ready : ∀ index node stop, nested index = some (node,stop) → WellFormed node) {res xs : List PatternNode}
include ready

theorem group_wellFormed {i stop : Nat} {n : PatternNode}
    (read : group chars nested i = some (n,stop)) : WellFormed n := by
  dsimp only [group] at read
  split at read
  · cases read
  · obtain ⟨⟨body,after⟩,inner,rest⟩ := bind_eq_some_iff.mp read
    split at rest
    · cases rest
      exact ready _ _ _ inner
    · cases rest

theorem atom_wellFormed {i stop : Nat} {n : PatternNode}
    (read : atom chars nested i = some (n,stop)) : WellFormed n := by
  unfold atom at read
  split at read
  · exact group_wellFormed ready read
  · exact characterClass_wellFormed read
  · exact escape_wellFormed read
  all_goals
    cases read
    trivial

theorem term_wellFormed {i stop : Nat} {n : PatternNode}
    (read : term chars nested i = some (n,stop)) : WellFormed n := by
  unfold term at read
  split at read
  · cases read
  · obtain ⟨⟨inner,after⟩,first,rest⟩ := bind_eq_some_iff.mp read
    have valid := atom_wellFormed ready first
    dsimp only at rest
    split at rest
    · cases rest
      exact valid
    · split at rest
      · cases rest
      · next ordered =>
        split at rest
        · cases rest
        · cases rest
          refine ⟨valid,fun count mem => Nat.le_of_not_lt fun less => ordered (.inr ?_)⟩
          exact ⟨count,mem,less⟩

theorem sequenceItems_wellFormed {rounds i stop : Nat} (valid : AllWellFormed xs)
    (read : sequenceItems chars nested rounds i xs = some (res,stop)) :
    AllWellFormed res := by
  induction rounds generalizing i xs with
  | zero => cases read
  | succ rounds ih =>
    unfold sequenceItems at read
    split at read
    · cases read
      exact valid
    · obtain ⟨⟨item,after⟩,a,rest⟩ := bind_eq_some_iff.mp read
      exact ih (valid.snoc (term_wellFormed ready a)) rest

theorem sequence_wellFormed {i stop : Nat} {n : PatternNode}
    (read : sequence chars nested i = some (n,stop)) : WellFormed n := by
  obtain ⟨⟨xs,after⟩,inner,rest⟩ := bind_eq_some_iff.mp read
  have valid := sequenceItems_wellFormed ready (show AllWellFormed [] from trivial) inner
  dsimp only at rest
  split at rest
  · cases rest
    exact valid.1
  · cases rest
    exact valid

theorem alternationItems_wellFormed {rounds i stop : Nat} (valid : AllWellFormed xs)
    (read : alternationItems chars nested rounds i xs = some (res,stop)) :
    res ≠ [] ∧ AllWellFormed res := by
  induction rounds generalizing i xs with
  | zero => cases read
  | succ rounds ih =>
    obtain ⟨⟨item,after⟩,a,rest⟩ := bind_eq_some_iff.mp read
    have more := valid.snoc (sequence_wellFormed ready a)
    dsimp only at rest
    split at rest
    · exact ih more rest
    · cases rest
      exact ⟨by simp,more⟩

theorem alternation_wellFormed {i stop : Nat} {n : PatternNode}
    (read : alternation chars nested i = some (n,stop)) : WellFormed n := by
  obtain ⟨⟨xs,after⟩,inner,rest⟩ := bind_eq_some_iff.mp read
  have valid := alternationItems_wellFormed ready (show AllWellFormed [] from trivial) inner
  dsimp only at rest
  split at rest
  · cases rest
    exact valid.2.1
  · cases rest
    exact valid

end

theorem alternationAt_wellFormed {levels : Nat}
    (read : alternationAt chars levels i = some (n,stop)) : WellFormed n := by
  induction levels generalizing i stop n with
  | zero => exact alternation_wellFormed (fun _ _ _ inner => by cases inner) read
  | succ levels ih => exact alternation_wellFormed (fun _ _ _ inner => ih inner) read

theorem parse_wellFormed {tree : PatternNode} (read : parse chars = some tree) : WellFormed tree := by
  obtain ⟨⟨n,stop⟩,inner,rest⟩ := bind_eq_some_iff.mp read
  dsimp only at rest
  split at rest
  · cases rest
    exact alternationAt_wellFormed inner
  · cases rest

end Keiko.TemplatePattern
