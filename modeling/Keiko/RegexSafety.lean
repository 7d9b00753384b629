import Keiko.Library.Pattern

/-! The gate for search patterns of users: three scans of the pattern's text, the rewriting of the
pattern into an expression of the supported grammar, and its compilation. A position of the source
is the text that is left from it. -/
namespace Keiko.RegexSafety
open Keiko.Library Keiko.Library.Pattern

def maxQueryLength : ℕ := 200

def regexMetaChars : Units := units "\\()[]\x7b\x7d+*?|"

def groupOrClassQuantifierChars : Units := units "+*\x7b"

section Scans

def hasQuantifiedDelimiterPairFrom (opening closing : CodeUnit) : Bool → Units → Bool
  | _, [] => false
  | isOpen, c :: rest =>
    if c = opening then hasQuantifiedDelimiterPairFrom opening closing true rest
    else if c = closing then (isOpen && rest.head?.any groupOrClassQuantifierChars.contains) ||
        hasQuantifiedDelimiterPairFrom opening closing false rest
    else hasQuantifiedDelimiterPairFrom opening closing isOpen rest

variable (source : Units)

def hasQuantifiedDelimiterPair (opening closing : CodeUnit) : Bool :=
  hasQuantifiedDelimiterPairFrom opening closing false source

def hasDangerousGroupOrClassRepetition : Bool :=
  hasQuantifiedDelimiterPair source (unit '(') (unit ')') ||
    hasQuantifiedDelimiterPair source (unit '[') (unit ']')

def atomEnd : Units → Option Units
  | [] => none
  | c :: rest =>
    if c = unit '\\' then match rest with
      | [] => none
      | escaped :: rest => if CodeUnit.isLineTerminator escaped then none else some rest
    else if regexMetaChars.contains c then none
    else some rest

def boundedQuantifierEnd : Option Units :=
  let text := source.drop 1
  let behind := text.dropWhile CodeUnit.isDigit
  let cursor :=
    if behind.head? = some (unit ',') then (behind.drop 1).dropWhile CodeUnit.isDigit else behind
  if behind.length = text.length then none
  else if cursor.head? = some (unit '\x7d') then some (cursor.drop 1)
  else none

def quantifierEnd : Units → Option Units
  | [] => none
  | c :: rest =>
    if c = unit '+' || c = unit '*' then some rest
    else if c = unit '\x7b' then boundedQuantifierEnd (c :: rest)
    else none

def quantifiedAtomEnd : Option Units := (atomEnd source).bind quantifierEnd

def hasAdjacentQuantifiedAtoms : Units → Bool
  | [] => false
  | c :: rest =>
    ((quantifiedAtomEnd (c :: rest)).bind quantifiedAtomEnd).isSome ||
      hasAdjacentQuantifiedAtoms rest

/-- `rest` is the text behind the opening bracket. -/
def characterClassEnd : Units → Option Units
  | [] => none
  | c :: rest =>
    if c = unit '\\' then match rest with
      | [] => none
      | _ :: rest => characterClassEnd rest
    else if c = unit ']' then some rest
    else characterClassEnd rest

structure GroupScan where
  behind : Units
  containsRepetition : Bool
  deriving DecidableEq

def adjustedGroupDepth (depth : ℕ) (c : CodeUnit) : ℕ :=
  if c = unit '(' then depth + 1 else if c = unit ')' then depth - 1 else depth

def isRepetitionStart : Bool :=
  source.head? = some (unit '+') || source.head? = some (unit '*') ||
    (boundedQuantifierEnd source).isSome

def scanGroupFrom : ℕ → ℕ → Bool → Units → Option GroupScan
  | 0, _, _, _ => none
  | _ + 1, _, _, [] => none
  | fuel + 1, depth, containsRepetition, c :: rest =>
    if c = unit '\\' then scanGroupFrom fuel depth containsRepetition (rest.drop 1)
    else if c = unit '[' then (characterClassEnd rest).bind (scanGroupFrom fuel depth containsRepetition)
    else if adjustedGroupDepth depth c = 0 then some ⟨rest,containsRepetition⟩
    else scanGroupFrom fuel (adjustedGroupDepth depth c) (isRepetitionStart (c :: rest) || containsRepetition) rest

def scanGroup : Units → Option GroupScan
  | [] => none
  | c :: rest => if c = unit '(' then scanGroupFrom (rest.length + 1) 1 false rest else none

def concatenatedQuantifiedGroups : Bool :=
  match scanGroup source with
  | none => false
  | some first =>
    first.containsRepetition && (scanGroup first.behind).any GroupScan.containsRepetition

def hasConcatenatedQuantifiedGroupsFrom : ℕ → Units → Bool
  | 0, _ => false
  | _ + 1, [] => false
  | fuel + 1, c :: rest =>
    if c = unit '\\' then hasConcatenatedQuantifiedGroupsFrom fuel (rest.drop 1)
    else if c = unit '[' then (characterClassEnd rest).any (hasConcatenatedQuantifiedGroupsFrom fuel)
    else concatenatedQuantifiedGroups (c :: rest) || hasConcatenatedQuantifiedGroupsFrom fuel rest

def hasConcatenatedQuantifiedGroups : Bool :=
  hasConcatenatedQuantifiedGroupsFrom (source.length + 1) source

end Scans

section Rewriting

def regexEscapeToken (c : CodeUnit) : Option Units :=
  if (units "bBdDsSwW").contains c then some [unit '\\',c] else none

def regexOperatorToken (c : CodeUnit) : Option Units :=
  if (units ".()*+?^$").contains c then some [c] else none

def escapedSource (c : CodeUnit) : Units := (regexEscapeToken c).getD (literal c)

def safeRegexCharacterClassFrom : Bool → Units → Option (Units × Units)
  | _, [] => none
  | first, c :: rest =>
    if c = unit ']' then some ([unit ']'],rest)
    else if c = unit '\\' then match rest with
      | [] => none
      | escaped :: rest =>
        (safeRegexCharacterClassFrom false rest).map fun more =>
          (escapedSource escaped ++ more.1,more.2)
    else if c = unit '^' && first then
      (safeRegexCharacterClassFrom false rest).map fun more => (unit '^' :: more.1,more.2)
    else (safeRegexCharacterClassFrom false rest).map fun more => (literal c ++ more.1,more.2)

def safeRegexCharacterClass (rest : Units) : Option (Units × Units) :=
  (safeRegexCharacterClassFrom true rest).map fun more => (unit '[' :: more.1,more.2)

def safeRegexSourceFrom : ℕ → Units → Option Units
  | _, [] => some []
  | 0, _ :: _ => none
  | fuel + 1, c :: rest =>
    if units "(?:" <+: c :: rest then
      (safeRegexSourceFrom fuel (rest.drop 2)).map (units "(?:" ++ ·)
    else if c = unit '[' then (safeRegexCharacterClass rest).bind fun characterClass =>
        (safeRegexSourceFrom fuel characterClass.2).map (characterClass.1 ++ ·)
    else if c = unit '\\' then match rest with
      | [] => none
      | escaped :: rest => (safeRegexSourceFrom fuel rest).map (escapedSource escaped ++ ·)
    else (safeRegexSourceFrom fuel rest).map ((regexOperatorToken c).getD (literal c) ++ ·)

def safeRegexSource (source : Units) : Option Units := safeRegexSourceFrom source.length source

end Rewriting

section Gate

/-- `RegExp`: the expression and its flags. -/
structure RegExp where
  expression : Alternative
  flags : String
  deriving DecidableEq

def newRegExp (source : Units) (flags : String) : Option RegExp :=
  (expression source).map fun terms => ⟨terms,flags⟩

def regexSafetyIssue (source : Units) : Option String :=
  if maxQueryLength < source.length then some "query regex too long"
  else if hasDangerousGroupOrClassRepetition source then some "query regex unsafe"
  else if hasAdjacentQuantifiedAtoms source then some "query regex unsafe"
  else if hasConcatenatedQuantifiedGroups source then some "query regex unsafe"
  else match safeRegexSource source with
    | none => some "query regex invalid"
    | some safeSource => if (newRegExp safeSource "").isNone then some "query regex invalid" else none

def compileSafeWorkspaceSearchRegex (source : Units) (caseSensitive : Bool) : Except String RegExp :=
  match regexSafetyIssue source with
  | some issue => .error issue
  | none =>
    match safeRegexSource source with
    | none => .error "query regex invalid"
    | some safeSource =>
      match newRegExp safeSource (if caseSensitive then "g" else "gi") with
      | none => .error "Invalid regular expression"
      | some expression => .ok expression

end Gate
end Keiko.RegexSafety
