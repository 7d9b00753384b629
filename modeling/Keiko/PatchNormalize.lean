import Keiko.Library.Decimal
import Keiko.UnifiedDiff

/-! Repair of the shorthand in which models write diffs: the counts of a hunk header are
taken from its body, and a blank line between body lines becomes a blank context line. -/
namespace Keiko.Patch
open Keiko.Library Keiko.UnifiedDiff

section Body

def isFileHeaderPair (line : Text) (rest : List Text) : Bool :=
  startsWith "--- ".toList line && (rest.head?.map (startsWith "+++ ".toList)).getD false

def hunkEnd : List Text → List Text × List Text
  | [] => ([],[])
  | line :: rest =>
    if startsWith "@@".toList line || isFileHeaderPair line rest then ([],line :: rest)
    else (line :: (hunkEnd rest).1,(hunkEnd rest).2)

theorem hunkEnd_length (ls : List Text) : (hunkEnd ls).2.length ≤ ls.length := by
  induction ls with
  | nil => exact le_refl _
  | cons l rest ih =>
    unfold hunkEnd
    split
    · exact le_refl _
    · exact Nat.le_succ_of_le ih

/-- Blank lines become context lines where a body line stands before and another behind. -/
def normalizeBlankContextLines (seenBefore : Bool) : List Text → List Text
  | [] => []
  | line :: rest =>
    (if line = [] ∧ seenBefore ∧ rest.any isHunkBodyLine then [' '] else line) ::
      normalizeBlankContextLines (seenBefore || isHunkBodyLine line) rest

end Body

section Header

structure HunkStarts where
  oldStart : Number
  newStart : Number
  rest : Text
  deriving DecidableEq

/-- `Number` of a text of digits. -/
def readStart (digits : Text) : Number := Binary64.round (Text.decimal digits)

/-- `String` of a number. -/
def startText : Number → Text
  | .finite value => Decimal.numberText value
  | .infinity => "Infinity".toList
  | .negInfinity => "-Infinity".toList
  | .nan => "NaN".toList

/-- The line terminators, which `.` does not match. -/
def isLineTerminator (c : Char) : Bool := c.toNat ∈ [10,13,8232,8233]

def matchHeaderLine (line : Text) : Option HunkHeaderMatch :=
  (matchHunkHeader line).filter fun header => !(line.drop header.width).any isLineTerminator

def parseStarts (line : Text) : Option HunkStarts :=
  match matchHeaderLine line with
  | some header =>
    some ⟨readStart header.oldStart,readStart header.newStart,line.drop header.width⟩
  | none => if Text.trim line = "@@".toList then some ⟨0,1,[]⟩ else none

def formatRange (start : Number) (count : Nat) : Text :=
  startText start ++ ',' :: Text.numberText count

def normalizeHunkHeader (header : Text) (body : List Text) : Text :=
  match parseStarts header with
  | none => header
  | some starts =>
    "@@ -".toList ++ formatRange starts.oldStart (body.countP onOldSide) ++
      " +".toList ++ formatRange starts.newStart (body.countP onNewSide) ++ " @@".toList ++
      starts.rest

end Header

def normalizeLines : List Text → List Text
  | [] => []
  | line :: rest =>
    if !startsWith "@@".toList line then line :: normalizeLines rest
    else
      let normalizedLines := normalizeBlankContextLines false (hunkEnd rest).1
      let body := normalizedLines.filter isHunkBodyLine
      normalizeHunkHeader line body :: normalizedLines ++ normalizeLines (hunkEnd rest).2
  termination_by lines => lines.length
  decreasing_by
    · simp
    · exact Nat.lt_succ_of_le (hunkEnd_length rest)

def normalizeUnifiedDiffHunks (diff : Text) : Text :=
  Text.joinLines (normalizeLines (Text.splitLines diff))

end Keiko.Patch
