import Keiko.Library.EditGraph
import Keiko.Library.Text

/-! A bounded line diff: the greedy search for a script over the region between the common
start and the common end of two sides, its script as blocks of replaced lines, and the blocks
rendered as unified hunks. A typed array is the list of its numbers, read and written by index. -/
namespace Keiko.LineDiff
open Keiko.Library

section Sides

structure LineDiffSide where
  lines : List Text
  missingFinalNewline : Bool
  deriving DecidableEq, Repr

/-- One replaced region: the old lines from `oldStart` up to `oldEnd` became the new ones. -/
structure LineChangeBlock where
  oldStart : Nat
  oldEnd : Nat
  newStart : Nat
  newEnd : Nat
  deriving DecidableEq, Repr

def maxComparisons : ℤ := 2000000

inductive LineDiffBound where
  | distance
  | work
  deriving DecidableEq, Repr

structure LineChangeSearch where
  blocks : List LineChangeBlock
  bound : Option LineDiffBound
  deriving DecidableEq, Repr

def contextLines : Nat := 3

def noNewlineMarker : Text := "\\ No newline at end of file".toList

abbrev LineEdit := EditMove

/-- `text.replace(/\n$/u, "")`. -/
def withoutFinalNewline (text : Text) : Text :=
  if text.getLast? = some '\n' then text.dropLast else text

def lineDiffSide (text : Text) : LineDiffSide where
  lines := if text = [] then [] else Text.splitLines (withoutFinalNewline text)
  missingFinalNewline := !text.isEmpty && text.getLast? != some '\n'

def comparisonKeys (side : LineDiffSide) : List Text :=
  match side.missingFinalNewline, side.lines.getLast? with
  | true, some last => side.lines.dropLast ++ [last ++ ['\n']]
  | _, _ => side.lines

end Sides

section Trimming

def commonPrefixLength : List Text → List Text → Nat
  | a :: as, b :: bs => if a = b then commonPrefixLength as bs + 1 else 0
  | _, _ => 0

def commonSuffixLength (a b : List Text) (start : Nat) : Nat :=
  let limit := min a.length b.length - start
  commonPrefixLength (a.reverse.take limit) (b.reverse.take limit)

/-- The number of a line, in the table of the lines seen so far in the order of their numbers. -/
def lineId (ids : List Text) (line : Text) : Nat × List Text :=
  match ids.idxOf? line with
  | some id => (id,ids)
  | none => (ids.length,ids ++ [line])

def lineIds : List Text → List Text → List Nat × List Text
  | [], ids => ([],ids)
  | line :: lines, ids =>
    let (id,ids) := lineId ids line
    let (out,ids) := lineIds lines ids
    (id :: out,ids)

end Trimming

section Search

/-- `values[index]`, which is nothing outside of the array. -/
def itemAt (values : List Nat) (index : ℤ) : Option Nat :=
  if index < 0 then none else values[index.toNat]?

/-- `values[index] = value`, which a typed array ignores outside of its bounds. -/
def writeAt (values : List Nat) (index : ℤ) (value : Nat) : List Nat :=
  if index < 0 then values else values.set index.toNat value

def movesDown (diagonal : ℤ) (d left right : Nat) : Bool :=
  diagonal == -(d : ℤ) || (diagonal != d && decide (left < right))

def snakeEnd (a b : List Nat) (x : Nat) (diagonal : ℤ) : Nat :=
  if x < a.length ∧ x - diagonal < b.length ∧ itemAt a x = itemAt b (x - diagonal) then snakeEnd a b (x + 1) diagonal
  else x
  termination_by a.length - x

inductive Visit where
  | exhausted
  | reached
  | continued (frontier : List Nat) (budget : ℤ)

def diagonals (d : Nat) : List ℤ := (List.range (d + 1)).map fun step : Nat => 2 * (step : ℤ) - d

def visitDiagonals (a b : List Nat) (offset : ℤ) (d : Nat) (frontier : List Nat) (budget : ℤ) : List ℤ → Visit
  | [] => .continued frontier budget
  | diagonal :: rest =>
    let left := (itemAt frontier (offset + diagonal - 1)).getD 0
    let right := (itemAt frontier (offset + diagonal + 1)).getD 0
    let start := if movesDown diagonal d left right then right else left + 1
    let x := snakeEnd a b start diagonal
    let budget := budget - (x - start + 1 : ℤ)
    if budget < 0 then .exhausted
    else
      let frontier := writeAt frontier (offset + diagonal) x
      if a.length ≤ x ∧ b.length ≤ x - diagonal then .reached
      else visitDiagonals a b offset d frontier budget rest

/-- The loop over the distances, with the number of them that are left. Before each step the
trace takes the frontier around the diagonals that the walk back reads. -/
def forwardFrom (a b : List Nat) (maxDistance d : Nat) (frontier : List Nat) (budget : ℤ)
    (trace : List (List Nat)) : Nat → Except LineDiffBound (List (List Nat))
  | 0 => .error .distance
  | remaining + 1 =>
    let offset := maxDistance + 1
    let trace := trace ++ [(frontier.take (offset + d + 2)).drop (offset - d - 1)]
    match visitDiagonals a b offset d frontier budget (diagonals d) with
    | .exhausted => .error .work
    | .reached => .ok trace
    | .continued frontier budget =>
      forwardFrom a b maxDistance (d + 1) frontier budget trace remaining

def forwardTrace (a b : List Nat) (maxDistance : Nat) : Except LineDiffBound (List (List Nat)) :=
  forwardFrom a b maxDistance 0 (List.replicate (2 * maxDistance + 3) 0) maxComparisons [] (maxDistance + 1)

def frontierAt (trace : List (List Nat)) (d : Nat) (diagonal : ℤ) : Nat :=
  itemAt (trace.getD d []) (diagonal + d + 1) |>.getD 0

/-- The walk back from a position that was reached with fewer edits than the bound says; the
edits come out last first. -/
def backtrackFrom (trace : List (List Nat)) : Nat → ℤ → ℤ → List LineEdit
  | 0, _, _ => []
  | d + 1, x, y =>
    let diagonal := x - y
    let left := frontierAt trace d (diagonal - 1)
    let down := movesDown diagonal d left (frontierAt trace d (diagonal + 1))
    let previousDiagonal := if down then diagonal + 1 else diagonal - 1
    let previousX : ℤ := frontierAt trace d previousDiagonal
    let previousY := previousX - previousDiagonal
    -- The kept lines behind the edit, up to the first of the two bounds.
    List.replicate (min (x - previousX) (y - previousY)).toNat .keep ++
      (if 0 < d then [if down then .add else .remove] else []) ++
      backtrackFrom trace d previousX previousY

def backtrackEdits (trace : List (List Nat)) (aLength bLength : Nat) : List LineEdit :=
  backtrackFrom trace trace.length aLength bLength

end Search

section Blocks

def closeBlock (opened : Option (Nat × Nat)) (oldPosition newPosition : Nat) : List LineChangeBlock :=
  (opened.map fun start => ⟨start.1,oldPosition,start.2,newPosition⟩).toList

def blocksFrom (oldPosition newPosition : Nat) (opened : Option (Nat × Nat)) : List LineEdit → List LineChangeBlock
  | [] => closeBlock opened oldPosition newPosition
  | .keep :: edits =>
    closeBlock opened oldPosition newPosition ++ blocksFrom (oldPosition + 1) (newPosition + 1) none edits
  | .remove :: edits =>
    blocksFrom (oldPosition + 1) newPosition (some (opened.getD (oldPosition,newPosition))) edits
  | .add :: edits =>
    blocksFrom oldPosition (newPosition + 1) (some (opened.getD (oldPosition,newPosition))) edits

def editBlocks (lastFirstEdits : List LineEdit) (base : Nat) : List LineChangeBlock :=
  blocksFrom base base none lastFirstEdits.reverse

def linesBetween (lines : List Text) (start stop : Nat) : List Text := (lines.take stop).drop start

def searchLineChanges (before after : LineDiffSide) (maxDistance : Nat) : LineChangeSearch :=
  let a := comparisonKeys before
  let b := comparisonKeys after
  let start := commonPrefixLength a b
  let suffix := commonSuffixLength a b start
  let whole : LineChangeBlock := ⟨start,a.length - suffix,start,b.length - suffix⟩
  if whole.oldStart = whole.oldEnd ∧ whole.newStart = whole.newEnd then ⟨[],none⟩
  else if whole.oldStart = whole.oldEnd ∨ whole.newStart = whole.newEnd then ⟨[whole],none⟩
  else
    let (oldIds,ids) := lineIds (linesBetween a whole.oldStart whole.oldEnd) []
    let (newIds,_) := lineIds (linesBetween b whole.newStart whole.newEnd) ids
    match forwardTrace oldIds newIds maxDistance with
    | .error bound => ⟨[whole],some bound⟩
    | .ok trace => ⟨editBlocks (backtrackEdits trace oldIds.length newIds.length) start,none⟩

structure LineChangeCounts where
  added : Nat
  deleted : Nat
  deriving DecidableEq, Repr

def lineChangeCounts (blocks : List LineChangeBlock) : LineChangeCounts where
  added := (blocks.map fun block => block.newEnd - block.newStart).sum
  deleted := (blocks.map fun block => block.oldEnd - block.oldStart).sum

end Blocks

section Hunks

structure HunkGroup where
  blocks : List LineChangeBlock
  leading : Nat
  trailing : Nat
  deriving DecidableEq, Repr

def groupsFrom (oldLength : Nat) (current : HunkGroup) (previousEnd : Nat) : List LineChangeBlock → List HunkGroup
  | [] => [{ current with trailing := min contextLines (oldLength - previousEnd) }]
  | block :: blocks =>
    let gap := block.oldStart - previousEnd
    if gap ≤ 2 * contextLines then
      groupsFrom oldLength { current with blocks := current.blocks ++ [block] } block.oldEnd blocks
    else { current with trailing := contextLines } ::
        groupsFrom oldLength ⟨[block],min contextLines gap,0⟩ block.oldEnd blocks

/-- Blocks whose context windows touch share one hunk. -/
def hunkGroups (oldLength : Nat) : List LineChangeBlock → List HunkGroup
  | [] => []
  | block :: blocks =>
    groupsFrom oldLength ⟨[block],min contextLines block.oldStart,0⟩ block.oldEnd blocks

def hunkRange (start stop : Nat) : Text :=
  let count := stop - start
  Text.numberText (if count = 0 then start else start + 1) ++ ',' :: Text.numberText count

def sideLine (side : LineDiffSide) (marker : Char) (index : Nat) : List Text :=
  (marker :: side.lines.getD index []) ::
    if index + 1 = side.lines.length ∧ side.missingFinalNewline then [noNewlineMarker] else []

/-- `appendSideLines`. -/
def sideLines (side : LineDiffSide) (start stop : Nat) (marker : Char) : List Text :=
  (List.range' start (stop - start)).flatMap (sideLine side marker)

def hunkLines (before after : LineDiffSide) (oldEnd position : Nat) : List LineChangeBlock → List Text
  | [] => sideLines before position oldEnd ' '
  | block :: blocks =>
    sideLines before position block.oldStart ' ' ++ sideLines before block.oldStart block.oldEnd '-' ++
      sideLines after block.newStart block.newEnd '+' ++
      hunkLines before after oldEnd block.oldEnd blocks

def renderHunk (group : HunkGroup) (before after : LineDiffSide) : List Text :=
  match group.blocks.head?, group.blocks.getLast? with
  | some first, some last =>
    let oldStart := first.oldStart - group.leading
    let oldEnd := last.oldEnd + group.trailing
    let newStart := first.newStart - group.leading
    let newEnd := last.newEnd + group.trailing
    ("@@ -".toList ++ hunkRange oldStart oldEnd ++ " +".toList ++ hunkRange newStart newEnd ++
      " @@".toList) :: hunkLines before after oldEnd oldStart group.blocks
  | _, _ => []

def unifiedDiffHunks (before after : LineDiffSide) (blocks : List LineChangeBlock) : List Text :=
  (hunkGroups before.lines.length blocks).flatMap fun group => renderHunk group before after

end Hunks

end Keiko.LineDiff
