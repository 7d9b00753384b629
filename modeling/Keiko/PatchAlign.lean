import Keiko.PatchContent

/-! Hunks are moved to where the file holds what they show: a hunk whose block stands at
its line is kept, else it moves to the only place where its block stands. -/
namespace Keiko.Patch
open Keiko.Library Keiko.UnifiedDiff

def toLines (content : Text) : List Text :=
  if content = [] then []
  else
    let lines := Text.splitLines content
    if lines.getLast? = some [] then lines.dropLast else lines

def hunkPreimageLines (hunk : PatchHunk) : List Text :=
  (hunk.lines.filter onOldSide).map (List.drop 1)

def startsWithSequence (lines : List Text) (index : Nat) (needle : List Text) : Bool :=
  needle.isPrefixOf (lines.drop index)

def uniqueSequenceIndex (lines needle : List Text) : Option Nat :=
  if needle = [] ∨ lines.length < needle.length then none
  else match (List.range (lines.length - needle.length + 1)).filter fun index =>
        startsWithSequence lines index needle with
    | [index] => some index
    | _ => none

def alignHunk (lines : List Text) (hunk : PatchHunk) : PatchHunk × Bool :=
  let preimage := hunkPreimageLines hunk
  if 0 < hunk.oldStart ∧ startsWithSequence lines (hunk.oldStart - 1) preimage then (hunk,false)
  else match uniqueSequenceIndex lines preimage with
    | none => (hunk,false)
    | some anchor => ({ hunk with oldStart := anchor + 1, newStart := anchor + 1 },true)

def isCreateOnlyModify (file : PatchFileChange) : Bool :=
  !file.hunks.isEmpty && file.hunks.all fun hunk =>
    hunk.oldLines == 0 && hunk.lines.all fun line => isMarked '+' line || isMarked '\\' line

def alignFileHunks (file : PatchFileChange) (current : Option Text) : PatchFileChange × Bool :=
  if file.kind ≠ .modify then (file,false)
  else match current with
    | none =>
      if isCreateOnlyModify file then ({ file with kind := .create },true) else (file,false)
    | some content =>
      if content = [] ∧ isCreateOnlyModify file then ({ file with
          hunks := file.hunks.map fun hunk => { hunk with oldStart := 1, newStart := 1 } },true)
      else
        let aligned := file.hunks.map (alignHunk (toLines content))
        if aligned.all fun hunk => !hunk.2 then (file,false)
        else ({ file with hunks := aligned.map Prod.fst },true)

def isUnanchored (file : PatchFileChange) : Bool :=
  file.kind == .modify && file.hunks.any fun hunk => hunk.oldStart == 0

end Keiko.Patch
