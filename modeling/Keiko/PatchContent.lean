import Keiko.UnifiedDiff

/-! Applying the hunks of one file section to the content of the file. The lines of the
context and of the removals are checked against the content, and every mismatch is a
conflict; a loop of the source that stops at its first conflict is a computation in
`Except String`, the loop over the hunks of a modify collects them. -/
namespace Keiko.Patch
open Keiko.Library Keiko.UnifiedDiff

structure HunkConflict where
  hunkIndex : Nat
  reason : String
  deriving DecidableEq, Repr

structure ApplyOutcome where
  content : Option Text
  conflicts : List HunkConflict
  deriving DecidableEq, Repr

def markerNotLast : String := "no-newline marker is not on the file's last line"

section Lines

structure Original where
  lines : List Text
  missingFinalNewline : Bool
  deriving DecidableEq, Repr

def toOriginal (content : Text) : Original :=
  if content = [] then ⟨[],false⟩
  else
    let lines := Text.splitLines content
    if lines.getLast? = some [] then ⟨lines.dropLast,false⟩ else ⟨lines,true⟩

def render (lines : List Text) (missingFinalNewline : Bool) : Text :=
  if lines = [] then []
  else if missingFinalNewline then Text.joinLines lines
  else Text.joinLines lines ++ ['\n']

structure Produced where
  lines : List Text
  markedAt : Option Nat
  deriving DecidableEq, Repr

def Produced.push (produced : Produced) (text : Text) : Produced :=
  { produced with lines := produced.lines ++ [text] }

def markLastProduced (produced : Produced) : Except String Produced :=
  if produced.markedAt.isSome then .error "duplicate no-newline marker"
  else .ok { produced with markedAt := some (produced.lines.length - 1) }

def markedLineNotLast (produced : Produced) : Except String Unit :=
  if produced.markedAt ≠ none ∧ produced.markedAt ≠ some (produced.lines.length - 1) then .error markerNotLast
  else .ok ()

end Lines

section Hunk

def applyMarker (original : Original) (previous : Text) (pos : Nat) (produced : Produced) : Except String Produced :=
  if !isHunkBodyLine previous then .error "no-newline marker without a preceding line"
  else if isMarked '+' previous = false ∧ (pos ≠ original.lines.length ∨ original.missingFinalNewline = false) then
    .error ("no-newline marker does not match original line " ++ toString pos)
  else if isMarked '-' previous then .ok produced
  else markLastProduced produced

structure HunkCursor where
  pos : Nat
  previous : Text
  produced : Produced
  deriving DecidableEq, Repr

def applyLine (original : Original) (cursor : HunkCursor) (raw : Text) : Except String HunkCursor :=
  let text := raw.drop 1
  if isMarked '\\' raw then do
    let produced ← applyMarker original cursor.previous cursor.pos cursor.produced
    return { cursor with produced, previous := raw }
  else if isMarked '+' raw then .ok { cursor with produced := cursor.produced.push text, previous := raw }
  else if original.lines[cursor.pos]? = some text then .ok {
      pos := cursor.pos + 1
      previous := raw
      produced := if isMarked ' ' raw then cursor.produced.push text else cursor.produced }
  else .error ("context mismatch at original line " ++ toString (cursor.pos + 1))

structure HunkResult where
  outLines : List Text
  consumed : Nat
  missingFinalNewline : Bool
  deriving DecidableEq, Repr

def applyHunk (original : Original) (hunk : PatchHunk) (cursor : Nat) : Except String HunkResult := do
  let read ← hunk.lines.foldlM (applyLine original) ⟨cursor,[],⟨[],none⟩⟩
  markedLineNotLast read.produced
  return ⟨read.produced.lines,read.pos - cursor,read.produced.markedAt.isSome⟩

end Hunk

section Modify

structure ModifyState where
  out : List Text
  conflicts : List HunkConflict
  cursor : Nat
  missingFinalNewline : Bool
  deriving DecidableEq, Repr

def ModifyState.conflict (state : ModifyState) (hunkIndex : Nat) (reason : String) : ModifyState :=
  { state with conflicts := state.conflicts ++ [⟨hunkIndex,reason⟩] }

def applyModifyHunk (original : Original) (hunk : PatchHunk) (index : Nat) (state : ModifyState) :
    ModifyState :=
  let anchor := hunk.oldStart - 1
  if anchor < state.cursor then state.conflict index "overlapping or out-of-order hunk"
  else
    let between := (original.lines.take (min anchor original.lines.length)).drop state.cursor
    match applyHunk original hunk anchor with
    | .error reason => state.conflict index reason
    | .ok result =>
      if state.missingFinalNewline ∧ 0 < between.length + result.outLines.length then
        { state.conflict index markerNotLast with missingFinalNewline := false }
      else { state with
        out := state.out ++ between ++ result.outLines
        cursor := anchor + result.consumed
        missingFinalNewline := result.missingFinalNewline }

def applyModifyHunks (original : Original) (index : Nat) (state : ModifyState) : List PatchHunk → ModifyState
  | [] => state
  | hunk :: hunks =>
    applyModifyHunks original (index + 1) (applyModifyHunk original hunk index state) hunks

def applyModify (original : Original) (hunks : List PatchHunk) : ApplyOutcome :=
  let state := applyModifyHunks original 0 ⟨[],[],0,false⟩ hunks
  let tail := original.lines.drop state.cursor
  let state := if state.missingFinalNewline ∧ tail ≠ [] then state.conflict (hunks.length - 1) markerNotLast else state
  if state.conflicts ≠ [] then ⟨none,state.conflicts⟩
  else
    let missingFinalNewline :=
      if tail ≠ [] then original.missingFinalNewline else state.missingFinalNewline
    ⟨some (render (state.out ++ tail) missingFinalNewline),[]⟩

end Modify

section Create

def createLine (cursor : Text × Produced) (raw : Text) : Except String (Text × Produced) :=
  if isMarked '\\' raw then do
    let produced ← if isMarked '+' cursor.1 then markLastProduced cursor.2
      else .error "no-newline marker without a preceding line"
    return (raw,produced)
  else if isMarked '+' raw then .ok (raw,cursor.2.push (raw.drop 1))
  else .ok (raw,cursor.2)

def createHunks (index : Nat) (cursor : Text × Produced) : List PatchHunk → Except HunkConflict (Text × Produced)
  | [] => .ok cursor
  | hunk :: hunks =>
    match hunk.lines.foldlM createLine cursor with
    | .error reason => .error ⟨index,reason⟩
    | .ok cursor => createHunks (index + 1) cursor hunks

def createdContent (hunks : List PatchHunk) : ApplyOutcome :=
  match createHunks 0 ([],⟨[],none⟩) hunks with
  | .error conflict => ⟨none,[conflict]⟩
  | .ok (_,produced) =>
    match markedLineNotLast produced with
    | .error reason => ⟨none,[⟨hunks.length - 1,reason⟩]⟩
    | .ok _ => ⟨some (render produced.lines produced.markedAt.isSome),[]⟩

end Create

section File

def preImage (change : PatchFileChange) : List Text :=
  ((change.hunks.flatMap PatchHunk.lines).filter onOldSide).map (List.drop 1)

def verifyDeletePreImage (change : PatchFileChange) (current : Text) : ApplyOutcome :=
  let lines := preImage change
  if lines = [] then ⟨none,[]⟩
  else if render lines false = current ∨ render lines true = current then ⟨none,[]⟩
  else ⟨none,[⟨0,"delete pre-image does not match current content"⟩]⟩

def computeFileContent (change : PatchFileChange) (current : Option Text) (allowOverwrite : Bool) : ApplyOutcome :=
  match change.kind with
  | .create =>
    if current.isSome ∧ allowOverwrite = false then
      ⟨none,[⟨0,"create target already exists"⟩]⟩
    else createdContent change.hunks
  | .delete =>
    match current with
    | none => ⟨none,[⟨0,"delete target does not exist"⟩]⟩
    | some content => verifyDeletePreImage change content
  | .modify =>
    match current with
    | none => ⟨none,[⟨0,"modify target does not exist"⟩]⟩
    | some content => applyModify (toOriginal content) change.hunks

end File

end Keiko.Patch
