import Keiko.Library.Text

/-! The unified-diff parser: a machine over the lines of a diff with an optional
record of source ranges beside it. Each handler of the source is a function on the
accumulators, an exception of the source is an error with its message, and a file
accumulator exists only from its `--- ` line on, so its old path is always there. -/
namespace Keiko.UnifiedDiff
open Keiko.Library

inductive PatchChangeKind where
  | create
  | modify
  | delete
  deriving DecidableEq, Repr

structure PatchHunk where
  oldStart : Nat
  oldLines : Nat
  newStart : Nat
  newLines : Nat
  lines : List Text
  deriving DecidableEq, Repr

structure PatchFileChange where
  path : Text
  kind : PatchChangeKind
  hunks : List PatchHunk
  addedLines : Nat
  removedLines : Nat
  deriving DecidableEq, Repr

/-- Offsets into the diff, in UTF-16 units, from `start` up to `stop`. -/
structure UnifiedDiffSourceRange where
  start : Nat
  stop : Nat
  deriving DecidableEq, Repr

structure UnifiedDiffSourceLine where
  range : UnifiedDiffSourceRange
  marker : Char
  deriving DecidableEq, Repr

structure HunkSource where
  header : UnifiedDiffSourceRange
  contextStart : Nat
  lines : List UnifiedDiffSourceLine
  deriving DecidableEq, Repr

structure UnifiedDiffHunkSource where
  hunk : PatchHunk
  source : HunkSource
  deriving DecidableEq, Repr

structure UnifiedDiffFileSource where
  oldPath : Text
  newPath : Text
  oldHeader : UnifiedDiffSourceRange
  newHeader : UnifiedDiffSourceRange
  hunks : List UnifiedDiffHunkSource
  deriving DecidableEq, Repr

section Paths

def simpleEscapes : Char → Option UInt8
  | 'a' => some 7
  | 'b' => some 8
  | 't' => some 9
  | 'n' => some 10
  | 'v' => some 11
  | 'f' => some 12
  | 'r' => some 13
  | '"' => some 34
  | '\\' => some 92
  | _ => none

def octalDigit (c : Char) : Option Nat :=
  if '0' ≤ c ∧ c ≤ '7' then some (c.toNat - '0'.toNat) else none

/-- The byte that three octal digits name; past `\377` it wraps. -/
def octalEscape (first second third : Char) : Option UInt8 :=
  match octalDigit first, octalDigit second, octalDigit third with
  | some high, some middle, some low => some (UInt8.ofNat (64 * high + 8 * middle + low))
  | _, _, _ => none

def quotedBytes : Text → Option (List UInt8)
  | [] => some []
  | '\\' :: first :: second :: third :: rest =>
    match octalEscape first second third with
    | some byte => (quotedBytes rest).map (byte :: ·)
    | none =>
      match simpleEscapes first with
      | some byte => (quotedBytes (second :: third :: rest)).map (byte :: ·)
      | none => none
  | '\\' :: first :: rest =>
    match simpleEscapes first with
    | some byte => (quotedBytes rest).map (byte :: ·)
    | none => none
  | ['\\'] => none
  | c :: rest => (quotedBytes rest).map (String.utf8EncodeChar c ++ ·)

/-- `new TextDecoder("utf-8").decode`, which drops a byte order mark; bytes that are not
valid, or that spell the replacement character itself, give nothing. -/
def decodePathBytes (bytes : List UInt8) : Option Text :=
  match Text.decodeUtf8 bytes with
  | none => none
  | some text =>
    let decoded := if text.head? = some '\uFEFF' then text.drop 1 else text
    if '\uFFFD' ∈ decoded then none else some decoded

def decodeGitQuotedPath (raw : Text) : Option Text :=
  if raw.length < 2 ∨ raw.head? ≠ some '"' ∨ raw.getLast? ≠ some '"' then none
  else (quotedBytes (raw.drop 1).dropLast).bind decodePathBytes

def devNull : Text := "/dev/null".toList

def stripPrefix (raw : Text) : Text :=
  match raw with
  | 'a' :: '/' :: rest => rest
  | 'b' :: '/' :: rest => rest
  | _ => raw

def headerPath (line : Text) : Except String Text :=
  let rest := line.drop 4
  let raw := Text.trim (rest.takeWhile (· != '\t'))
  if raw.head? ≠ some '"' then .ok (stripPrefix raw)
  else match decodeGitQuotedPath raw with
    | none => .error "malformed quoted path in file header"
    | some decoded => .ok (stripPrefix decoded)

def classify (oldPath newPath : Text) : PatchChangeKind × Text :=
  if oldPath = devNull then (.create,newPath)
  else if newPath = devNull then (.delete,oldPath)
  else (.modify,newPath)

end Paths

section Hunks

structure HunkAccumulator where
  oldStart : Nat
  oldLines : Nat
  newStart : Nat
  newLines : Nat
  lines : List Text
  oldRemaining : Nat
  newRemaining : Nat
  source : Option HunkSource
  deriving DecidableEq, Repr

def toHunk (acc : HunkAccumulator) : PatchHunk :=
  ⟨acc.oldStart,acc.oldLines,acc.newStart,acc.newLines,acc.lines⟩

def maxSafeInteger : Nat := 2 ^ 53 - 1

def lineNumber (digits : Text) : Except String Nat :=
  if Text.decimal digits ≤ maxSafeInteger then .ok (Text.decimal digits)
  else .error "hunk header number out of range"

def digitsAt (text : Text) : Option (Text × Text) :=
  let digits := text.takeWhile Text.isDigit
  if digits = [] then none else some (digits,text.drop digits.length)

def literalAt (literal text : Text) : Option Text :=
  if literal.isPrefixOf text then some (text.drop literal.length) else none

/-- `\d+(?:,(\d+))?` at the head of a text. -/
def rangeAt (text : Text) : Option (Text × Option Text × Text) :=
  (digitsAt text).map fun start =>
    match literalAt [','] start.2 with
    | none => (start.1,none,start.2)
    | some more =>
      match digitsAt more with
      | none => (start.1,none,start.2)
      | some count => (start.1,some count.1,count.2)

structure HunkHeaderMatch where
  oldStart : Text
  oldLines : Option Text
  newStart : Text
  newLines : Option Text
  width : Nat
  deriving DecidableEq, Repr

def matchHunkHeader (line : Text) : Option HunkHeaderMatch := do
  let rest ← literalAt "@@ -".toList line
  let (oldStart,oldLines,rest) ← rangeAt rest
  let rest ← literalAt " +".toList rest
  let (newStart,newLines,rest) ← rangeAt rest
  let rest ← literalAt " @@".toList rest
  return ⟨oldStart,oldLines,newStart,newLines,line.length - rest.length⟩

def countNumber : Option Text → Except String Nat
  | none => .ok 1
  | some digits => lineNumber digits

def parseHunkHeader (line : Text) (source : Option UnifiedDiffSourceRange) :
    Except String HunkAccumulator :=
  match matchHunkHeader line with
  | none => .error "malformed hunk header"
  | some header => do
    let oldLines ← countNumber header.oldLines
    let newLines ← countNumber header.newLines
    let oldStart ← lineNumber header.oldStart
    let newStart ← lineNumber header.newStart
    return {
      oldStart, oldLines, newStart, newLines
      lines := []
      oldRemaining := oldLines
      newRemaining := newLines
      source := source.map fun range => ⟨range,range.start + header.width,[]⟩ }

def isMarked (marker : Char) (line : Text) : Bool := line.head? == some marker

def isHunkBodyLine (line : Text) : Bool :=
  isMarked ' ' line || isMarked '+' line || isMarked '-' line

def onOldSide (line : Text) : Bool := isMarked ' ' line || isMarked '-' line
def onNewSide (line : Text) : Bool := isMarked ' ' line || isMarked '+' line

variable (hunk : HunkAccumulator)

def assertBudgetAvailable (line : Text) : Except String Unit :=
  if hunk.oldRemaining < (onOldSide line).toNat ∨ hunk.newRemaining < (onNewSide line).toNat then
    .error "hunk body has more lines than declared"
  else .ok ()

def consumeBudget (line : Text) : HunkAccumulator :=
  { hunk with
    oldRemaining := hunk.oldRemaining - (onOldSide line).toNat
    newRemaining := hunk.newRemaining - (onNewSide line).toNat }

def recordSourceLine (line : Text)
    (source : Option UnifiedDiffSourceRange) : HunkAccumulator :=
  match source, line.head? with
  | some range, some marker =>
    if marker ∈ [' ','+','-','\\'] then { hunk with source := hunk.source.map fun source =>
          { source with lines := source.lines ++ [⟨range,marker⟩] } }
    else hunk
  | _, _ => hunk

def pushLine (line : Text) : HunkAccumulator :=
  { hunk with lines := hunk.lines ++ [line] }

def attachNoNewlineMarker (hunk : Option HunkAccumulator) (line : Text) : Except String HunkAccumulator :=
  match hunk.bind fun hunk => hunk.lines.getLast?.map fun previous => (hunk,previous) with
  | none => .error "no-newline marker must follow a hunk body line"
  | some (hunk,previous) =>
    if isHunkBodyLine previous then .ok (pushLine hunk line)
    else .error "no-newline marker must follow a hunk body line"

end Hunks

section Files

structure FileSource where
  oldHeader : UnifiedDiffSourceRange
  newHeader : Option UnifiedDiffSourceRange
  hunks : List UnifiedDiffHunkSource
  deriving DecidableEq, Repr

structure FileAccumulator where
  oldPath : Text
  newPath : Option Text
  hunks : List PatchHunk
  current : Option HunkAccumulator
  added : Nat
  removed : Nat
  source : Option FileSource
  deriving DecidableEq, Repr

def newFileAccumulator (oldPath : Text) (source : Option UnifiedDiffSourceRange) :
    FileAccumulator :=
  { oldPath
    newPath := none
    hunks := []
    current := none
    added := 0
    removed := 0
    source := source.map fun range => ⟨range,none,[]⟩ }

def finishHunk (file : FileAccumulator) : Except String FileAccumulator :=
  match file.current with
  | none => .ok file
  | some hunk =>
    if hunk.oldRemaining ≠ 0 ∨ hunk.newRemaining ≠ 0 then
      .error "hunk body has fewer lines than declared"
    else .ok { file with
      hunks := file.hunks ++ [toHunk hunk]
      current := none
      source := match hunk.source with
        | none => file.source
        | some source => file.source.map fun fileSource =>
          { fileSource with hunks := fileSource.hunks ++ [⟨toHunk hunk,source⟩] } }

structure ParseState where
  files : List PatchFileChange
  sources : Option (List UnifiedDiffFileSource)
  current : Option FileAccumulator
  deriving DecidableEq, Repr

def fileChange (file : FileAccumulator) (newPath : Text) : PatchFileChange :=
  let change := classify file.oldPath newPath
  ⟨change.2,change.1,file.hunks,file.added,file.removed⟩

def publishedSource (file : FileAccumulator) (newPath : Text) : List UnifiedDiffFileSource :=
  match file.source with
  | some ⟨oldHeader,some newHeader,hunk :: hunks⟩ =>
    [⟨file.oldPath,newPath,oldHeader,newHeader,hunk :: hunks⟩]
  | _ => []

variable (state : ParseState)

/-- The finished file joins the parsed ones; a header without its `+++ ` line is dropped. -/
def finishFile (file : FileAccumulator) : Except String ParseState := do
  let file ← finishHunk file
  match file.newPath with
  | none =>
    if file.hunks ≠ [] then .error "file header has no +++ line" else .ok state
  | some newPath => .ok { state with
      files := state.files ++ [fileChange file newPath]
      sources := state.sources.map (· ++ publishedSource file newPath) }

def finishCurrent : Except String ParseState :=
  match state.current with
  | none => .ok state
  | some file => finishFile state file

def startNewFile (oldPath : Text) (source : Option UnifiedDiffSourceRange) :
    Except String ParseState := do
  let state ← finishCurrent state
  return { state with current := some (newFileAccumulator oldPath source) }

def countBody (file : FileAccumulator) (line : Text) : FileAccumulator :=
  { file with
    added := file.added + (isMarked '+' line).toNat
    removed := file.removed + (isMarked '-' line).toNat }

def hunkActive (file : FileAccumulator) : Bool :=
  match file.current with
  | none => false
  | some hunk => 0 < hunk.oldRemaining || 0 < hunk.newRemaining

def handleBodyLine (file : FileAccumulator) (line : Text)
    (source : Option UnifiedDiffSourceRange) : Except String FileAccumulator :=
  if isMarked '\\' line then do
    let hunk ← attachNoNewlineMarker file.current line
    return { file with current := some (recordSourceLine hunk line source) }
  else match file.current with
    | none =>
      if file.newPath.isSome ∧ file.hunks = [] ∧ isHunkBodyLine line then
        .error "body line outside a hunk"
      else .ok file
    | some hunk =>
      if !isHunkBodyLine line then finishHunk file
      else do
        assertBudgetAvailable hunk line
        let hunk := consumeBudget (recordSourceLine (pushLine hunk line) line source) line
        return { countBody file line with current := some hunk }

def isSignatureDelimiter (line : Text) : Bool :=
  line == "-- ".toList || line == "--".toList

def startsWith (start : Text) (line : Text) : Bool := start.isPrefixOf line

def handleFileLine (file : FileAccumulator) (line : Text)
    (source : Option UnifiedDiffSourceRange) : Except String ParseState := do
  if isSignatureDelimiter line then
    let file ← finishHunk file
    return { state with current := some file }
  else if startsWith "+++ ".toList line then
    let newPath ← headerPath line
    let file := { file with
      newPath := some newPath
      source := file.source.map fun fileSource => { fileSource with newHeader := source } }
    return { state with current := some file }
  else if startsWith "@@".toList line then
    let file ← finishHunk file
    let hunk ← parseHunkHeader line source
    return { state with current := some { file with current := some hunk } }
  else
    let file ← handleBodyLine file line source
    return { state with current := some file }

def handleLine (line : Text) (source : Option UnifiedDiffSourceRange) : Except String ParseState :=
  match state.current.filter fun file => hunkActive file && isHunkBodyLine line with
  | some file => do
    let file ← handleBodyLine file line source
    return { state with current := some file }
  | none =>
    if startsWith "--- ".toList line then do
      let oldPath ← headerPath line
      startNewFile state oldPath source
    else match state.current with
      | none => .ok state
      | some file => handleFileLine state file line source

end Files

section Parse

def parseLines (total : Nat) (state : ParseState) (offset : Nat) : List Text → Except String ParseState
  | [] => .ok state
  | line :: lines => do
    let stop := min total (offset + Text.utf16Length line + 1)
    let next ← handleLine state line (state.sources.map fun _ => ⟨offset,stop⟩)
    parseLines total next stop lines

structure ObservedPatch where
  files : List PatchFileChange
  sources : Option (List UnifiedDiffFileSource)
  deriving DecidableEq, Repr

def observeUnifiedDiff (diff : Text) (observed : Bool) : Except String ObservedPatch := do
  let start : ParseState := ⟨[],if observed then some [] else none,none⟩
  let state ← parseLines (Text.utf16Length diff) start 0 (Text.splitLines diff)
  let state ← finishCurrent state
  return ⟨state.files,state.sources⟩

def parseUnifiedDiff (diff : Text) : Except String (List PatchFileChange) :=
  (observeUnifiedDiff diff false).map ObservedPatch.files

end Parse

end Keiko.UnifiedDiff
