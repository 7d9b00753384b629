import Keiko.UnifiedDiffInvariant
import Mathlib.Data.List.TakeWhile

/-! Rendering parsed files as a diff again, and reading the rendered diff. The headers
carry the paths as they are, without the quotes that the parser would take off, so the
round trip holds exactly for the paths that stand unquoted in a header line. -/
namespace Keiko.UnifiedDiff
open Keiko.Library List Option

section Render

def renderHeader (file : PatchFileChange) : List Text :=
  match file.kind with
  | .create => ["--- /dev/null".toList,"+++ b/".toList ++ file.path]
  | .delete => ["--- a/".toList ++ file.path,"+++ /dev/null".toList]
  | .modify => ["--- a/".toList ++ file.path,"+++ b/".toList ++ file.path]

def renderHunkHeader (hunk : PatchHunk) : Text :=
  "@@ -".toList ++ Text.numberText hunk.oldStart ++ ',' :: Text.numberText hunk.oldLines ++
    " +".toList ++ Text.numberText hunk.newStart ++ ',' :: Text.numberText hunk.newLines ++
    " @@".toList

def renderHunk (hunk : PatchHunk) : List Text := renderHunkHeader hunk :: hunk.lines

def renderFile (file : PatchFileChange) : List Text :=
  renderHeader file ++ file.hunks.flatMap renderHunk

def renderParsedPatch (files : List PatchFileChange) : Text :=
  Text.joinLines (files.flatMap renderFile)

structure PlainPath (path : Text) : Prop where
  noTab : '\t' ∉ path
  noBreak : '\n' ∉ path
  ends : ∀ c ∈ path.getLast?, Text.isSpace c = false

theorem plainPath_iff (path : Text) : PlainPath path ↔
    '\t' ∉ path ∧ '\n' ∉ path ∧ (path.getLast?.all fun c => !Text.isSpace c) = true := by
  constructor
  · intro plain
    refine ⟨plain.noTab,plain.noBreak,?_⟩
    cases last : path.getLast? with
    | none => rfl
    | some c => simp [plain.ends c last]
  · intro ⟨noTab,noBreak,ends⟩
    refine ⟨noTab,noBreak,?_⟩
    intro c last
    rw [mem_def.mp last] at ends
    simpa using ends

instance (path : Text) : Decidable (PlainPath path) := decidable_of_iff' _ (plainPath_iff path)

end Render

section Header

def rawPath (line : Text) : Text := Text.trim ((line.drop 4).takeWhile (· != '\t'))

variable {line path : Text}

theorem headerPath_unquoted (unquoted : (rawPath line).head? ≠ some '"') :
    headerPath line = .ok (stripPrefix (rawPath line)) := if_pos unquoted

theorem headerPath_quoted (quoted : (rawPath line).head? = some '"')
    (hit : headerPath line = .ok path) :
    ∃ decoded, decodeGitQuotedPath (rawPath line) = some decoded ∧ path = stripPrefix decoded := by
  rw [headerPath] at hit
  split at hit
  next unquoted => exact absurd quoted unquoted
  next =>
    split at hit
    · contradiction
    case h_2 decoded same =>
      cases hit
      exact ⟨decoded,same,rfl⟩

theorem headerPath_own (marker : Text) {letter : Char} (four : marker.length = 4)
    (known : letter = 'a' ∨ letter = 'b') (plain : PlainPath path) :
    headerPath (marker ++ letter :: '/' :: path) = .ok path := by
  have dropped : (marker ++ letter :: '/' :: path).drop 4 = letter :: '/' :: path := by
    rw [← four,drop_left]
  have noTab : ∀ c ∈ letter :: '/' :: path, (c != '\t') = true := by
    intro c mem
    rw [bne_iff_ne]
    intro tab
    rw [tab] at mem
    obtain rfl | rfl := known <;> simp [plain.noTab] at mem
  have ends : ∀ c ∈ ('/' :: path).getLast?, Text.isSpace c = false := by
    intro c last
    rw [getLast?_cons] at last
    cases lastOfPath : path.getLast? with
    | none =>
      rw [lastOfPath] at last
      cases last
      decide
    | some d =>
      rw [lastOfPath] at last
      cases last
      exact plain.ends _ lastOfPath
  have raw : rawPath (marker ++ letter :: '/' :: path) = letter :: '/' :: path := by
    rw [rawPath,dropped,takeWhile_eq_self_iff.mpr noTab,Text.trim_cons,Text.trimEnd_eq ends]
    obtain rfl | rfl := known <;> decide
  have unquoted : (rawPath (marker ++ letter :: '/' :: path)).head? ≠ some '"' := by
    rw [raw]
    obtain rfl | rfl := known <;> simp
  rw [headerPath_unquoted unquoted,raw]
  obtain rfl | rfl := known <;> rfl

end Header

section HunkHeader

theorem digitsAt_append {ds rest : Text} (all : ∀ c ∈ ds, Text.isDigit c = true)
    (some_digit : ds ≠ []) (stops : ∀ c ∈ rest.head?, Text.isDigit c = false) :
    digitsAt (ds ++ rest) = some (ds,rest) := by
  have read : (ds ++ rest).takeWhile Text.isDigit = ds := by
    rw [takeWhile_append_of_pos all]
    cases rest with
    | nil => simp
    | cons c rest => simp [stops c rfl]
  unfold digitsAt
  simp [read,some_digit]

theorem rangeAt_append {start count rest : Text} (start_digits : ∀ c ∈ start, Text.isDigit c = true)
    (some_start : start ≠ []) (count_digits : ∀ c ∈ count, Text.isDigit c = true)
    (some_count : count ≠ []) (stops : ∀ c ∈ rest.head?, Text.isDigit c = false) :
    rangeAt (start ++ ',' :: count ++ rest) = some (start,some count,rest) := by
  have comma : ∀ c ∈ (',' :: (count ++ rest)).head?, Text.isDigit c = false := by
    intro c same
    cases same
    decide
  have more : literalAt [','] (',' :: (count ++ rest)) = some (count ++ rest) := rfl
  unfold rangeAt
  rw [append_assoc,cons_append,digitsAt_append start_digits some_start comma,map_some]
  dsimp only
  rw [more]
  dsimp only
  rw [digitsAt_append count_digits some_count stops]

theorem rangeAt_numberText (start count : Nat) {rest : Text} (stops : ∀ c ∈ rest.head?, Text.isDigit c = false) :
    rangeAt (Text.numberText start ++ ',' :: Text.numberText count ++ rest) =
      some (Text.numberText start,some (Text.numberText count),rest) :=
  rangeAt_append (fun _ => Text.isDigit_of_mem_numberText) (Text.numberText_ne_nil start)
    (fun _ => Text.isDigit_of_mem_numberText) (Text.numberText_ne_nil count) stops

theorem literalAt_append (literal rest : Text) : literalAt literal (literal ++ rest) = some rest := by
  simp [literalAt]

theorem matchHunkHeader_eq {line a b third fourth last oldStart newStart : Text}
    {oldLines newLines : Option Text} (opened : literalAt "@@ -".toList line = some a)
    (old : rangeAt a = some (oldStart,oldLines,b))
    (middle : literalAt " +".toList b = some third)
    (new : rangeAt third = some (newStart,newLines,fourth))
    (closed : literalAt " @@".toList fourth = some last) :
    matchHunkHeader line =
      some ⟨oldStart,oldLines,newStart,newLines,line.length - last.length⟩ := by
  unfold matchHunkHeader
  simp only [opened,old,middle,new,closed,bind_eq_bind,bind_some]
  rfl

theorem matchHunkHeader_render (hunk : PatchHunk) : ∃ width, matchHunkHeader (renderHunkHeader hunk) = some
      ⟨Text.numberText hunk.oldStart,some (Text.numberText hunk.oldLines),
        Text.numberText hunk.newStart,some (Text.numberText hunk.newLines),width⟩ := by
  have stops : ∀ (start rest : Text), start.head? = some ' ' → ∀ c ∈ (start ++ rest).head?, Text.isDigit c = false := by
    intro start rest blank c same
    rw [head?_append,blank] at same
    cases same
    decide
  have new := rangeAt_numberText hunk.newStart hunk.newLines (stops " @@".toList [] (by simp))
  have old := fun rest =>
    rangeAt_numberText hunk.oldStart hunk.oldLines (stops " +".toList rest (by simp))
  have rendered : renderHunkHeader hunk = "@@ -".toList ++ (Text.numberText hunk.oldStart ++
      ',' :: Text.numberText hunk.oldLines ++ (" +".toList ++ (Text.numberText hunk.newStart ++
        ',' :: Text.numberText hunk.newLines ++ (" @@".toList ++ [])))) := by
    unfold renderHunkHeader
    simp only [append_assoc,cons_append,append_nil]
  rw [rendered]
  have hit := matchHunkHeader_eq (literalAt_append "@@ -".toList _) (old _)
    (literalAt_append " +".toList _) new (literalAt_append " @@".toList [])
  exact ⟨_,hit⟩

theorem parseHunkHeader_render {hunk : PatchHunk} (formed : hunk.WellFormed) :
    parseHunkHeader (renderHunkHeader hunk) none = .ok
      ⟨hunk.oldStart,hunk.oldLines,hunk.newStart,hunk.newLines,[],hunk.oldLines,hunk.newLines,none⟩ := by
  have number : ∀ n, n ≤ maxSafeInteger → lineNumber (Text.numberText n) = .ok n := by
    intro n safe
    rw [lineNumber,Text.decimal_numberText,if_pos safe]
  obtain ⟨width,hit⟩ := matchHunkHeader_render hunk
  obtain ⟨oldStart,oldLines,newStart,newLines⟩ := formed.safe
  unfold parseHunkHeader
  rw [hit]
  simp only [countNumber,number _ oldStart,number _ oldLines,number _ newStart,number _ newLines]
  rfl

end HunkHeader

section Read

def readLines (state : ParseState) (lines : List Text) : Except String ParseState :=
  lines.foldlM (fun state line => handleLine state line none) state

variable {state next : ParseState} {file closed : FileAccumulator} {line : Text} {hunk : HunkAccumulator}

@[simp] theorem readLines_nil : readLines state [] = .ok state := rfl

theorem readLines_cons (ls : List Text) : readLines state (line :: ls) =
      (handleLine state line none >>= fun next => readLines next ls) := foldlM_cons ..

theorem readLines_append (a b : List Text) : readLines state (a ++ b) =
      (readLines state a >>= fun next => readLines next b) := foldlM_append ..

theorem finishCurrent_sources (finished : finishCurrent state = .ok next)
    (unobserved : state.sources = none) : next.sources = none := by
  obtain ⟨-,rfl⟩ | ⟨file,-,finished⟩ := finishCurrent_cases finished
  · exact unobserved
  · obtain ⟨closed,-,⟨-,-,rfl⟩ | ⟨newPath,-,rfl⟩⟩ := finishFile_cases finished
    · exact unobserved
    · simp [unobserved]

theorem Step.sources {src : Option UnifiedDiffSourceRange} (step : Step state line src next)
    (unobserved : state.sources = none) : next.sources = none := by
  cases step with
  | newFile oldPath finished marked path closed =>
    have kept : finished.sources = none := finishCurrent_sources closed unobserved
    exact kept
  | skipped => exact unobserved
  | body => exact unobserved
  | marker => exact unobserved
  | closed => exact unobserved
  | newHeader => exact unobserved
  | hunkHeader => exact unobserved

theorem parseLines_unobserved (total offset : Nat) (ls : List Text) (unobserved : state.sources = none) :
    parseLines total state offset ls = readLines state ls := by
  induction ls generalizing state offset with
  | nil => rfl
  | cons line ls ih =>
    rw [readLines_cons]
    change (handleLine state line (state.sources.map _) >>= _) = _
    rw [unobserved,map_none]
    cases handled : handleLine state line none with
    | error failure => rfl
    | ok next => exact ih _ ((handleLine_step handled).sources unobserved)

theorem parseUnifiedDiff_eq (diff : Text) : parseUnifiedDiff diff =
    (readLines ⟨[],none,none⟩ (Text.splitLines diff) >>= finishCurrent).map ParseState.files := by
  unfold parseUnifiedDiff observeUnifiedDiff
  simp only [Bool.false_eq_true,if_false]
  rw [parseLines_unobserved _ _ _ rfl]
  cases readLines ⟨[],none,none⟩ (Text.splitLines diff) with
  | error failure => rfl
  | ok state =>
    change Except.map _ (finishCurrent state >>= _) = Except.map _ (finishCurrent state)
    cases finishCurrent state <;> rfl

theorem hunkActive_of_finishHunk (finished : finishHunk file = .ok closed) : hunkActive file = false := by
  unfold hunkActive
  obtain ⟨none_open,-⟩ | ⟨hunk,open_hunk,oldSpent,newSpent,-⟩ := finishHunk_cases finished
  · simp [none_open]
  · simp [open_hunk,oldSpent,newSpent]

theorem hunkActive_of_finishCurrent (finished : finishCurrent state = .ok next) :
    state.current.filter (fun file => hunkActive file && isHunkBodyLine line) = none := by
  rw [filter_eq_none_iff]
  intro file open_file
  obtain ⟨none_open,-⟩ | ⟨file',same,finished⟩ := finishCurrent_cases finished
  · rw [none_open] at open_file
    contradiction
  · rw [same] at open_file
    cases open_file
    obtain ⟨closed,closes,-⟩ := finishFile_cases finished
    simp [hunkActive_of_finishHunk closes]

theorem handleLine_oldHeader {oldPath : Text} (finished : finishCurrent state = .ok next)
    (marked : startsWith "--- ".toList line = true) (path : headerPath line = .ok oldPath) :
    handleLine state line none = .ok { next with current := some (newFileAccumulator oldPath none) } := by
  unfold handleLine
  rw [hunkActive_of_finishCurrent finished]
  simp only [marked,if_true,path]
  change (finishCurrent state >>= _) = _
  rw [finished]
  rfl

theorem handleLine_file (open_file : state.current = some file)
    (finished : finishHunk file = .ok closed) (other : startsWith "--- ".toList line = false) :
    handleLine state line none = handleFileLine state file line none := by
  unfold handleLine
  rw [open_file,filter_some,hunkActive_of_finishHunk finished]
  simp only [Bool.false_and,Bool.false_eq_true,if_false,other]

theorem handleLine_newHeader {newPath : Text} (open_file : state.current = some file)
    (finished : finishHunk file = .ok closed) (unobserved : file.source = none)
    (marked : startsWith "+++ ".toList line = true) (path : headerPath line = .ok newPath) :
    handleLine state line none = .ok { state with current := some { file with newPath := some newPath } } := by
  obtain ⟨rest,rfl⟩ := List.isPrefixOf_iff_prefix.mp marked
  rw [handleLine_file open_file finished (by simp [startsWith,isPrefixOf])]
  unfold handleFileLine
  have signature : isSignatureDelimiter ("+++ ".toList ++ rest) = false := by
    simp [isSignatureDelimiter]
  simp only [signature,Bool.false_eq_true,if_false,marked,if_true,path,unobserved]
  rfl

theorem handleLine_hunkHeader (open_file : state.current = some file)
    (finished : finishHunk file = .ok closed) (marked : startsWith "@@".toList line = true)
    (parsed : parseHunkHeader line none = .ok hunk) :
    handleLine state line none = .ok { state with current := some { closed with current := some hunk } } := by
  obtain ⟨rest,rfl⟩ := List.isPrefixOf_iff_prefix.mp marked
  rw [handleLine_file open_file finished (by simp [startsWith,isPrefixOf])]
  unfold handleFileLine
  have signature : isSignatureDelimiter ("@@".toList ++ rest) = false := by
    simp [isSignatureDelimiter]
  have header : startsWith "+++ ".toList ("@@".toList ++ rest) = false := by
    simp [startsWith,isPrefixOf]
  simp only [signature,header,Bool.false_eq_true,if_false,marked,if_true,finished,parsed]
  rfl

theorem handleLine_body (open_file : state.current = some file)
    (open_hunk : file.current = some hunk) (isBody : isHunkBodyLine line = true)
    (oldFits : (onOldSide line).toNat ≤ hunk.oldRemaining)
    (newFits : (onNewSide line).toNat ≤ hunk.newRemaining) :
    handleLine state line none = .ok { state with current := some { countBody file line with
      current := some (consumeBudget (pushLine hunk line) line) } } := by
  have side : onOldSide line = true ∨ onNewSide line = true := by
    simp only [isHunkBodyLine,Bool.or_eq_true] at isBody
    simp only [onOldSide,onNewSide,Bool.or_eq_true]
    tauto
  have active : hunkActive file = true := by
    simp only [hunkActive,open_hunk,Bool.or_eq_true,decide_eq_true_eq]
    obtain old | new := side
    · rw [old] at oldFits
      exact .inl oldFits
    · rw [new] at newFits
      exact .inr newFits
  have noMarker : isMarked '\\' line = false := by
    by_contra marked
    obtain ⟨notOld,notNew,-⟩ := marker_sides (by simpa using marked)
    simp [notOld,notNew] at side
  have available : assertBudgetAvailable hunk line = .ok () := by
    rw [assertBudgetAvailable,if_neg]
    rw [not_or,not_lt,not_lt]
    exact ⟨oldFits,newFits⟩
  unfold handleLine
  simp only [open_file,filter_some,active,isBody,Bool.and_self,if_true]
  unfold handleBodyLine
  simp only [noMarker,open_hunk,isBody,Bool.not_true,Bool.false_eq_true,if_false,available]
  rfl

theorem handleLine_marker {prev : Text}
    (open_file : state.current = some file) (open_hunk : file.current = some hunk)
    (last : hunk.lines.getLast? = some prev) (isBody : isHunkBodyLine prev = true)
    (marked : isMarked '\\' line = true) :
    handleLine state line none = .ok { state with current := some { file with
      current := some (pushLine hunk line) } } := by
  obtain ⟨notOld,notNew,-⟩ := marker_sides marked
  obtain ⟨rest,rfl⟩ := head?_eq_some_iff.mp (isMarked_eq.mp marked)
  have notBody : isHunkBodyLine ('\\' :: rest) = false := by simp [isHunkBodyLine,isMarked]
  have signature : isSignatureDelimiter ('\\' :: rest) = false := by simp [isSignatureDelimiter]
  have oldHeader : startsWith "--- ".toList ('\\' :: rest) = false := by
    simp [startsWith,isPrefixOf]
  have newHeader : startsWith "+++ ".toList ('\\' :: rest) = false := by
    simp [startsWith,isPrefixOf]
  have hunkHeader : startsWith "@@".toList ('\\' :: rest) = false := by
    simp [startsWith,isPrefixOf]
  have attached : attachNoNewlineMarker file.current ('\\' :: rest) = .ok (pushLine hunk ('\\' :: rest)) := by
    rw [open_hunk]
    simp [attachNoNewlineMarker,last,isBody]
  unfold handleLine
  simp only [open_file,filter_some,notBody,Bool.and_false,Bool.false_eq_true,if_false,oldHeader]
  unfold handleFileLine
  simp only [signature,newHeader,hunkHeader,Bool.false_eq_true,if_false]
  unfold handleBodyLine
  simp only [marked,if_true,attached]
  rfl

end Read

section Sections

structure FileHeader where
  oldLine : Text
  newLine : Text
  oldPath : Text
  newPath : Text
  oldMarked : startsWith "--- ".toList oldLine = true
  newMarked : startsWith "+++ ".toList newLine = true
  oldNamed : headerPath oldLine = .ok oldPath
  newNamed : headerPath newLine = .ok newPath

def FileHeader.lines (header : FileHeader) : List Text := [header.oldLine,header.newLine]

def FileHeader.change (header : FileHeader) (hunks : List PatchHunk) : PatchFileChange where
  path := (classify header.oldPath header.newPath).2
  kind := (classify header.oldPath header.newPath).1
  hunks := hunks
  addedLines := (hunks.flatMap PatchHunk.lines).countP (isMarked '+')
  removedLines := (hunks.flatMap PatchHunk.lines).countP (isMarked '-')

end Sections

section Reread

variable {s next : ParseState} {file closed : FileAccumulator} {hunk : PatchHunk} {hunks : List PatchHunk}
  {fs : List PatchFileChange}

def readingFile (closed : FileAccumulator) (hunk : PatchHunk) (lines : List Text) :
    FileAccumulator :=
  { closed with
    added := closed.added + lines.countP (isMarked '+')
    removed := closed.removed + lines.countP (isMarked '-')
    current := some {
      oldStart := hunk.oldStart
      oldLines := hunk.oldLines
      newStart := hunk.newStart
      newLines := hunk.newLines
      lines
      oldRemaining := hunk.oldLines - lines.countP onOldSide
      newRemaining := hunk.newLines - lines.countP onNewSide
      source := none } }

theorem readingFile_body (ls : List Text) (line : Text) : { countBody (readingFile closed hunk ls) line with
      current := (readingFile closed hunk ls).current.map fun hunk =>
        consumeBudget (pushLine hunk line) line } = readingFile closed hunk (ls ++ [line]) := by
  simp only [readingFile,countBody,consumeBudget,pushLine,map_some,countP_append,
    countP_singleton_toNat,Nat.add_assoc,Nat.sub_sub]

theorem readingFile_marker (ls : List Text) {line : Text} (marked : isMarked '\\' line = true) :
    { readingFile closed hunk ls with
      current := (readingFile closed hunk ls).current.map fun hunk => pushLine hunk line } =
        readingFile closed hunk (ls ++ [line]) := by
  obtain ⟨notOld,notNew,notAdded,notRemoved⟩ := marker_sides marked
  simp [readingFile,pushLine,countP_append,notOld,notNew,notAdded,notRemoved]

theorem readLines_body (s : ParseState) (closed : FileAccumulator) {ls : List Text} (body : HunkBody ls)
    (oldFits : ls.countP onOldSide ≤ hunk.oldLines)
    (newFits : ls.countP onNewSide ≤ hunk.newLines) :
    readLines { s with current := some (readingFile closed hunk []) } ls =
      .ok { s with current := some (readingFile closed hunk ls) } := by
  induction body with
  | nil => rfl
  | @body ls line rest isBody ih =>
    rw [countP_append,countP_singleton_toNat] at oldFits newFits
    rw [readLines_append,ih (by omega) (by omega)]
    change readLines _ [line] = _
    rw [readLines_cons,handleLine_body rfl rfl isBody (Nat.le_sub_of_add_le' oldFits) (Nat.le_sub_of_add_le' newFits)]
    rw [← readingFile_body]
    rfl
  | @marker ls prev line rest isBody isMarker ih =>
    rw [countP_append] at oldFits newFits
    rw [readLines_append,ih (by omega) (by omega)]
    change readLines _ [line] = _
    rw [readLines_cons,handleLine_marker rfl rfl getLast?_concat isBody isMarker]
    rw [← readingFile_marker _ isMarker]
    rfl

theorem readLines_renderHunk (formed : hunk.WellFormed) (open_file : s.current = some file)
    (finished : finishHunk file = .ok closed) (unobserved : closed.source = none) :
    ∃ read, readLines s (renderHunk hunk) = .ok { s with current := some read } ∧
      finishHunk read = .ok { closed with
        hunks := closed.hunks ++ [hunk]
        current := none
        added := closed.added + hunk.lines.countP (isMarked '+')
        removed := closed.removed + hunk.lines.countP (isMarked '-') } := by
  have marked : startsWith "@@".toList (renderHunkHeader hunk) = true := by
    unfold renderHunkHeader
    simp [startsWith,isPrefixOf]
  refine ⟨readingFile closed hunk hunk.lines,?_,?_⟩
  · rw [renderHunk,readLines_cons,handleLine_hunkHeader open_file finished marked (parseHunkHeader_render formed)]
    have read := readLines_body s closed formed.body (le_of_eq formed.oldCount) (le_of_eq formed.newCount)
    exact read
  · unfold finishHunk readingFile
    simp [formed.oldCount,formed.newCount,toHunk,unobserved]

theorem readLines_renderHunks (formed : ∀ hunk ∈ hunks, hunk.WellFormed)
    (open_file : s.current = some file) (finished : finishHunk file = .ok closed)
    (none_open : closed.current = none) (unobserved : closed.source = none) :
    ∃ read, readLines s (hunks.flatMap renderHunk) = .ok { s with current := some read } ∧
      finishHunk read = .ok { closed with
        hunks := closed.hunks ++ hunks
        added := closed.added + (hunks.flatMap PatchHunk.lines).countP (isMarked '+')
        removed := closed.removed + (hunks.flatMap PatchHunk.lines).countP (isMarked '-') } := by
  induction hunks generalizing s file closed with
  | nil =>
    refine ⟨file,?_,?_⟩
    · cases s
      cases open_file
      rfl
    · simpa using finished
  | cons hunk hunks ih =>
    obtain ⟨read,a,closes⟩ := readLines_renderHunk (formed hunk (by simp)) open_file finished unobserved
    have open_read : { s with current := some read }.current = some read := rfl
    obtain ⟨last,rest,closesLast⟩ := ih (fun hunk mem => formed hunk (by simp [mem])) open_read closes rfl unobserved
    refine ⟨last,?_,?_⟩
    · rw [flatMap_cons,readLines_append,a]
      exact rest
    · rw [closesLast]
      simp [none_open,countP_append,Nat.add_assoc]

variable {change : PatchFileChange}

theorem renderHeader_paths (formed : change.WellFormed) (plain : PlainPath change.path) :
    ∃ oldLine newLine oldPath newPath, renderHeader change = [oldLine,newLine] ∧
      startsWith "--- ".toList oldLine = true ∧ headerPath oldLine = .ok oldPath ∧
      startsWith "+++ ".toList newLine = true ∧ headerPath newLine = .ok newPath ∧
      classify oldPath newPath = (change.kind,change.path) := by
  have old : headerPath ("--- a/".toList ++ change.path) = .ok change.path :=
    headerPath_own "--- ".toList rfl (.inl rfl) plain
  have new : headerPath ("+++ b/".toList ++ change.path) = .ok change.path :=
    headerPath_own "+++ ".toList rfl (.inr rfl) plain
  have oldNull : headerPath "--- /dev/null".toList = .ok devNull := by decide +kernel
  have newNull : headerPath "+++ /dev/null".toList = .ok devNull := by decide +kernel
  unfold renderHeader
  cases kind : change.kind with
  | create =>
    refine ⟨_,_,_,_,rfl,?_,oldNull,?_,new,if_pos rfl⟩
    · simp [startsWith,isPrefixOf]
    · simp [startsWith,isPrefixOf]
  | delete =>
    refine ⟨_,_,_,_,rfl,?_,old,?_,newNull,?_⟩
    · simp [startsWith,isPrefixOf]
    · simp [startsWith,isPrefixOf]
    · rw [classify,if_neg (formed.named (by simp [kind])),if_pos rfl]
  | modify =>
    have named := formed.named (by simp [kind])
    refine ⟨_,_,_,_,rfl,?_,old,?_,new,?_⟩
    · simp [startsWith,isPrefixOf]
    · simp [startsWith,isPrefixOf]
    · rw [classify,if_neg named,if_neg named]

theorem readLines_section (header : FileHeader)
    (formed : ∀ hunk ∈ hunks, hunk.WellFormed) (finished : finishCurrent s = .ok next)
    (unobserved : next.sources = none) :
    ∃ file closed, readLines s (header.lines ++ hunks.flatMap renderHunk) =
        .ok { next with current := some file } ∧ finishHunk file = .ok closed ∧
      ∀ last, finishHunk last = .ok closed → finishCurrent { next with current := some last } =
        .ok ⟨next.files ++ [header.change hunks],none,some last⟩ := by
  let opened : FileAccumulator :=
    { newFileAccumulator header.oldPath none with newPath := some header.newPath }
  have headerRead : readLines s header.lines = .ok { next with current := some opened } := by
    have closes : finishHunk (newFileAccumulator header.oldPath none) =
      .ok (newFileAccumulator header.oldPath none) := rfl
    rw [FileHeader.lines,readLines_cons,handleLine_oldHeader finished header.oldMarked header.oldNamed]
    change readLines _ [header.newLine] = _
    rw [readLines_cons,handleLine_newHeader rfl closes rfl header.newMarked header.newNamed]
    rfl
  have open_file : { next with current := some opened }.current = some opened := rfl
  obtain ⟨file,hunksRead,closes⟩ := readLines_renderHunks formed open_file (rfl : finishHunk opened = _) rfl rfl
  have noneAdded : opened.added = 0 := rfl
  have noneRemoved : opened.removed = 0 := rfl
  rw [noneAdded,noneRemoved,Nat.zero_add,Nat.zero_add] at closes
  refine ⟨file,_,?_,closes,?_⟩
  · rw [readLines_append,headerRead]
    exact hunksRead
  · intro last finishes
    change finishFile { next with current := some last } last = _
    unfold finishFile
    rw [finishes]
    change Except.ok _ = Except.ok _
    rw [unobserved]
    rfl

theorem readLines_renderFile (formed : change.WellFormed) (plain : PlainPath change.path)
    (finished : finishCurrent s = .ok next) (unobserved : next.sources = none) :
    ∃ read done, readLines s (renderFile change) = .ok read ∧ finishCurrent read = .ok done ∧ done.sources = none ∧
      done.files = next.files ++ [change] := by
  obtain ⟨oldLine,newLine,oldPath,newPath,header,oldMarked,old,newMarked,new,named⟩ :=
    renderHeader_paths formed plain
  let fileHeader : FileHeader := ⟨oldLine,newLine,oldPath,newPath,oldMarked,newMarked,old,new⟩
  obtain ⟨file,closed,read,closes,finishes⟩ :=
    readLines_section fileHeader formed.hunks finished unobserved
  have same : fileHeader.change change.hunks = change := by
    unfold FileHeader.change
    change PatchFileChange.mk (classify oldPath newPath).2 (classify oldPath newPath).1 _
      (change.lines.countP (isMarked '+')) (change.lines.countP (isMarked '-')) = change
    rw [named,← formed.added,← formed.removed]
  rw [same] at finishes
  refine ⟨_,_,?_,finishes file closes,rfl,rfl⟩
  rw [renderFile,header]
  exact read

theorem readLines_renderFiles
    (formed : ∀ file ∈ fs, file.WellFormed) (plain : ∀ file ∈ fs, PlainPath file.path)
    (finished : finishCurrent s = .ok next) (unobserved : next.sources = none) :
    ∃ read done, readLines s (fs.flatMap renderFile) = .ok read ∧
      finishCurrent read = .ok done ∧ done.files = next.files ++ fs := by
  induction fs generalizing s next with
  | nil => exact ⟨s,next,rfl,finished,by simp⟩
  | cons file fs ih =>
    obtain ⟨middle,done,a,finishedFirst,kept,filesFirst⟩ := readLines_renderFile
      (formed file (by simp)) (plain file (by simp)) finished unobserved
    obtain ⟨read,last,rest,finishedLast,filesLast⟩ := ih (fun file mem => formed file (by simp [mem]))
      (fun file mem => plain file (by simp [mem])) finishedFirst kept
    refine ⟨read,last,?_,finishedLast,?_⟩
    · rw [flatMap_cons,readLines_append,a]
      exact rest
    · rw [filesLast,filesFirst]
      simp

theorem renderHunkHeader_unbroken (hunk : PatchHunk) : '\n' ∉ renderHunkHeader hunk := by
  have ds : ∀ n, '\n' ∉ Text.numberText n := by
    intro n mem
    exact absurd (Text.isDigit_of_mem_numberText mem) (by decide)
  unfold renderHunkHeader
  simp [ds]

theorem renderHunk_unbroken (formed : hunk.WellFormed) : ∀ line ∈ renderHunk hunk, '\n' ∉ line := by
  intro line mem
  obtain rfl | inBody := mem_cons.mp mem
  · exact renderHunkHeader_unbroken hunk
  · exact formed.unbroken line inBody

theorem renderFile_unbroken (formed : change.WellFormed) (plain : PlainPath change.path) :
    ∀ line ∈ renderFile change, '\n' ∉ line := by
  intro line mem
  obtain inHeader | inHunks := mem_append.mp mem
  · have noBreak := plain.noBreak
    unfold renderHeader at inHeader
    cases kind : change.kind <;> rw [kind] at inHeader <;>
      obtain rfl | rfl := (by simpa using inHeader : line = _ ∨ line = _) <;> simp [noBreak]
  · obtain ⟨hunk,inside,inHunk⟩ := mem_flatMap.mp inHunks
    exact renderHunk_unbroken (formed.hunks hunk inside) line inHunk

theorem parseUnifiedDiff_renderParsedPatch
    (formed : ∀ file ∈ fs, file.WellFormed) (plain : ∀ file ∈ fs, PlainPath file.path) :
    parseUnifiedDiff (renderParsedPatch fs) = .ok fs := by
  rw [parseUnifiedDiff_eq]
  obtain ⟨read,done,reads,finished,parsed⟩ := readLines_renderFiles formed plain
    (rfl : finishCurrent ⟨[],none,none⟩ = _) rfl
  have ls : readLines ⟨[],none,none⟩ (Text.splitLines (renderParsedPatch fs)) = .ok read := by
    by_cases empty : fs.flatMap renderFile = []
    · rw [empty] at reads
      rw [renderParsedPatch,empty]
      exact reads
    · rw [renderParsedPatch,Text.splitLines_joinLines _ empty]
      · exact reads
      · intro line mem
        obtain ⟨file,inside,inFile⟩ := mem_flatMap.mp mem
        exact renderFile_unbroken (formed file inside) (plain file inside) line inFile
  rw [ls]
  change (finishCurrent read).map ParseState.files = _
  rw [finished]
  exact congrArg Except.ok parsed

end Reread

end Keiko.UnifiedDiff
