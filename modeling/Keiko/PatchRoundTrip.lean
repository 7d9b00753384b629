import Keiko.PatchRender
import Mathlib.Data.Finset.Max

/-! Why only plain paths survive the round trip. Each parsed file is paid for by a header
line that names its path and is no line of a hunk. Among the paths that are not plain a
longest one is named by no header line of the rendered diff: what stands there unquoted is
plain, and what stands there quoted is shorter than the path that it is a part of. -/
namespace Keiko.UnifiedDiff
open Keiko.Library List Option

section Charge

def namesPath (path line : Text) : Bool :=
  (startsWith "--- ".toList line || startsWith "+++ ".toList line) &&
    (headerPath line).toOption == some path

def PatchFileChange.charge (path : Text) (file : PatchFileChange) : Nat :=
  file.lines.countP (namesPath path) + (decide (file.path = path)).toNat

def FileAccumulator.charge (path : Text) (file : FileAccumulator) : Nat :=
  file.lines.countP (namesPath path) + (decide (file.oldPath = path)).toNat + (decide (file.newPath = some path)).toNat

def ParseState.charge (path : Text) (state : ParseState) : Nat :=
  (state.files.map (PatchFileChange.charge path)).sum + state.current.elim 0 (FileAccumulator.charge path)

variable {path line : Text} {file closed : FileAccumulator} {state next : ParseState}
  {source : Option UnifiedDiffSourceRange}

theorem namesPath_of_header (marked : startsWith "--- ".toList line = true ∨
    startsWith "+++ ".toList line = true) {named : Text} (hit : headerPath line = .ok named) :
    (namesPath path line).toNat = (decide (named = path)).toNat := by
  have header : (startsWith "--- ".toList line || startsWith "+++ ".toList line) = true := by
    simpa using marked
  rw [namesPath,header,hit,Bool.true_and]
  by_cases same : named = path <;> simp [Except.toOption,same]

theorem finishHunk_charge (path : Text) (finished : finishHunk file = .ok closed) :
    closed.current = none ∧ closed.charge path = file.charge path := by
  obtain ⟨none_open,rfl⟩ | ⟨h,open_hunk,-,-,rfl⟩ := finishHunk_cases finished
  · exact ⟨none_open,rfl⟩
  · refine ⟨rfl,?_⟩
    simp [FileAccumulator.charge,FileAccumulator.lines,open_hunk,toHunk]

theorem fileChange_charge (path : Text) {newPath : Text} (none_open : closed.current = none)
    (named : closed.newPath = some newPath) :
    (fileChange closed newPath).charge path ≤ closed.charge path := by
  have ls : (fileChange closed newPath).lines = closed.lines := by
    simp [PatchFileChange.lines,fileChange,FileAccumulator.lines,none_open]
  have name : (fileChange closed newPath).path = closed.oldPath ∨ (fileChange closed newPath).path = newPath := by
    unfold fileChange classify
    dsimp only
    split
    · exact .inr rfl
    · split
      · exact .inl rfl
      · exact .inr rfl
  simp only [PatchFileChange.charge,FileAccumulator.charge,ls,named,some_inj]
  obtain same | same := name <;> simp only [same] <;> omega

theorem finishCurrent_charge (path : Text) (finished : finishCurrent state = .ok next) :
    (next.files.map (PatchFileChange.charge path)).sum ≤ state.charge path := by
  obtain ⟨-,rfl⟩ | ⟨file,open_file,finished⟩ := finishCurrent_cases finished
  · exact Nat.le_add_right _ _
  · obtain ⟨closed,closes,⟨-,-,rfl⟩ | ⟨newPath,named,rfl⟩⟩ := finishFile_cases finished
    · exact Nat.le_add_right _ _
    · obtain ⟨none_open,kept⟩ := finishHunk_charge path closes
      have less := fileChange_charge path none_open named
      rw [ParseState.charge,open_file,elim_some,map_append,sum_append]
      simpa [← kept] using less

theorem ParseState.charge_open (open_file : state.current = some file) (other : FileAccumulator)
    {more : Nat} (less : other.charge path ≤ file.charge path + more) :
    { state with current := some other }.charge path ≤ state.charge path + more := by
  rw [ParseState.charge,ParseState.charge,open_file,elim_some,elim_some,add_assoc]
  exact Nat.add_le_add_left less _

theorem FileAccumulator.charge_push {h pushed : HunkAccumulator} {added removed : Nat}
    (open_hunk : file.current = some h) (ls : pushed.lines = h.lines ++ [line]) :
    { file with current := some pushed, added, removed }.charge path =
      file.charge path + (namesPath path line).toNat := by
  simp only [FileAccumulator.charge,FileAccumulator.lines,open_hunk,ls,elim_some,
    countP_append,countP_singleton_toNat]
  omega

theorem Step.charge (path : Text) (step : Step state line source next) :
    next.charge path ≤ state.charge path + (namesPath path line).toNat := by
  cases step with
  | skipped => exact Nat.le_add_right _ _
  | body file h open_file open_hunk isBody oldFits newFits =>
    apply ParseState.charge_open open_file
    apply le_of_eq
    exact FileAccumulator.charge_push open_hunk (by simp [consumeBudget,pushLine])
  | marker file h prev open_file open_hunk last isBody isMarker =>
    apply ParseState.charge_open open_file
    apply le_of_eq
    exact FileAccumulator.charge_push open_hunk (by simp [pushLine])
  | closed file closed open_file finished =>
    apply ParseState.charge_open open_file
    rw [(finishHunk_charge path finished).2]
    exact Nat.le_add_right _ _
  | newHeader file newPath open_file marked hit =>
    apply ParseState.charge_open open_file
    rw [namesPath_of_header (.inr marked) hit]
    simp only [FileAccumulator.charge,FileAccumulator.lines,some_inj]
    omega
  | hunkHeader file closed h open_file finished parsed =>
    obtain ⟨none_open,kept⟩ := finishHunk_charge path finished
    apply ParseState.charge_open open_file
    have empty := (parseHunkHeader_sound parsed).2
    rw [← kept]
    simp [FileAccumulator.charge,FileAccumulator.lines,none_open,empty]
  | newFile oldPath finished marked hit closed =>
    have less := finishCurrent_charge path closed
    rw [namesPath_of_header (.inl marked) hit]
    simp only [ParseState.charge,elim_some,FileAccumulator.charge,newFileAccumulator,
      FileAccumulator.lines,elim_none,flatMap_nil,append_nil,countP_nil]
    simpa [ParseState.charge] using less

theorem readLines_charge (path : Text) {ls : List Text} (read : readLines state ls = .ok next) :
    next.charge path ≤ state.charge path + ls.countP (namesPath path) := by
  induction ls generalizing state with
  | nil =>
    cases read
    exact Nat.le_add_right _ _
  | cons line ls ih =>
    rw [readLines_cons] at read
    obtain ⟨middle,handled,read⟩ := bind_eq_ok.mp read
    have a := (handleLine_step handled).charge path
    have rest := ih read
    rw [← singleton_append,countP_append,countP_singleton_toNat]
    omega

theorem parseUnifiedDiff_charge (path : Text) {diff : Text} {files : List PatchFileChange}
    (parsed : parseUnifiedDiff diff = .ok files) :
    (files.map (PatchFileChange.charge path)).sum ≤ (Text.splitLines diff).countP (namesPath path) := by
  rw [parseUnifiedDiff_eq] at parsed
  obtain ⟨finished,looped,rfl⟩ := map_eq_ok.mp parsed
  obtain ⟨state,read,closed⟩ := bind_eq_ok.mp looped
  have charged := readLines_charge path read
  have less := finishCurrent_charge path closed
  simp only [ParseState.charge,map_nil,sum_nil,elim_none,zero_add] at charged less
  omega

end Charge

section Pieces

variable {path line : Text}

theorem headerPath_plain (unbroken : '\n' ∉ line) (unquoted : (rawPath line).head? ≠ some '"')
    (hit : headerPath line = .ok path) : PlainPath path := by
  rw [headerPath_unquoted unquoted] at hit
  cases hit
  have raw : PlainPath (rawPath line) := by
    have inside := (Text.trim_sublist ((line.drop 4).takeWhile (· != '\t'))).subset
    refine ⟨?_,?_,Text.isSpace_of_getLast?_trimEnd _⟩
    · intro mem
      simpa using mem_takeWhile_imp (inside mem)
    · intro mem
      exact unbroken (mem_of_mem_drop ((takeWhile_sublist _).subset (inside mem)))
  have stripped : ∀ a b rest, rawPath line = a :: b :: rest → PlainPath rest := by
    intro a b rest same
    rw [same] at raw
    refine ⟨fun mem => raw.noTab (by simp [mem]),fun mem => raw.noBreak (by simp [mem]),?_⟩
    intro c last
    apply raw.ends c
    rw [getLast?_cons,getLast?_cons,mem_def.mp last]
    rfl
  unfold stripPrefix
  split
  case h_1 rest same => exact stripped _ _ rest same
  case h_2 rest same => exact stripped _ _ rest same
  case h_3 => exact raw

theorem quotedBytes_length {content : Text} {bytes : List UInt8}
    (read : quotedBytes content = some bytes) : bytes.length ≤ Text.byteLength content := by
  have wide := Char.utf8Size_pos
  fun_induction quotedBytes content generalizing bytes with
  | case1 =>
    cases read
    exact le_refl _
  | case2 first b third rest byte escape ih =>
    obtain ⟨more,tail,rfl⟩ := map_eq_some_iff.mp read
    have less := ih tail
    simp only [Text.byteLength_cons,length_cons]
    have width := wide first
    omega
  | case3 first b third rest escape byte simple ih =>
    obtain ⟨more,tail,rfl⟩ := map_eq_some_iff.mp read
    have less := ih tail
    simp only [Text.byteLength_cons,length_cons] at less ⊢
    have width := wide first
    omega
  | case4 => cases read
  | case5 first rest short byte simple ih =>
    obtain ⟨more,tail,rfl⟩ := map_eq_some_iff.mp read
    have less := ih tail
    simp only [Text.byteLength_cons,length_cons] at less ⊢
    have width := wide first
    omega
  | case6 => cases read
  | case7 => cases read
  | case8 c rest notEscape notShort notLast ih =>
    obtain ⟨more,tail,rfl⟩ := map_eq_some_iff.mp read
    have less := ih tail
    simp only [Text.byteLength_cons,length_append,String.length_utf8EncodeChar]
    omega

theorem decodePathBytes_byteLength {bytes : List UInt8}
    (read : decodePathBytes bytes = some path) : Text.byteLength path ≤ bytes.length := by
  unfold decodePathBytes at read
  cases decoded : Text.decodeUtf8 bytes with
  | none => simp [decoded] at read
  | some t =>
    rw [decoded] at read
    have whole : Text.byteLength t = bytes.length := by
      rw [Text.byteLength_eq,Text.encodeUtf8_of_decodeUtf8 decoded]
    obtain ⟨-,same⟩ := ite_none_left_eq_some.mp read
    obtain rfl := some_inj.mp same
    rw [← whole]
    split
    · exact Text.byteLength_sublist (drop_sublist 1 t)
    · exact le_refl _

theorem byteLength_stripPrefix (raw : Text) : Text.byteLength (stripPrefix raw) ≤ Text.byteLength raw := by
  unfold stripPrefix
  split
  · simp only [Text.byteLength_cons]
    omega
  · simp only [Text.byteLength_cons]
    omega
  · exact le_refl _

theorem headerPath_shorter (quoted : (rawPath line).head? = some '"')
    (hit : headerPath line = .ok path) : Text.byteLength path < Text.byteLength line := by
  obtain ⟨decoded,read,rfl⟩ := headerPath_quoted quoted hit
  unfold decodeGitQuotedPath at read
  split at read
  · contradiction
  case isFalse =>
    obtain ⟨bytes,content,read⟩ := bind_eq_some_iff.mp read
    obtain ⟨rest,raw⟩ := head?_eq_some_iff.mp quoted
    have stripped := byteLength_stripPrefix decoded
    have a := decodePathBytes_byteLength read
    have b := quotedBytes_length content
    have third : Text.byteLength (rawPath line) ≤ Text.byteLength line :=
      Text.byteLength_sublist ((Text.trim_sublist _).trans ((takeWhile_sublist _).trans (drop_sublist 4 line)))
    rw [raw] at third b
    have fourth := Text.byteLength_sublist (dropLast_sublist rest)
    have width := Char.utf8Size_pos '"'
    simp only [Text.byteLength_cons,drop_one,tail_cons] at b third
    omega

end Pieces

section RoundTrip

variable {files : List PatchFileChange} {file : PatchFileChange} {longest path line : Text}

theorem headerPath_of_namesPath (names : namesPath longest line = true) : headerPath line = .ok longest := by
  simp only [namesPath,Bool.and_eq_true,beq_iff_eq] at names
  cases found : headerPath line with
  | error failure => simp [found,Except.toOption] at names
  | ok named =>
    have same := names.2
    rw [found] at same
    exact congrArg Except.ok (some_inj.mp same)

theorem namesPath_of_plain (notPlain : ¬ PlainPath longest) (plain : PlainPath path)
    (hit : headerPath line = .ok path) : namesPath longest line = false := by
  by_contra names
  have same := headerPath_of_namesPath (by simpa using names)
  rw [hit] at same
  cases same
  exact notPlain plain

theorem namesPath_pieces (start : Text) (notPlain : ¬ PlainPath longest)
    (shorter : ¬ PlainPath path → Text.byteLength path ≤ Text.byteLength longest)
    (unbroken : '\n' ∉ start)
    (unquoted : ∀ rest, (rawPath (start ++ rest)).head? ≠ some '"') :
    ∀ line ∈ Text.splitLines (start ++ path), namesPath longest line = false := by
  intro line mem
  have whole := Text.splitLines_unbroken _ line mem
  by_contra names
  have hit := headerPath_of_namesPath (by simpa using names)
  by_cases quoted : (rawPath line).head? = some '"'
  · obtain ⟨a,rest,ls⟩ := exists_cons_of_ne_nil (Text.splitLines_ne_nil path)
    rw [Text.splitLines_append unbroken,ls,modifyHead_cons] at mem
    obtain rfl | post := mem_cons.mp mem
    · exact unquoted a quoted
    · have short := headerPath_shorter quoted hit
      have part : Text.byteLength line < Text.byteLength path := by
        apply Text.byteLength_lt_of_mem_tail
        rw [ls]
        exact post
      have broken : ¬ PlainPath path := by
        intro plain
        rw [Text.splitLines_eq_singleton plain.noBreak] at ls
        cases ls
        contradiction
      have long := shorter broken
      omega
  · exact notPlain (headerPath_plain whole quoted hit)

theorem rawPath_unquoted (marker : Text) {letter : Char} (four : marker.length = 4)
    (known : letter = 'a' ∨ letter = 'b') (rest : Text) :
    (rawPath (marker ++ [letter,'/'] ++ rest)).head? ≠ some '"' := by
  have dropped : (marker ++ [letter,'/'] ++ rest).drop 4 = letter :: '/' :: rest := by
    rw [append_assoc,← four,drop_left]
    rfl
  rw [rawPath,dropped]
  obtain rfl | rfl := known
  · rw [takeWhile_cons_of_pos (by decide),Text.trim_cons _ (by decide)]
    simp
  · rw [takeWhile_cons_of_pos (by decide),Text.trim_cons _ (by decide)]
    simp

theorem renderHeader_pieces (notPlain : ¬ PlainPath longest)
    (shorter : ¬ PlainPath file.path → Text.byteLength file.path ≤ Text.byteLength longest) :
    ∀ line ∈ (renderHeader file).flatMap Text.splitLines, namesPath longest line = false := by
  have old := namesPath_pieces "--- a/".toList notPlain shorter (by decide)
    (rawPath_unquoted "--- ".toList rfl (.inl rfl))
  have new := namesPath_pieces "+++ b/".toList notPlain shorter (by decide)
    (rawPath_unquoted "+++ ".toList rfl (.inr rfl))
  have plain : PlainPath devNull := by decide +kernel
  have oldNull : namesPath longest "--- /dev/null".toList = false :=
    namesPath_of_plain notPlain plain (by decide +kernel)
  have newNull : namesPath longest "+++ /dev/null".toList = false :=
    namesPath_of_plain notPlain plain (by decide +kernel)
  have oldWhole : Text.splitLines "--- /dev/null".toList = ["--- /dev/null".toList] :=
    Text.splitLines_eq_singleton (by decide)
  have newWhole : Text.splitLines "+++ /dev/null".toList = ["+++ /dev/null".toList] :=
    Text.splitLines_eq_singleton (by decide)
  intro line mem
  obtain ⟨header,inHeader,inLine⟩ := mem_flatMap.mp mem
  unfold renderHeader at inHeader
  cases kind : file.kind with
  | create =>
    rw [kind] at inHeader
    obtain rfl | inHeader := mem_cons.mp inHeader
    · rw [oldWhole] at inLine
      rw [mem_singleton.mp inLine]
      exact oldNull
    · rw [mem_singleton.mp inHeader] at inLine
      exact new line inLine
  | delete =>
    rw [kind] at inHeader
    obtain rfl | inHeader := mem_cons.mp inHeader
    · exact old line inLine
    · rw [mem_singleton.mp inHeader,newWhole] at inLine
      rw [mem_singleton.mp inLine]
      exact newNull
  | modify =>
    rw [kind] at inHeader
    obtain rfl | inHeader := mem_cons.mp inHeader
    · exact old line inLine
    · rw [mem_singleton.mp inHeader] at inLine
      exact new line inLine

theorem renderHunks_names {hunks : List PatchHunk} : (hunks.flatMap renderHunk).countP (namesPath longest) =
      (hunks.flatMap PatchHunk.lines).countP (namesPath longest) := by
  induction hunks with
  | nil => rfl
  | cons h hunks ih =>
    have header : namesPath longest (renderHunkHeader h) = false := by
      unfold renderHunkHeader
      simp [namesPath,startsWith,isPrefixOf]
    rw [flatMap_cons,flatMap_cons,countP_append,countP_append,ih,renderHunk,countP_cons_of_neg (by simp [header])]

theorem renderFiles_names (formed : ∀ file ∈ files, file.WellFormed)
    (notPlain : ¬ PlainPath longest) (shorter : ∀ file ∈ files, ¬ PlainPath file.path →
      Text.byteLength file.path ≤ Text.byteLength longest) :
    ((files.flatMap renderFile).flatMap Text.splitLines).countP (namesPath longest) =
      (files.flatMap PatchFileChange.lines).countP (namesPath longest) := by
  induction files with
  | nil => rfl
  | cons file files ih =>
    have header : ((renderHeader file).flatMap Text.splitLines).countP (namesPath longest) = 0 := by
      rw [countP_eq_zero]
      intro line mem
      simp [renderHeader_pieces notPlain (shorter file (by simp)) line mem]
    have whole : (file.hunks.flatMap renderHunk).flatMap Text.splitLines = file.hunks.flatMap renderHunk := by
      apply Text.flatMap_splitLines
      intro line mem
      obtain ⟨h,inside,inHunk⟩ := mem_flatMap.mp mem
      exact renderHunk_unbroken ((formed file (by simp)).hunks h inside) line inHunk
    rw [flatMap_cons,flatMap_append,countP_append,renderFile,flatMap_append,
      countP_append,header,whole,renderHunks_names,zero_add,flatMap_cons,
      countP_append,ih (fun file mem => formed file (by simp [mem])) fun file mem => shorter file (by simp [mem])]
    rfl

theorem charge_sum (path : Text) (files : List PatchFileChange) : (files.map (PatchFileChange.charge path)).sum =
      (files.flatMap PatchFileChange.lines).countP (namesPath path) +
        files.countP fun file => decide (file.path = path) := by
  induction files with
  | nil => rfl
  | cons file files ih =>
    rw [map_cons,sum_cons,ih,flatMap_cons,countP_append,PatchFileChange.charge,
      ← singleton_append,countP_append,countP_singleton_toNat]
    omega

theorem plainPath_of_roundTrip (formed : ∀ file ∈ files, file.WellFormed)
    (parsed : parseUnifiedDiff (renderParsedPatch files) = .ok files) :
    ∀ file ∈ files, PlainPath file.path := by
  by_contra broken
  push Not at broken
  obtain ⟨file,inside,notPlain⟩ := broken
  let paths := ((files.map PatchFileChange.path).filter fun path => !decide (PlainPath path)).toFinset
  have mem_paths : ∀ path, path ∈ paths ↔ (∃ file ∈ files, file.path = path) ∧ ¬ PlainPath path := by
    intro path
    simp [paths]
  obtain ⟨longest,mem,shorter⟩ := paths.exists_max_image Text.byteLength
    ⟨file.path,(mem_paths _).mpr ⟨⟨file,inside,rfl⟩,notPlain⟩⟩
  obtain ⟨⟨named,namedInside,rfl⟩,broken⟩ := (mem_paths longest).mp mem
  -- The header lines pay for the lines of the hunks and for at least one file more.
  have charged := parseUnifiedDiff_charge named.path parsed
  have some_file : files.flatMap renderFile ≠ [] := by
    intro empty
    have header := flatMap_eq_nil_iff.mp empty named namedInside
    unfold renderFile renderHeader at header
    cases kind : named.kind <;> simp [kind] at header
  have names := renderFiles_names formed broken fun file inside notPlain =>
    shorter file.path ((mem_paths _).mpr ⟨⟨file,inside,rfl⟩,notPlain⟩)
  rw [charge_sum,renderParsedPatch,Text.splitLines_joinLines_flatMap some_file,names] at charged
  have counted : 0 < files.countP fun file => decide (file.path = named.path) :=
    countP_pos_iff.mpr ⟨named,namedInside,by simp⟩
  omega

/-- Parsed files survive rendering and parsing exactly when all their paths are plain. -/
theorem parseUnifiedDiff_renderParsedPatch_iff {diff : Text}
    (parsed : parseUnifiedDiff diff = .ok files) :
    parseUnifiedDiff (renderParsedPatch files) = .ok files ↔
      ∀ file ∈ files, PlainPath file.path := by
  obtain ⟨patch,observed,same⟩ := map_eq_ok.mp parsed
  have formed := observeUnifiedDiff_wellFormed observed
  rw [same] at formed
  exact ⟨plainPath_of_roundTrip formed,parseUnifiedDiff_renderParsedPatch formed⟩

def patchOf (oldName newName : String) : Text :=
  ("--- " ++ oldName ++ "\n+++ " ++ newName ++ "\n@@ -1 +1 @@\n-a\n+b").toList

def replacedFile (path : String) : PatchFileChange :=
  ⟨path.toList,.modify,[⟨1,1,1,1,["-a".toList,"+b".toList]⟩],1,1⟩

theorem parseUnifiedDiff_renderParsedPatch_iff_quoted :
    parseUnifiedDiff (renderParsedPatch [replacedFile "\u00e4"]) = .ok [replacedFile "\u00e4"] ↔
      ∀ file ∈ [replacedFile "\u00e4"], PlainPath file.path := by
  have parsed : parseUnifiedDiff (patchOf "\"a/\\303\\244\"" "\"b/\\303\\244\"") =
      .ok [replacedFile "\u00e4"] := by decide +kernel
  exact parseUnifiedDiff_renderParsedPatch_iff parsed

/-- A tab in a path does not come back. -/
theorem parseUnifiedDiff_renderParsedPatch_not_ok :
    ¬ ∀ diff files, parseUnifiedDiff diff = .ok files →
      parseUnifiedDiff (renderParsedPatch files) = .ok files := by
  intro roundTrip
  have parsed : parseUnifiedDiff (patchOf "\"a/x\\ty\"" "\"b/x\\ty\"") =
      .ok [replacedFile "x\ty"] := by decide +kernel
  have lost : parseUnifiedDiff (renderParsedPatch [replacedFile "x\ty"]) =
      .ok [replacedFile "x"] := by decide +kernel
  have same := roundTrip _ _ parsed
  rw [lost] at same
  exact absurd same (by decide +kernel)

end RoundTrip

end Keiko.UnifiedDiff
