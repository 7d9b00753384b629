import Keiko.Library.Except
import Keiko.UnifiedDiff

/-! What the parser accepts is well formed: each hunk holds as many lines of either side
as it declares, a marker stands right after a body line, and the counts of a file are
those of its lines. The moves of the machine are listed once and the invariant is
carried over each of them. -/
namespace Keiko.UnifiedDiff
open Keiko.Library List Option

section Steps

inductive Step (state : ParseState) (line : Text) (source : Option UnifiedDiffSourceRange) :
    ParseState → Prop where
  | skipped : Step state line source state
  | body (file : FileAccumulator) (hunk : HunkAccumulator) (open_file : state.current = some file)
      (open_hunk : file.current = some hunk) (isBody : isHunkBodyLine line = true)
      (oldFits : (onOldSide line).toNat ≤ hunk.oldRemaining)
      (newFits : (onNewSide line).toNat ≤ hunk.newRemaining) :
      Step state line source { state with current := some { countBody file line with
        current := some (consumeBudget (recordSourceLine (pushLine hunk line) line source) line) } }
  | marker (file : FileAccumulator) (hunk : HunkAccumulator) (previous : Text)
      (open_file : state.current = some file) (open_hunk : file.current = some hunk)
      (last : hunk.lines.getLast? = some previous) (isBody : isHunkBodyLine previous = true)
      (isMarker : isMarked '\\' line = true) :
      Step state line source { state with current := some { file with
        current := some (recordSourceLine (pushLine hunk line) line source) } }
  | closed (file next : FileAccumulator) (open_file : state.current = some file)
      (finished : finishHunk file = .ok next) :
      Step state line source { state with current := some next }
  | newHeader (file : FileAccumulator) (newPath : Text) (open_file : state.current = some file)
      (marked : startsWith "+++ ".toList line = true) (path : headerPath line = .ok newPath) :
      Step state line source { state with current := some { file with
        newPath := some newPath
        source := file.source.map fun fileSource => { fileSource with newHeader := source } } }
  | hunkHeader (file next : FileAccumulator) (hunk : HunkAccumulator)
      (open_file : state.current = some file) (finished : finishHunk file = .ok next)
      (parsed : parseHunkHeader line source = .ok hunk) :
      Step state line source { state with current := some { next with current := some hunk } }
  | newFile (oldPath : Text) (finished : ParseState)
      (marked : startsWith "--- ".toList line = true) (path : headerPath line = .ok oldPath)
      (closed : finishCurrent state = .ok finished) :
      Step state line source { finished with current := some (newFileAccumulator oldPath source) }

variable {state next : ParseState} {file : FileAccumulator} {line : Text} {source : Option UnifiedDiffSourceRange}

theorem Step.of_same (open_file : state.current = some file) :
    Step state line source { state with current := some file } := by
  have same : { state with current := some file } = state := by
    cases state
    simpa using open_file.symm
  rw [same]
  exact Step.skipped

theorem handleBodyLine_step {res : FileAccumulator} (open_file : state.current = some file)
    (handled : handleBodyLine file line source = .ok res) :
    Step state line source { state with current := some res } := by
  unfold handleBodyLine at handled
  split at handled
  case isTrue isMarker =>
    obtain ⟨attached,attaches,rest⟩ := bind_eq_ok.mp handled
    cases pure_eq_ok.mp rest
    unfold attachNoNewlineMarker at attaches
    split at attaches
    case h_1 => contradiction
    case h_2 hunk prev hit =>
      obtain ⟨hunk',open_hunk,last⟩ := bind_eq_some_iff.mp hit
      obtain ⟨previous',last,same⟩ := map_eq_some_iff.mp last
      cases same
      split at attaches
      case isTrue isBody =>
        cases attaches
        exact Step.marker file hunk prev open_file open_hunk last isBody isMarker
      case isFalse => contradiction
  case isFalse =>
    split at handled
    case h_1 =>
      split at handled
      · contradiction
      · cases handled
        exact Step.of_same open_file
    case h_2 hunk open_hunk =>
      split at handled
      case isTrue => exact Step.closed file res open_file handled
      case isFalse isBody =>
        obtain ⟨_,available,rest⟩ := bind_eq_ok.mp handled
        cases pure_eq_ok.mp rest
        unfold assertBudgetAvailable at available
        split at available
        · contradiction
        case isFalse fits =>
          rw [not_or,Nat.not_lt,Nat.not_lt] at fits
          exact Step.body file hunk open_file open_hunk (by simpa using isBody) fits.1 fits.2

theorem handleLine_step (handled : handleLine state line source = .ok next) : Step state line source next := by
  unfold handleLine at handled
  split at handled
  case h_1 file active =>
    obtain ⟨open_file,-⟩ := filter_eq_some_iff.mp active
    obtain ⟨res,body,rest⟩ := bind_eq_ok.mp handled
    cases pure_eq_ok.mp rest
    exact handleBodyLine_step open_file body
  case h_2 =>
    split at handled
    case isTrue marked =>
      obtain ⟨oldPath,path,rest⟩ := bind_eq_ok.mp handled
      obtain ⟨finished,closed,rest⟩ := bind_eq_ok.mp rest
      cases pure_eq_ok.mp rest
      exact Step.newFile oldPath finished marked path closed
    case isFalse =>
      split at handled
      case h_1 =>
        cases handled
        exact Step.skipped
      case h_2 file open_file =>
        unfold handleFileLine at handled
        split at handled
        case isTrue =>
          obtain ⟨closed,finished,rest⟩ := bind_eq_ok.mp handled
          cases pure_eq_ok.mp rest
          exact Step.closed file closed open_file finished
        case isFalse =>
          split at handled
          case isTrue marked =>
            obtain ⟨newPath,path,rest⟩ := bind_eq_ok.mp handled
            cases pure_eq_ok.mp rest
            exact Step.newHeader file newPath open_file marked path
          case isFalse =>
            split at handled
            case isTrue =>
              obtain ⟨closed,finished,rest⟩ := bind_eq_ok.mp handled
              obtain ⟨hunk,parsed,rest⟩ := bind_eq_ok.mp rest
              cases pure_eq_ok.mp rest
              exact Step.hunkHeader file closed hunk open_file finished parsed
            case isFalse =>
              obtain ⟨res,body,rest⟩ := bind_eq_ok.mp handled
              cases pure_eq_ok.mp rest
              exact handleBodyLine_step open_file body

theorem finishHunk_cases {res : FileAccumulator} (finished : finishHunk file = .ok res) :
    (file.current = none ∧ res = file) ∨
    ∃ hunk, file.current = some hunk ∧ hunk.oldRemaining = 0 ∧ hunk.newRemaining = 0 ∧ res = { file with
        hunks := file.hunks ++ [toHunk hunk]
        current := none
        source := match hunk.source with
          | none => file.source
          | some source => file.source.map fun fileSource =>
            { fileSource with hunks := fileSource.hunks ++ [⟨toHunk hunk,source⟩] } } := by
  unfold finishHunk at finished
  split at finished
  case h_1 closed =>
    cases finished
    exact .inl ⟨closed,rfl⟩
  case h_2 hunk open_hunk =>
    split at finished
    · contradiction
    case isFalse spent =>
      rw [not_or,not_not,not_not] at spent
      cases finished
      exact .inr ⟨hunk,open_hunk,spent.1,spent.2,rfl⟩

theorem finishFile_cases (finished : finishFile state file = .ok next) : ∃ closed, finishHunk file = .ok closed ∧
      ((closed.newPath = none ∧ closed.hunks = [] ∧ next = state) ∨ ∃ newPath, closed.newPath = some newPath ∧
          next = { state with
            files := state.files ++ [fileChange closed newPath]
            sources := state.sources.map (· ++ publishedSource closed newPath) }) := by
  unfold finishFile at finished
  obtain ⟨closed,closes,rest⟩ := bind_eq_ok.mp finished
  refine ⟨closed,closes,?_⟩
  split at rest
  case h_1 noPath =>
    split at rest
    · contradiction
    case isFalse noHunks =>
      cases rest
      exact .inl ⟨noPath,not_not.mp noHunks,rfl⟩
  case h_2 newPath path =>
    cases rest
    exact .inr ⟨newPath,path,rfl⟩

theorem finishCurrent_cases (finished : finishCurrent state = .ok next) : (state.current = none ∧ next = state) ∨
      ∃ file, state.current = some file ∧ finishFile state file = .ok next := by
  unfold finishCurrent at finished
  split at finished
  case h_1 closed =>
    cases finished
    exact .inl ⟨closed,rfl⟩
  case h_2 file open_file => exact .inr ⟨file,open_file,finished⟩

end Steps

section WellFormed

inductive HunkBody : List Text → Prop where
  | nil : HunkBody []
  | body {lines : List Text} {line : Text} (rest : HunkBody lines)
      (isBody : isHunkBodyLine line = true) : HunkBody (lines ++ [line])
  | marker {lines : List Text} {previous line : Text} (rest : HunkBody (lines ++ [previous]))
      (isBody : isHunkBodyLine previous = true) (isMarker : isMarked '\\' line = true) :
      HunkBody (lines ++ [previous] ++ [line])

theorem HunkBody.mem {ls : List Text} (body : HunkBody ls) :
    ∀ line ∈ ls, isHunkBodyLine line = true ∨ isMarked '\\' line = true := by
  induction body with
  | nil => simp
  | body rest isBody ih =>
    intro line member
    rcases mem_append.mp member with inside | last
    · exact ih line inside
    · rw [mem_singleton.mp last]
      exact .inl isBody
  | marker rest isBody isMarker ih =>
    intro line member
    rcases mem_append.mp member with inside | last
    · exact ih line inside
    · rw [mem_singleton.mp last]
      exact .inr isMarker

structure PatchHunk.WellFormed (hunk : PatchHunk) : Prop where
  body : HunkBody hunk.lines
  oldCount : hunk.lines.countP onOldSide = hunk.oldLines
  newCount : hunk.lines.countP onNewSide = hunk.newLines
  safe : hunk.oldStart ≤ maxSafeInteger ∧ hunk.oldLines ≤ maxSafeInteger ∧
    hunk.newStart ≤ maxSafeInteger ∧ hunk.newLines ≤ maxSafeInteger
  unbroken : ∀ line ∈ hunk.lines, '\n' ∉ line

def PatchFileChange.lines (file : PatchFileChange) : List Text := file.hunks.flatMap PatchHunk.lines

structure PatchFileChange.WellFormed (file : PatchFileChange) : Prop where
  hunks : ∀ hunk ∈ file.hunks, hunk.WellFormed
  added : file.addedLines = file.lines.countP (isMarked '+')
  removed : file.removedLines = file.lines.countP (isMarked '-')
  named : file.kind ≠ .create → file.path ≠ devNull

structure HunkAccumulator.Sound (hunk : HunkAccumulator) : Prop where
  body : HunkBody hunk.lines
  oldCount : hunk.lines.countP onOldSide + hunk.oldRemaining = hunk.oldLines
  newCount : hunk.lines.countP onNewSide + hunk.newRemaining = hunk.newLines
  safe : hunk.oldStart ≤ maxSafeInteger ∧ hunk.oldLines ≤ maxSafeInteger ∧
    hunk.newStart ≤ maxSafeInteger ∧ hunk.newLines ≤ maxSafeInteger
  unbroken : ∀ line ∈ hunk.lines, '\n' ∉ line

def FileAccumulator.lines (file : FileAccumulator) : List Text :=
  file.hunks.flatMap PatchHunk.lines ++ file.current.elim [] HunkAccumulator.lines

structure FileAccumulator.Sound (file : FileAccumulator) : Prop where
  hunks : ∀ hunk ∈ file.hunks, hunk.WellFormed
  current : ∀ hunk ∈ file.current, hunk.Sound
  added : file.added = file.lines.countP (isMarked '+')
  removed : file.removed = file.lines.countP (isMarked '-')

structure ParseState.Sound (state : ParseState) : Prop where
  files : ∀ file ∈ state.files, file.WellFormed
  current : ∀ file ∈ state.current, file.Sound

section Hunk
variable {hunk : HunkAccumulator} {line : Text}

@[simp] theorem recordSourceLine_lines (source : Option UnifiedDiffSourceRange) :
    (recordSourceLine hunk line source).lines = hunk.lines := by
  unfold recordSourceLine
  split
  · split <;> rfl
  · rfl

theorem recordSourceLine_eq (hunk : HunkAccumulator) (line : Text) (source : Option UnifiedDiffSourceRange) :
    ∃ hunkSource, recordSourceLine hunk line source = { hunk with source := hunkSource } := by
  unfold recordSourceLine
  split
  · split
    · exact ⟨_,rfl⟩
    · exact ⟨hunk.source,rfl⟩
  · exact ⟨hunk.source,rfl⟩

theorem HunkAccumulator.Sound.record (sound : hunk.Sound) (source : Option UnifiedDiffSourceRange) :
    (recordSourceLine hunk line source).Sound := by
  obtain ⟨hunkSource,same⟩ := recordSourceLine_eq hunk line source
  rw [same]
  exact { sound with }

theorem isMarked_eq {marker : Char} : isMarked marker line = true ↔ line.head? = some marker := by
  simp [isMarked]

theorem marker_sides (isMarker : isMarked '\\' line = true) :
    onOldSide line = false ∧ onNewSide line = false ∧ isMarked '+' line = false ∧ isMarked '-' line = false := by
  rw [isMarked_eq] at isMarker
  simp [onOldSide,onNewSide,isMarked,isMarker]

theorem HunkAccumulator.Sound.marker (sound : hunk.Sound) {prev : Text}
    (last : hunk.lines.getLast? = some prev) (isBody : isHunkBodyLine prev = true)
    (isMarker : isMarked '\\' line = true) (unbroken : '\n' ∉ line) :
    (pushLine hunk line).Sound := by
  obtain ⟨pre,ls⟩ := getLast?_eq_some_iff.mp last
  obtain ⟨notOld,notNew,-⟩ := marker_sides isMarker
  refine ⟨?_,?_,?_,sound.safe,?_⟩
  · change HunkBody (hunk.lines ++ [line])
    rw [ls]
    exact HunkBody.marker (ls ▸ sound.body) isBody isMarker
  · simpa [pushLine,countP_append,notOld] using sound.oldCount
  · simpa [pushLine,countP_append,notNew] using sound.newCount
  · simpa [pushLine,or_imp,forall_and] using ⟨sound.unbroken,unbroken⟩

theorem countP_singleton_toNat {α : Type} {x : α} (test : α → Bool) : [x].countP test = (test x).toNat := by
  cases found : test x <;> simp [found]

theorem HunkAccumulator.Sound.body_line (sound : hunk.Sound)
    (isBody : isHunkBodyLine line = true) (unbroken : '\n' ∉ line)
    (oldFits : (onOldSide line).toNat ≤ hunk.oldRemaining)
    (newFits : (onNewSide line).toNat ≤ hunk.newRemaining) :
    (consumeBudget (pushLine hunk line) line).Sound := by
  have oldCount := sound.oldCount
  have newCount := sound.newCount
  refine ⟨HunkBody.body sound.body isBody,?_,?_,sound.safe,?_⟩
  · simp only [consumeBudget,pushLine,countP_append,countP_singleton_toNat]
    omega
  · simp only [consumeBudget,pushLine,countP_append,countP_singleton_toNat]
    omega
  · simpa [consumeBudget,pushLine,or_imp,forall_and] using ⟨sound.unbroken,unbroken⟩

theorem HunkAccumulator.Sound.toHunk (sound : hunk.Sound) (oldSpent : hunk.oldRemaining = 0)
    (newSpent : hunk.newRemaining = 0) : (toHunk hunk).WellFormed := by
  have oldCount := sound.oldCount
  have newCount := sound.newCount
  rw [oldSpent] at oldCount
  rw [newSpent] at newCount
  exact ⟨sound.body,oldCount,newCount,sound.safe,sound.unbroken⟩

theorem lineNumber_safe {ds : Text} {n : Nat}
    (parsed : lineNumber ds = .ok n) : n ≤ maxSafeInteger := by
  unfold lineNumber at parsed
  split at parsed
  case isTrue safe =>
    cases parsed
    exact safe
  case isFalse => contradiction

theorem countNumber_safe {ds : Option Text} {n : Nat}
    (parsed : countNumber ds = .ok n) : n ≤ maxSafeInteger := by
  cases ds with
  | none =>
    cases parsed
    decide
  | some ds => exact lineNumber_safe parsed

theorem parseHunkHeader_sound {source : Option UnifiedDiffSourceRange}
    (parsed : parseHunkHeader line source = .ok hunk) : hunk.Sound ∧ hunk.lines = [] := by
  unfold parseHunkHeader at parsed
  split at parsed
  case h_1 => contradiction
  case h_2 header =>
    obtain ⟨oldLines,oldCount,parsed⟩ := bind_eq_ok.mp parsed
    obtain ⟨newLines,newCount,parsed⟩ := bind_eq_ok.mp parsed
    obtain ⟨oldStart,oldNumber,parsed⟩ := bind_eq_ok.mp parsed
    obtain ⟨newStart,newNumber,parsed⟩ := bind_eq_ok.mp parsed
    cases pure_eq_ok.mp parsed
    have safe := And.intro (lineNumber_safe oldNumber) (And.intro (countNumber_safe oldCount)
      (And.intro (lineNumber_safe newNumber) (countNumber_safe newCount)))
    exact ⟨⟨HunkBody.nil,Nat.zero_add _,Nat.zero_add _,safe,by simp⟩,rfl⟩

end Hunk

section File
variable {file : FileAccumulator} {line : Text}

theorem newFileAccumulator_sound (oldPath : Text) (source : Option UnifiedDiffSourceRange) :
    (newFileAccumulator oldPath source).Sound :=
  ⟨by simp [newFileAccumulator],by simp [newFileAccumulator],rfl,rfl⟩

theorem FileAccumulator.lines_open {hunk : HunkAccumulator} (open_hunk : file.current = some hunk) :
    file.lines = file.hunks.flatMap PatchHunk.lines ++ hunk.lines := by
  simp [FileAccumulator.lines,open_hunk]

theorem FileAccumulator.Sound.push (sound : file.Sound) {hunk pushed : HunkAccumulator}
    {added removed : Nat} (open_hunk : file.current = some hunk) (pushedSound : pushed.Sound)
    (ls : pushed.lines = hunk.lines ++ [line])
    (addedCount : added = file.added + (isMarked '+' line).toNat)
    (removedCount : removed = file.removed + (isMarked '-' line).toNat) :
    { file with current := some pushed, added, removed }.Sound := by
  have longer : { file with current := some pushed, added, removed }.lines = file.lines ++ [line] := by
    rw [FileAccumulator.lines_open open_hunk]
    simp [FileAccumulator.lines,ls]
  refine ⟨sound.hunks,?_,?_,?_⟩
  · intro cur same
    cases same
    exact pushedSound
  · rw [longer,countP_append,countP_singleton_toNat,← sound.added]
    exact addedCount
  · rw [longer,countP_append,countP_singleton_toNat,← sound.removed]
    exact removedCount

theorem FileAccumulator.Sound.finishHunk (sound : file.Sound) {closed : FileAccumulator}
    (finished : finishHunk file = .ok closed) :
    closed.Sound ∧ closed.current = none ∧ closed.lines = file.lines := by
  obtain ⟨none_open,rfl⟩ | ⟨hunk,open_hunk,oldSpent,newSpent,rfl⟩ := finishHunk_cases finished
  · exact ⟨sound,none_open,rfl⟩
  · have ls : { file with
        hunks := file.hunks ++ [toHunk hunk], current := none }.lines = file.lines := by
      rw [FileAccumulator.lines_open open_hunk]
      simp [FileAccumulator.lines,toHunk]
    refine ⟨⟨?_,by simp,?_,?_⟩,rfl,ls⟩
    · intro hunk' mem
      obtain inside | rfl := (by simpa using mem : hunk' ∈ file.hunks ∨ hunk' = toHunk hunk)
      · exact sound.hunks hunk' inside
      · exact (sound.current hunk open_hunk).toHunk oldSpent newSpent
    · exact sound.added.trans (congrArg (countP _) ls.symm)
    · exact sound.removed.trans (congrArg (countP _) ls.symm)

theorem fileChange_wellFormed (sound : file.Sound) (closed : file.current = none) (newPath : Text) :
    (fileChange file newPath).WellFormed := by
  have ls : (fileChange file newPath).lines = file.lines := by
    simp [PatchFileChange.lines,fileChange,FileAccumulator.lines,closed]
  refine ⟨sound.hunks,ls ▸ sound.added,ls ▸ sound.removed,?_⟩
  unfold fileChange classify
  dsimp only
  split
  · exact fun other => absurd rfl other
  · split
    case isTrue oldNamed _ => exact fun _ => oldNamed
    case isFalse newNamed => exact fun _ => newNamed

end File

section State
variable {s next : ParseState} {line : Text} {source : Option UnifiedDiffSourceRange}

theorem ParseState.Sound.replace (sound : s.Sound) {file : FileAccumulator}
    (fileSound : file.Sound) : { s with current := some file }.Sound := by
  refine ⟨sound.files,?_⟩
  intro cur same
  cases same
  exact fileSound

theorem ParseState.Sound.finishCurrent (sound : s.Sound)
    (finished : finishCurrent s = .ok next) : next.Sound := by
  obtain ⟨-,rfl⟩ | ⟨file,open_file,finished⟩ := finishCurrent_cases finished
  · exact sound
  obtain ⟨closed,closes,⟨-,-,rfl⟩ | ⟨newPath,-,rfl⟩⟩ := finishFile_cases finished
  · exact sound
  · obtain ⟨closedSound,none_open,-⟩ := (sound.current file open_file).finishHunk closes
    refine ⟨?_,sound.current⟩
    intro c mem
    obtain inside | rfl := (by simpa using mem :
      c ∈ s.files ∨ c = fileChange closed newPath)
    · exact sound.files c inside
    · exact fileChange_wellFormed closedSound none_open newPath

theorem ParseState.Sound.step (sound : s.Sound) (unbroken : '\n' ∉ line)
    (step : Step s line source next) : next.Sound := by
  cases step with
  | skipped => exact sound
  | body file hunk open_file open_hunk isBody oldFits newFits =>
    have hunkSound := (sound.current file open_file).current hunk open_hunk
    apply sound.replace
    apply (sound.current file open_file).push open_hunk _ _ rfl rfl
    · obtain ⟨hunkSource,same⟩ := recordSourceLine_eq (pushLine hunk line) line source
      have counted := hunkSound.body_line isBody unbroken oldFits newFits
      rw [same]
      exact { counted with }
    · simp [consumeBudget,pushLine]
  | marker file hunk prev open_file open_hunk last isBody isMarker =>
    have hunkSound := (sound.current file open_file).current hunk open_hunk
    obtain ⟨-,-,notAdded,notRemoved⟩ := marker_sides isMarker
    have pushed : (recordSourceLine (pushLine hunk line) line source).lines = hunk.lines ++ [line] := by simp [pushLine]
    apply sound.replace
    apply (sound.current file open_file).push open_hunk
      ((hunkSound.marker last isBody isMarker unbroken).record source) pushed
    · simp [notAdded]
    · simp [notRemoved]
  | closed file closed open_file finished =>
    exact sound.replace ((sound.current file open_file).finishHunk finished).1
  | newHeader file newPath open_file marked path =>
    have fileSound := sound.current file open_file
    exact sound.replace { fileSound with }
  | hunkHeader file closed hunk open_file finished parsed =>
    obtain ⟨closedSound,none_open,-⟩ := (sound.current file open_file).finishHunk finished
    obtain ⟨hunkSound,empty⟩ := parseHunkHeader_sound parsed
    have ls : { closed with current := some hunk }.lines = closed.lines := by
      simp [FileAccumulator.lines,none_open,empty]
    refine sound.replace ⟨closedSound.hunks,?_,ls ▸ closedSound.added,ls ▸ closedSound.removed⟩
    intro cur same
    cases same
    exact hunkSound
  | newFile oldPath finished marked path closed =>
    exact (sound.finishCurrent closed).replace (newFileAccumulator_sound oldPath source)

theorem ParseState.Sound.parseLines {total offset : Nat} {ls : List Text} (sound : s.Sound)
    (unbroken : ∀ line ∈ ls, '\n' ∉ line)
    (parsed : parseLines total s offset ls = .ok next) : next.Sound := by
  induction ls generalizing s offset with
  | nil =>
    cases parsed
    exact sound
  | cons line ls ih =>
    obtain ⟨middle,handled,parsed⟩ := bind_eq_ok.mp parsed
    exact ih (sound.step (unbroken line (by simp)) (handleLine_step handled))
      (fun line mem => unbroken line (by simp [mem])) parsed

end State

theorem observeUnifiedDiff_wellFormed {diff : Text} {observed : Bool} {patch : ObservedPatch}
    (parsed : observeUnifiedDiff diff observed = .ok patch) :
    ∀ file ∈ patch.files, file.WellFormed := by
  obtain ⟨state,looped,rest⟩ := bind_eq_ok.mp parsed
  obtain ⟨finished,closed,rest⟩ := bind_eq_ok.mp rest
  cases pure_eq_ok.mp rest
  have start : (⟨[],if observed then some [] else none,none⟩ : ParseState).Sound :=
    ⟨by simp,by simp⟩
  exact ((start.parseLines (Text.splitLines_unbroken diff) looped).finishCurrent closed).files

end WellFormed

end Keiko.UnifiedDiff
