import Keiko.UnifiedDiffInvariant
import Mathlib.Data.List.Forall2

/-! The source ranges that the parser publishes. The lines of a diff follow each other
from the offset that is reached, so a recorded range lies behind all the earlier ones;
only a later `+++ ` line of a file moves the range of its new header behind its hunks.
Forgetting the ranges commutes with every handler. -/
namespace Keiko.UnifiedDiff
open Keiko.Library List Option Bool

section Ledger

def UnifiedDiffSourceRange.Before (first second : UnifiedDiffSourceRange) : Prop :=
  first.stop ≤ second.start

def UnifiedDiffSourceRange.Apart (first second : UnifiedDiffSourceRange) : Prop :=
  first.Before second ∨ second.Before first

/-- Ranges in the order of the text, and headers in that order between them, up to an offset. -/
structure Ledger (offset : Nat) (ranges headers : List UnifiedDiffSourceRange) : Prop where
  ordered : ranges.Pairwise UnifiedDiffSourceRange.Before
  headersOrdered : headers.Pairwise UnifiedDiffSourceRange.Before
  apart : ∀ header ∈ headers, ∀ range ∈ ranges, header.Apart range
  reached : ∀ range ∈ ranges, range.stop ≤ offset
  headersReached : ∀ header ∈ headers, header.stop ≤ offset

variable {offset : Nat} {ranges headers : List UnifiedDiffSourceRange} {range : UnifiedDiffSourceRange}

theorem Ledger.empty : Ledger offset [] [] := by constructor <;> simp

theorem Ledger.mono {post : Nat} (ledger : Ledger offset ranges headers) (le : offset ≤ post) :
    Ledger post ranges headers :=
  { ledger with
    reached := fun range mem => Nat.le_trans (ledger.reached range mem) le,
    headersReached := fun header mem => Nat.le_trans (ledger.headersReached header mem) le }

theorem Ledger.sublist {ranges' headers' : List UnifiedDiffSourceRange}
    (ledger : Ledger offset ranges headers) (fewer : ranges'.Sublist ranges)
    (fewerHeaders : headers'.Sublist headers) : Ledger offset ranges' headers' :=
  ⟨ledger.ordered.sublist fewer,ledger.headersOrdered.sublist fewerHeaders,fun header inside range mem =>
      ledger.apart header (fewerHeaders.subset inside) range (fewer.subset mem),
    fun range mem => ledger.reached range (fewer.subset mem),
    fun header mem => ledger.headersReached header (fewerHeaders.subset mem)⟩

theorem Ledger.push (ledger : Ledger offset ranges headers) (start : range.start = offset)
    (le : range.start ≤ range.stop) : Ledger range.stop (ranges ++ [range]) headers := by
  have post : ∀ other : UnifiedDiffSourceRange, other.stop ≤ offset → other.Before range :=
    fun other reached => by rwa [UnifiedDiffSourceRange.Before,start]
  have longer := ledger.mono (start ▸ le)
  refine ⟨?_,ledger.headersOrdered,?_,?_,longer.headersReached⟩
  · rw [pairwise_append]
    refine ⟨ledger.ordered,pairwise_singleton _ _,?_⟩
    intro other mem last same
    obtain rfl : last = range := by simpa using same
    exact post other (ledger.reached other mem)
  · intro header inside other mem
    obtain mem | same := mem_append.mp mem
    · exact ledger.apart header inside other mem
    · obtain rfl : other = range := by simpa using same
      exact .inl (post header (ledger.headersReached header inside))
  · intro other mem
    obtain mem | same := mem_append.mp mem
    · exact longer.reached other mem
    · obtain rfl : other = range := by simpa using same
      exact Nat.le_refl _

theorem Ledger.swap (ledger : Ledger offset ranges headers) : Ledger offset headers ranges :=
  ⟨ledger.headersOrdered,ledger.ordered,fun range inside header mem => (ledger.apart header mem range inside).symm,
    ledger.headersReached,ledger.reached⟩

theorem Ledger.pushHeader (ledger : Ledger offset ranges headers) (start : range.start = offset)
    (le : range.start ≤ range.stop) : Ledger range.stop ranges (headers ++ [range]) :=
  (ledger.swap.push start le).swap

end Ledger

section Observed

def LineAt (diff : Text) (range : UnifiedDiffSourceRange) (line : Text) : Prop :=
  ∃ before after, diff = before ++ line ++ after ∧ range.start = Text.utf16Length before ∧
    ((after = [] ∧ range.stop = Text.utf16Length (before ++ line)) ∨
      (after.head? = some '\n' ∧ range.stop = Text.utf16Length (before ++ line) + 1))

/-- Recorded line `i` of a hunk is body line `i`. -/
def HunkSource.Reads (diff : Text) (source : HunkSource) (lines : List Text) : Prop :=
  List.Forall₂ (fun recorded line =>
    LineAt diff recorded.range line ∧ line.head? = some recorded.marker) source.lines lines

def HunkSource.ranges (source : HunkSource) : List UnifiedDiffSourceRange :=
  source.header :: source.lines.map UnifiedDiffSourceLine.range

def hunkRanges (hunks : List UnifiedDiffHunkSource) : List UnifiedDiffSourceRange :=
  hunks.flatMap fun hunk => hunk.source.ranges

def UnifiedDiffFileSource.ranges (source : UnifiedDiffFileSource) : List UnifiedDiffSourceRange :=
  source.oldHeader :: hunkRanges source.hunks

def FileAccumulator.ranges (file : FileAccumulator) : List UnifiedDiffSourceRange :=
  file.source.elim [] fun source => source.oldHeader :: hunkRanges source.hunks ++
    (file.current.bind HunkAccumulator.source).elim [] HunkSource.ranges

def FileAccumulator.headers (file : FileAccumulator) : List UnifiedDiffSourceRange :=
  (file.source.bind FileSource.newHeader).toList

def ParseState.ranges (state : ParseState) : List UnifiedDiffSourceRange :=
  (state.sources.getD []).flatMap UnifiedDiffFileSource.ranges ++ state.current.elim [] FileAccumulator.ranges

def ParseState.headers (state : ParseState) : List UnifiedDiffSourceRange :=
  (state.sources.getD []).map UnifiedDiffFileSource.newHeader ++ state.current.elim [] FileAccumulator.headers

structure FileAccumulator.Observed (diff : Text) (file : FileAccumulator) (source : FileSource) :
    Prop where
  kept : file.source = some source
  hunks : source.hunks.map UnifiedDiffHunkSource.hunk = file.hunks
  reads : ∀ hunk ∈ source.hunks, hunk.source.Reads diff hunk.hunk.lines
  current : ∀ hunk ∈ file.current, ∃ hunkSource, hunk.source = some hunkSource ∧ hunkSource.Reads diff hunk.lines
  header : ∀ newHeader ∈ source.newHeader, source.oldHeader.Before newHeader

structure Published (diff : Text) (files : List PatchFileChange)
    (sources : List UnifiedDiffFileSource) : Prop where
  reads : ∀ source ∈ sources, ∀ hunk ∈ source.hunks, hunk.source.Reads diff hunk.hunk.lines
  parsed : ∀ source ∈ sources, ∃ file ∈ files, source.hunks.map UnifiedDiffHunkSource.hunk = file.hunks
  header : ∀ source ∈ sources, source.oldHeader.Before source.newHeader

structure ParseState.Observed (diff : Text) (offset : Nat) (state : ParseState) : Prop where
  published : ∃ sources, state.sources = some sources ∧ Published diff state.files sources
  current : ∀ file ∈ state.current, ∃ source, file.Observed diff source
  ledger : Ledger offset state.ranges state.headers

variable {diff line : Text} {file : FileAccumulator} {range : UnifiedDiffSourceRange} {source : FileSource}
  {marker : Char} {h : HunkAccumulator}

def HunkSource.push (source : HunkSource) (range : UnifiedDiffSourceRange) (marker : Char) :
    HunkSource :=
  { source with lines := source.lines ++ [⟨range,marker⟩] }

theorem HunkSource.Reads.push {source : HunkSource} {lines : List Text}
    (reads : source.Reads diff lines) (at_line : LineAt diff range line)
    (marked : line.head? = some marker) :
    (source.push range marker).Reads diff (lines ++ [line]) :=
  rel_append reads (List.Forall₂.cons ⟨at_line,marked⟩ List.Forall₂.nil)

theorem HunkSource.ranges_push (source : HunkSource) (marker : Char) :
    (source.push range marker).ranges = source.ranges ++ [range] := by
  simp [HunkSource.push,HunkSource.ranges]

theorem recordSourceLine_observed {hunkSource : HunkSource}
    (kept : h.source = some hunkSource) (marked : line.head? = some marker)
    (known : marker ∈ [' ','+','-','\\']) :
    recordSourceLine h line (some range) = { h with source := some (hunkSource.push range marker) } := by
  simp only [recordSourceLine,marked,if_pos known,kept,map_some]
  rfl

theorem LineAt.le (at_line : LineAt diff range line) : range.start ≤ range.stop := by
  obtain ⟨pre,after,-,start,⟨-,stop⟩ | ⟨-,stop⟩⟩ := at_line
  · rw [start,stop,Text.utf16Length_append]
    omega
  · rw [start,stop,Text.utf16Length_append]
    omega

theorem FileAccumulator.Observed.finishHunk {closed : FileAccumulator}
    (observed : file.Observed diff source) (finished : finishHunk file = .ok closed) :
    (∃ source', closed.Observed diff source') ∧ closed.current = none ∧
      closed.ranges = file.ranges ∧ closed.headers = file.headers := by
  obtain ⟨none_open,rfl⟩ | ⟨h,open_hunk,-,-,rfl⟩ := finishHunk_cases finished
  · exact ⟨⟨source,observed⟩,none_open,rfl,rfl⟩
  · obtain ⟨hunkSource,kept,reads⟩ := observed.current h open_hunk
    refine ⟨⟨{ source with hunks := source.hunks ++ [⟨toHunk h,hunkSource⟩] },?_⟩,rfl,?_,?_⟩
    · refine ⟨by simp [kept,observed.kept],by simp [observed.hunks],?_,by simp,observed.header⟩
      intro hunk' mem
      obtain inside | rfl := (by simpa using mem : hunk' ∈ source.hunks ∨ hunk' = ⟨toHunk h,hunkSource⟩)
      · exact observed.reads hunk' inside
      · exact reads
    · simp [FileAccumulator.ranges,observed.kept,open_hunk,kept,hunkRanges]
    · simp [FileAccumulator.headers,observed.kept,kept]

theorem publishedSource_cases (kept : file.source = some source) (newPath : Text) :
    publishedSource file newPath = [] ∨ ∃ newHeader, source.newHeader = some newHeader ∧ publishedSource file newPath =
        [⟨file.oldPath,newPath,source.oldHeader,newHeader,source.hunks⟩] := by
  obtain ⟨oldHeader,newHeader,hunks⟩ := source
  unfold publishedSource
  rw [kept]
  cases newHeader with
  | none => exact .inl rfl
  | some newHeader =>
    cases hunks with
    | nil => exact .inl rfl
    | cons h hunks => exact .inr ⟨newHeader,rfl,rfl⟩

theorem ParseState.Observed.finishCurrent {offset : Nat} {state next : ParseState}
    (observed : state.Observed diff offset) (finished : finishCurrent state = .ok next) :
    ∃ sources, next.sources = some sources ∧ Published diff next.files sources ∧
      (sources.flatMap UnifiedDiffFileSource.ranges).Sublist state.ranges ∧
      (sources.map UnifiedDiffFileSource.newHeader).Sublist state.headers := by
  obtain ⟨sources,kept,published⟩ := observed.published
  have pre : (sources.flatMap UnifiedDiffFileSource.ranges).Sublist state.ranges ∧
      (sources.map UnifiedDiffFileSource.newHeader).Sublist state.headers := by
    simp [ParseState.ranges,ParseState.headers,kept]
  obtain ⟨-,rfl⟩ | ⟨file,open_file,finished⟩ := finishCurrent_cases finished
  · exact ⟨sources,kept,published,pre⟩
  obtain ⟨source,fileObserved⟩ := observed.current file open_file
  obtain ⟨closed,closes,⟨-,-,rfl⟩ | ⟨newPath,path,rfl⟩⟩ := finishFile_cases finished
  · exact ⟨sources,kept,published,pre⟩
  obtain ⟨⟨closedSource,closedObserved⟩,none_open,ranges,headers⟩ := fileObserved.finishHunk closes
  have stillPublished : ∀ source ∈ sources, ∃ c ∈ state.files ++ [fileChange closed newPath],
      source.hunks.map UnifiedDiffHunkSource.hunk = c.hunks := by
    intro source mem
    obtain ⟨c,inside,same⟩ := published.parsed source mem
    exact ⟨c,mem_append_left _ inside,same⟩
  refine ⟨sources ++ publishedSource closed newPath,by simp [kept],?_⟩
  obtain unpublished | ⟨newHeader,header,publishes⟩ :=
    publishedSource_cases closedObserved.kept newPath
  · rw [unpublished,append_nil]
    exact ⟨⟨published.reads,stillPublished,published.header⟩,pre⟩
  rw [publishes]
  refine ⟨⟨?_,?_,?_⟩,?_,?_⟩
  · intro source mem
    obtain inside | same := mem_append.mp mem
    · exact published.reads source inside
    · obtain rfl := mem_singleton.mp same
      exact closedObserved.reads
  · intro source mem
    obtain inside | same := mem_append.mp mem
    · exact stillPublished source inside
    · obtain rfl := mem_singleton.mp same
      exact ⟨fileChange closed newPath,by simp,closedObserved.hunks⟩
  · intro source mem
    obtain inside | same := mem_append.mp mem
    · exact published.header source inside
    · obtain rfl := mem_singleton.mp same
      exact closedObserved.header newHeader header
  · have own : closed.ranges = closedSource.oldHeader :: hunkRanges closedSource.hunks := by
      simp [FileAccumulator.ranges,closedObserved.kept,none_open]
    simp [ParseState.ranges,kept,open_file,← ranges,own,UnifiedDiffFileSource.ranges]
  · have own : closed.headers = [newHeader] := by
      simp [FileAccumulator.headers,closedObserved.kept,header]
    simp [ParseState.headers,kept,open_file,← headers,own]

theorem recordSourceLine_pushLine (h : HunkAccumulator) (source : Option UnifiedDiffSourceRange) :
    (recordSourceLine (pushLine h line) line source).source = (recordSourceLine h line source).source := by
  unfold recordSourceLine
  split
  · split <;> rfl
  · rfl

theorem FileAccumulator.Observed.record (next : FileAccumulator)
    {pushed : HunkAccumulator} (observed : file.Observed diff source)
    (open_hunk : file.current = some h) (at_line : LineAt diff range line)
    (marked : line.head? = some marker) (known : marker ∈ [' ','+','-','\\'])
    (sameSource : next.source = file.source) (sameHunks : next.hunks = file.hunks)
    (cur : next.current = some pushed) (lines : pushed.lines = h.lines ++ [line])
    (recorded : pushed.source = (recordSourceLine h line (some range)).source) :
    (∃ source', next.Observed diff source') ∧ next.ranges = file.ranges ++ [range] ∧
      next.headers = file.headers := by
  obtain ⟨hunkSource,kept,reads⟩ := observed.current h open_hunk
  rw [recordSourceLine_observed kept marked known] at recorded
  refine ⟨⟨source,?_⟩,?_,?_⟩
  · refine ⟨sameSource.trans observed.kept,sameHunks ▸ observed.hunks,observed.reads,?_,observed.header⟩
    intro hunk' same
    obtain rfl : pushed = hunk' := some.inj (cur.symm.trans same)
    exact ⟨_,recorded,lines ▸ reads.push at_line marked⟩
  · simp [FileAccumulator.ranges,sameSource,observed.kept,cur,recorded,open_hunk,kept,HunkSource.ranges_push]
  · simp [FileAccumulator.headers,sameSource]

theorem parseHunkHeader_source (parsed : parseHunkHeader line (some range) = .ok h) :
    ∃ hunkSource : HunkSource, hunkSource.header = range ∧ h.source = some hunkSource ∧ hunkSource.lines = [] := by
  unfold parseHunkHeader at parsed
  split at parsed
  case h_1 => contradiction
  case h_2 header =>
    obtain ⟨oldLines,-,parsed⟩ := bind_eq_ok.mp parsed
    obtain ⟨newLines,-,parsed⟩ := bind_eq_ok.mp parsed
    obtain ⟨oldStart,-,parsed⟩ := bind_eq_ok.mp parsed
    obtain ⟨newStart,-,parsed⟩ := bind_eq_ok.mp parsed
    cases pure_eq_ok.mp parsed
    exact ⟨_,rfl,rfl,rfl⟩

section State
variable {offset : Nat} {s next : ParseState} {file' : FileAccumulator}

theorem ParseState.Observed.replace (observed : s.Observed diff offset)
    (open_file : s.current = some file)
    (fileObserved : ∃ source, file'.Observed diff source) (ranges : file'.ranges = file.ranges)
    (headers : file'.headers = file.headers) :
    { s with current := some file' }.Observed diff offset := by
  refine ⟨observed.published,?_,?_⟩
  · intro cur same
    cases same
    exact fileObserved
  · have ledger := observed.ledger
    simp only [ParseState.ranges,ParseState.headers,open_file,elim_some] at ledger
    simpa [ParseState.ranges,ParseState.headers,ranges,headers] using ledger

theorem ParseState.Observed.push (observed : s.Observed diff offset)
    (start : range.start = offset) (le : range.start ≤ range.stop)
    (open_file : s.current = some file) (fileObserved : ∃ source, file'.Observed diff source)
    (ranges : file'.ranges = file.ranges ++ [range]) (headers : file'.headers = file.headers) :
    { s with current := some file' }.Observed diff range.stop := by
  refine ⟨observed.published,?_,?_⟩
  · intro cur same
    cases same
    exact fileObserved
  · have ledger := observed.ledger.push start le
    simp only [ParseState.ranges,ParseState.headers,open_file,elim_some,append_assoc] at ledger
    simpa [ParseState.ranges,ParseState.headers,ranges,headers] using ledger

theorem ParseState.Observed.step (observed : s.Observed diff offset)
    (start : range.start = offset) (at_line : LineAt diff range line)
    (step : Step s line (some range) next) : next.Observed diff range.stop := by
  have le : offset ≤ range.stop := start ▸ at_line.le
  cases step with
  | skipped => exact ⟨observed.published,observed.current,observed.ledger.mono le⟩
  | body file h open_file open_hunk isBody oldFits newFits =>
    obtain ⟨source,fileObserved⟩ := observed.current file open_file
    have marked : ∃ marker, line.head? = some marker ∧ marker ∈ [' ','+','-','\\'] := by
      simp only [isHunkBodyLine,or_eq_true,isMarked_eq] at isBody
      obtain (marked | marked) | marked := isBody <;> exact ⟨_,marked,by simp⟩
    obtain ⟨marker,marked,known⟩ := marked
    obtain ⟨recorded,ranges,headers⟩ := FileAccumulator.Observed.record { countBody file line with
        current := some (consumeBudget (recordSourceLine (pushLine h line) line (some range)) line) }
      fileObserved open_hunk at_line marked known rfl rfl rfl (by simp [consumeBudget,pushLine])
      (recordSourceLine_pushLine h (some range))
    exact observed.push start at_line.le open_file recorded ranges headers
  | marker file h prev open_file open_hunk last isBody isMarker =>
    obtain ⟨source,fileObserved⟩ := observed.current file open_file
    obtain ⟨recorded,ranges,headers⟩ := FileAccumulator.Observed.record
      { file with current := some (recordSourceLine (pushLine h line) line (some range)) }
      fileObserved open_hunk at_line (isMarked_eq.mp isMarker) (by simp) rfl rfl rfl
      (by simp [pushLine]) (recordSourceLine_pushLine h (some range))
    exact observed.push start at_line.le open_file recorded ranges headers
  | closed file closed open_file finished =>
    obtain ⟨source,fileObserved⟩ := observed.current file open_file
    obtain ⟨closedObserved,-,ranges,headers⟩ := fileObserved.finishHunk finished
    have replaced := observed.replace open_file closedObserved ranges headers
    exact ⟨replaced.published,replaced.current,replaced.ledger.mono le⟩
  | newHeader file newPath open_file marked path =>
    obtain ⟨source,fileObserved⟩ := observed.current file open_file
    refine ⟨observed.published,?_,?_⟩
    · intro cur same
      cases same
      refine ⟨{ source with newHeader := some range },?_,fileObserved.hunks,fileObserved.reads,fileObserved.current,?_⟩
      · simp [fileObserved.kept]
      · intro header same
        cases same
        rw [UnifiedDiffSourceRange.Before,start]
        apply observed.ledger.reached
        simp [ParseState.ranges,open_file,FileAccumulator.ranges,fileObserved.kept]
    · -- The range of an earlier `+++ ` line of the file is given up for that of this one.
      have early : ((s.sources.getD []).map UnifiedDiffFileSource.newHeader).Sublist
          s.headers := by
        simp [ParseState.headers]
      have ledger := (observed.ledger.sublist (List.Sublist.refl _) early).pushHeader start at_line.le
      simpa [ParseState.ranges,ParseState.headers,open_file,FileAccumulator.ranges,
        FileAccumulator.headers,fileObserved.kept] using ledger
  | hunkHeader file closed h open_file finished parsed =>
    obtain ⟨source,fileObserved⟩ := observed.current file open_file
    obtain ⟨⟨closedSource,closedObserved⟩,none_open,ranges,headers⟩ :=
      fileObserved.finishHunk finished
    obtain ⟨hunkSource,header,opened,lines⟩ := parseHunkHeader_source parsed
    have rangesOpen : { closed with current := some h }.ranges = closed.ranges ++ [range] := by
      simp [FileAccumulator.ranges,closedObserved.kept,none_open,opened,HunkSource.ranges,header,lines]
    apply observed.push start at_line.le open_file _ (rangesOpen.trans (by rw [ranges])) headers
    refine ⟨closedSource,closedObserved.kept,closedObserved.hunks,closedObserved.reads,?_,closedObserved.header⟩
    intro cur same
    cases same
    refine ⟨hunkSource,opened,?_⟩
    rw [HunkSource.Reads,lines,(parseHunkHeader_sound parsed).2]
    exact List.Forall₂.nil
  | newFile oldPath finished marked path closed =>
    obtain ⟨sources,kept,published,fewer,fewerHeaders⟩ := observed.finishCurrent closed
    refine ⟨⟨sources,kept,published⟩,?_,?_⟩
    · intro cur same
      cases same
      exact ⟨⟨range,none,[]⟩,rfl,rfl,by simp,by simp [newFileAccumulator],by simp⟩
    · have ledger := (observed.ledger.sublist fewer fewerHeaders).push start at_line.le
      simpa [ParseState.ranges,ParseState.headers,kept,newFileAccumulator,FileAccumulator.ranges,
        FileAccumulator.headers,hunkRanges] using ledger

theorem ParseState.Observed.parseLines {pre : Text} {lines : List Text}
    (observed : s.Observed diff offset) (some_line : lines ≠ [])
    (split : diff = pre ++ Text.joinLines lines) (start : offset = Text.utf16Length pre)
    (parsed : parseLines (Text.utf16Length diff) s offset lines = .ok next) :
    next.Observed diff (Text.utf16Length diff) := by
  induction lines generalizing s offset pre with
  | nil => exact absurd rfl some_line
  | cons line lines ih =>
    obtain ⟨middle,handled,parsed⟩ := bind_eq_ok.mp parsed
    obtain ⟨sources,kept,-⟩ := observed.published
    rw [kept,map_some] at handled
    have step := handleLine_step handled
    by_cases last : lines = []
    · subst last
      rw [Text.joinLines_singleton] at split
      have stop : min (Text.utf16Length diff) (offset + Text.utf16Length line + 1) = Text.utf16Length diff := by
        rw [split,Text.utf16Length_append,start]
        omega
      rw [stop] at step
      cases parsed
      apply observed.step rfl _ step
      exact ⟨pre,[],by simpa using split,start,.inl ⟨rfl,congrArg Text.utf16Length split⟩⟩
    · rw [Text.joinLines_cons line last] at split
      have stop : min (Text.utf16Length diff) (offset + Text.utf16Length line + 1) =
          Text.utf16Length (pre ++ line) + 1 := by
        rw [split,Text.utf16Length_append,Text.utf16Length_append,Text.utf16Length_append,
          Text.utf16Length_cons,Text.utf16Width_newline,start]
        omega
      rw [stop] at step parsed
      have next_observed := observed.step rfl
        ⟨pre,'\n' :: Text.joinLines lines,by simpa using split,start,.inr ⟨rfl,rfl⟩⟩ step
      have rest : diff = (pre ++ line ++ ['\n']) ++ Text.joinLines lines := by simpa using split
      exact ih next_observed last rest (by simp [Text.utf16Width_newline,Nat.add_assoc]) parsed

end State

theorem observeUnifiedDiff_published {patch : ObservedPatch} (parsed : observeUnifiedDiff diff true = .ok patch) :
    ∃ sources, patch.sources = some sources ∧ Published diff patch.files sources ∧
      Ledger (Text.utf16Length diff) (sources.flatMap UnifiedDiffFileSource.ranges)
        (sources.map UnifiedDiffFileSource.newHeader) := by
  obtain ⟨state,looped,rest⟩ := bind_eq_ok.mp parsed
  obtain ⟨finished,closed,rest⟩ := bind_eq_ok.mp rest
  cases pure_eq_ok.mp rest
  have start : (⟨[],some [],none⟩ : ParseState).Observed diff 0 :=
    ⟨⟨[],rfl,by simp,by simp,by simp⟩,by simp,Ledger.empty⟩
  have split : diff = [] ++ Text.joinLines (Text.splitLines diff) := by simp
  have observed := start.parseLines (Text.splitLines_ne_nil diff) split rfl looped
  obtain ⟨sources,kept,published,fewer,fewerHeaders⟩ := observed.finishCurrent closed
  exact ⟨sources,kept,published,observed.ledger.sublist fewer fewerHeaders⟩

end Observed

section Erase

def HunkAccumulator.erase (hunk : HunkAccumulator) : HunkAccumulator := { hunk with source := none }

def FileAccumulator.erase (file : FileAccumulator) : FileAccumulator :=
  { file with source := none, current := file.current.map HunkAccumulator.erase }

def ParseState.erase (state : ParseState) : ParseState :=
  { state with sources := none, current := state.current.map FileAccumulator.erase }

variable (line : Text) (source : Option UnifiedDiffSourceRange)

theorem recordSourceLine_erase (h : HunkAccumulator) :
    recordSourceLine h.erase line none = (recordSourceLine h line source).erase := by
  obtain ⟨hunkSource,same⟩ := recordSourceLine_eq h line source
  rw [same]
  rfl

theorem attachNoNewlineMarker_erase (h : Option HunkAccumulator) :
    attachNoNewlineMarker (h.map HunkAccumulator.erase) line =
      (attachNoNewlineMarker h line).map HunkAccumulator.erase := by
  cases h with
  | none => rfl
  | some h =>
    unfold attachNoNewlineMarker
    cases last : h.lines.getLast? with
    | none => simp [HunkAccumulator.erase,last,Except.map]
    | some prev =>
      simp only [map_some,bind_some,HunkAccumulator.erase,last]
      split <;> rfl

theorem parseHunkHeader_erase :
    parseHunkHeader line none = (parseHunkHeader line source).map HunkAccumulator.erase := by
  unfold parseHunkHeader
  cases matchHunkHeader line with
  | none => rfl
  | some header =>
    dsimp only
    cases countNumber header.oldLines with
    | error failure => rfl
    | ok oldLines =>
      cases countNumber header.newLines with
      | error failure => rfl
      | ok newLines =>
        cases lineNumber header.oldStart with
        | error failure => rfl
        | ok oldStart => cases lineNumber header.newStart <;> rfl

theorem finishHunk_erase (file : FileAccumulator) :
    finishHunk file.erase = (finishHunk file).map FileAccumulator.erase := by
  unfold finishHunk
  cases open_hunk : file.current with
  | none => simp [FileAccumulator.erase,open_hunk,Except.map]
  | some h =>
    simp only [FileAccumulator.erase,open_hunk,map_some,HunkAccumulator.erase]
    split <;> rfl

theorem handleBodyLine_erase (file : FileAccumulator) : handleBodyLine file.erase line none =
      (handleBodyLine file line source).map FileAccumulator.erase := by
  unfold handleBodyLine
  split
  · have attached := attachNoNewlineMarker_erase line file.current
    change (attachNoNewlineMarker (file.current.map HunkAccumulator.erase) line >>= _) = _
    rw [attached]
    cases attachNoNewlineMarker file.current line with
    | error failure => rfl
    | ok h =>
      change Except.ok _ = Except.ok _
      rw [recordSourceLine_erase line source h]
      rfl
  · cases open_hunk : file.current with
    | none =>
      simp only [FileAccumulator.erase,open_hunk,map_none]
      split
      · rfl
      · simp [Except.map,FileAccumulator.erase,open_hunk]
    | some h =>
      simp only [FileAccumulator.erase,open_hunk,map_some]
      split
      · have finished := finishHunk_erase file
        simpa [FileAccumulator.erase,open_hunk] using finished
      · have same : assertBudgetAvailable h.erase line = assertBudgetAvailable h line := rfl
        rw [same]
        cases assertBudgetAvailable h line with
        | error failure => rfl
        | ok _ =>
          change Except.ok _ = Except.ok _
          have recorded := recordSourceLine_erase line source (pushLine h line)
          change recordSourceLine (pushLine h.erase line) line none = _ at recorded
          rw [recorded]
          rfl

theorem finishFile_erase (state : ParseState) (file : FileAccumulator) :
    finishFile state.erase file.erase = (finishFile state file).map ParseState.erase := by
  unfold finishFile
  rw [finishHunk_erase]
  cases finishHunk file with
  | error failure => rfl
  | ok closed =>
    obtain ⟨oldPath,newPath,hunks,cur,added,removed,fileSource⟩ := closed
    cases newPath with
    | none =>
      change (if hunks ≠ [] then _ else _) = Except.map _ (if hunks ≠ [] then _ else _)
      split <;> rfl
    | some newPath => rfl

theorem finishCurrent_erase (state : ParseState) :
    finishCurrent state.erase = (finishCurrent state).map ParseState.erase := by
  unfold finishCurrent
  cases open_file : state.current with
  | none => simp [ParseState.erase,open_file,Except.map]
  | some file =>
    simp only [ParseState.erase,open_file,map_some]
    simpa [ParseState.erase,open_file] using finishFile_erase state file

theorem handleFileLine_erase (state : ParseState) (file : FileAccumulator) :
    handleFileLine state.erase file.erase line none = (handleFileLine state file line source).map ParseState.erase := by
  unfold handleFileLine
  split
  · rw [finishHunk_erase]
    cases finishHunk file <;> rfl
  split
  · cases headerPath line with
    | error failure => rfl
    | ok newPath =>
      change Except.ok _ = Except.ok _
      simp [ParseState.erase,FileAccumulator.erase]
  split
  · rw [finishHunk_erase,parseHunkHeader_erase line source]
    cases finishHunk file with
    | error failure => rfl
    | ok closed => cases parseHunkHeader line source <;> rfl
  · rw [handleBodyLine_erase line source]
    cases handleBodyLine file line source <;> rfl

theorem handleLine_erase (state : ParseState) :
    handleLine state.erase line none = (handleLine state line source).map ParseState.erase := by
  have active : ∀ file : FileAccumulator, hunkActive file.erase = hunkActive file := by
    intro file
    cases open_hunk : file.current with
    | none => simp [hunkActive,FileAccumulator.erase,open_hunk]
    | some h => simp [hunkActive,FileAccumulator.erase,HunkAccumulator.erase,open_hunk]
  have fresh : ∀ oldPath, startNewFile state.erase oldPath none =
      (startNewFile state oldPath source).map ParseState.erase := by
    intro oldPath
    unfold startNewFile
    rw [finishCurrent_erase]
    cases finishCurrent state with
    | error failure => rfl
    | ok finished =>
      change Except.ok _ = Except.ok _
      simp [ParseState.erase,newFileAccumulator,FileAccumulator.erase]
  have header : (headerPath line >>= fun oldPath => startNewFile state.erase oldPath none) =
      (headerPath line >>= fun oldPath => startNewFile state oldPath source).map
        ParseState.erase := by
    cases headerPath line with
    | error failure => rfl
    | ok oldPath => exact fresh oldPath
  unfold handleLine
  cases open_file : state.current with
  | none =>
    simp only [ParseState.erase,open_file,map_none,filter_none]
    split
    · simpa [ParseState.erase,open_file] using header
    · simp [Except.map,ParseState.erase,open_file]
  | some file =>
    have erased : state.erase.current = some file.erase := by simp [ParseState.erase,open_file]
    rw [erased]
    simp only [filter_some,active]
    by_cases reads : (hunkActive file && isHunkBodyLine line) = true
    · simp only [reads,if_true]
      rw [handleBodyLine_erase line source]
      cases handleBodyLine file line source <;> rfl
    · simp only [reads,false_eq_true,if_false]
      split
      · exact header
      · exact handleFileLine_erase line source state file

theorem parseLines_cons (total : Nat) (state : ParseState) (offset : Nat) (lines : List Text) :
    parseLines total state offset (line :: lines) = (handleLine state line (state.sources.map fun _ =>
        ⟨offset,min total (offset + Text.utf16Length line + 1)⟩) >>= fun next =>
          parseLines total next (min total (offset + Text.utf16Length line + 1)) lines) := rfl

theorem parseLines_erase (total : Nat) (state : ParseState) (offset : Nat) (lines : List Text) :
    parseLines total state.erase offset lines = (parseLines total state offset lines).map ParseState.erase := by
  induction lines generalizing state offset with
  | nil => rfl
  | cons line lines ih =>
    rw [parseLines_cons,parseLines_cons]
    change (handleLine state.erase line none >>= _) = _
    rw [handleLine_erase line (state.sources.map fun _ =>
      ⟨offset,min total (offset + Text.utf16Length line + 1)⟩) state]
    cases handleLine state line (state.sources.map fun _ =>
        ⟨offset,min total (offset + Text.utf16Length line + 1)⟩) with
    | error failure => rfl
    | ok next => exact ih next _

theorem observeUnifiedDiff_files (diff : Text) :
    (observeUnifiedDiff diff true).map ObservedPatch.files = parseUnifiedDiff diff := by
  unfold parseUnifiedDiff observeUnifiedDiff
  have erased := parseLines_erase (Text.utf16Length diff) ⟨[],some [],none⟩ 0 (Text.splitLines diff)
  change parseLines _ ⟨[],none,none⟩ _ _ = _ at erased
  simp only [if_true,false_eq_true,if_false,erased]
  cases parseLines (Text.utf16Length diff) ⟨[],some [],none⟩ 0 (Text.splitLines diff) with
  | error failure => rfl
  | ok state =>
    have closed := finishCurrent_erase state
    change Except.map _ (finishCurrent state >>= _) = Except.map _ (finishCurrent state.erase >>= _)
    rw [closed]
    cases finishCurrent state <;> rfl

end Erase

section Soundness

variable {lines : List Text}

def MarkersAttached (lines : List Text) : Prop :=
  ∀ before line after, lines = before ++ line :: after → isHunkBodyLine line = false → isMarked '\\' line = true ∧
      ∃ earlier previous, before = earlier ++ [previous] ∧ isHunkBodyLine previous = true

theorem MarkersAttached.snoc {last : Text} (attached : MarkersAttached lines)
    (fits : isHunkBodyLine last = false → isMarked '\\' last = true ∧
      ∃ early prev, lines = early ++ [prev] ∧ isHunkBodyLine prev = true) :
    MarkersAttached (lines ++ [last]) := by
  intro pre line after split notBody
  obtain rfl | ⟨shorter,final,rfl⟩ := eq_nil_or_concat after
  · obtain ⟨rfl,same⟩ := append_inj' split rfl
    cases same
    exact fits notBody
  · have shift : lines ++ [last] = (pre ++ line :: shorter) ++ [final] := by simpa using split
    exact attached pre line shorter (append_inj' shift rfl).1 notBody

theorem HunkBody.markersAttached (body : HunkBody lines) : MarkersAttached lines := by
  induction body with
  | nil =>
    intro pre line after split
    simp at split
  | body rest isBody ih =>
    apply ih.snoc
    intro notBody
    rw [isBody] at notBody
    contradiction
  | marker rest isBody isMarker ih => exact ih.snoc fun _ => ⟨isMarker,_,_,rfl,isBody⟩

/-- What is promised of a parsed file: the declared and the counted lines agree. -/
structure PatchFileChange.Counted (file : PatchFileChange) : Prop where
  oldLines : ∀ hunk ∈ file.hunks, hunk.lines.countP onOldSide = hunk.oldLines
  newLines : ∀ hunk ∈ file.hunks, hunk.lines.countP onNewSide = hunk.newLines
  attached : ∀ hunk ∈ file.hunks, MarkersAttached hunk.lines
  added : file.addedLines = file.lines.countP (isMarked '+')
  removed : file.removedLines = file.lines.countP (isMarked '-')

theorem PatchFileChange.WellFormed.counted {file : PatchFileChange} (formed : file.WellFormed) : file.Counted where
  oldLines h mem := (formed.hunks h mem).oldCount
  newLines h mem := (formed.hunks h mem).newCount
  attached h mem := (formed.hunks h mem).body.markersAttached
  added := formed.added
  removed := formed.removed

/-- The parser is sound: the counts and the markers of all files, the recorded ranges, and
an observer changes nothing. -/
theorem observeUnifiedDiff_sound (diff : Text) :
    (observeUnifiedDiff diff true).map ObservedPatch.files = parseUnifiedDiff diff ∧
      ∀ patch, observeUnifiedDiff diff true = .ok patch →
        (∀ file ∈ patch.files, file.Counted) ∧
          ∃ sources, patch.sources = some sources ∧ Published diff patch.files sources ∧
            Ledger (Text.utf16Length diff) (sources.flatMap UnifiedDiffFileSource.ranges)
              (sources.map UnifiedDiffFileSource.newHeader) := by
  refine ⟨observeUnifiedDiff_files diff,?_⟩
  intro patch parsed
  have formed := observeUnifiedDiff_wellFormed parsed
  exact ⟨fun file member => (formed file member).counted,observeUnifiedDiff_published parsed⟩

/-- A file whose `+++ ` line is repeated behind its hunk. -/
def repeatedHeader : Text := "--- a/x\n+++ b/x\n@@ -1 +1 @@\n-a\n+b\n+++ b/y".toList

theorem observeUnifiedDiff_sound_repeatedHeader :
    ∃ patch, observeUnifiedDiff repeatedHeader true = .ok patch ∧ patch.files ≠ [] ∧
      (∀ file ∈ patch.files, file.Counted) := by
  have sound := (observeUnifiedDiff_sound repeatedHeader).2
  cases parsed : observeUnifiedDiff repeatedHeader true with
  | error failure =>
    have accepted : (observeUnifiedDiff repeatedHeader true).isOk = true := by decide +kernel
    rw [parsed] at accepted
    contradiction
  | ok patch =>
    have some_file : (observeUnifiedDiff repeatedHeader true).map
        (fun patch => patch.files.length) = .ok 1 := by decide +kernel
    rw [parsed] at some_file
    have one : patch.files.length = 1 := by simpa [Except.map] using some_file
    refine ⟨patch,rfl,?_,(sound patch parsed).1⟩
    intro empty
    simp [empty] at one

def UnifiedDiffFileSource.allRanges (source : UnifiedDiffFileSource) : List UnifiedDiffSourceRange :=
  source.oldHeader :: source.newHeader :: hunkRanges source.hunks

instance (first second : UnifiedDiffSourceRange) : Decidable (first.Before second) :=
  inferInstanceAs (Decidable (first.stop ≤ second.start))

/-- The new header of that file lies behind its hunk. -/
theorem allRanges_not_increasing :
    ¬ ∀ diff patch sources, observeUnifiedDiff diff true = .ok patch →
      patch.sources = some sources →
        (sources.flatMap UnifiedDiffFileSource.allRanges).Pairwise
          UnifiedDiffSourceRange.Before := by
  intro increasing
  have backwards : (observeUnifiedDiff repeatedHeader true).map (fun patch =>
      decide (((patch.sources.getD []).flatMap UnifiedDiffFileSource.allRanges).Pairwise
        UnifiedDiffSourceRange.Before)) = .ok false := by decide +kernel
  cases parsed : observeUnifiedDiff repeatedHeader true with
  | error failure =>
    rw [parsed] at backwards
    contradiction
  | ok patch =>
    obtain ⟨sources,kept,-⟩ := observeUnifiedDiff_published parsed
    rw [parsed] at backwards
    have ordered := increasing repeatedHeader patch sources parsed kept
    simp [Except.map,kept,ordered] at backwards

end Soundness

end Keiko.UnifiedDiff
