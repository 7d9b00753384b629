import Keiko.PrDescriptionRegion
import Mathlib.Data.List.Infix
import Mathlib.Data.List.TakeWhile

/-! The code fences of a body by its lines: a line is fenced as a whole, by the fence that the lines
before it leave open, and a line with a marker never closes one. -/
namespace Keiko.PrDescriptionRegion
open Keiko.Library List Bool

section Lines

def width (lines : List Text) : ℕ := (lines.map fun line => line.length + 1).sum

theorem width_cons (line : Text) (lines : List Text) : width (line :: lines) = line.length + 1 + width lines := rfl

theorem splitLines_append_text (first second : Text) : ∃ early last,
    Text.splitLines first = early ++ [last] ∧ first.length = width early + last.length ∧
      Text.splitLines (first ++ second) = early ++ (Text.splitLines second).modifyHead (last ++ ·) := by
  induction first with
  | nil =>
    refine ⟨[],[],rfl,rfl,?_⟩
    rw [nil_append,nil_append]
    cases Text.splitLines second <;> rfl
  | cons c first ih =>
    obtain ⟨early,last,lines,size,joined⟩ := ih
    rw [Text.splitLines] at lines joined ⊢
    rw [cons_append,splitOn_cons_eq_if_modifyHead,Text.splitLines,splitOn_cons_eq_if_modifyHead,lines,joined]
    by_cases breaks : c = '\n'
    · refine ⟨[] :: early,last,?_,?_,?_⟩
      · simp [breaks]
      · rw [width_cons,length_cons,size,length_nil]
        omega
      · simp [breaks]
    · have unbroken : ¬ (c == '\n') = true := by simpa using breaks
      rw [if_neg unbroken,if_neg unbroken]
      cases early with
      | nil =>
        refine ⟨[],c :: last,rfl,?_,?_⟩
        · rw [length_cons,size]
          rfl
        · rw [nil_append,nil_append]
          rw [Text.splitLines]
          cases splitOn '\n' second <;> rfl
      | cons line early =>
        refine ⟨(c :: line) :: early,last,rfl,?_,rfl⟩
        rw [length_cons,size,width_cons,width_cons,length_cons]
        omega

theorem splitLines_unbroken_head {word : Text} (unbroken : '\n' ∉ word) (t : Text) :
    ∃ line rest, Text.splitLines (word ++ t) = (word ++ line) :: rest := by
  obtain ⟨line,rest,lines⟩ := exists_cons_of_ne_nil (Text.splitLines_ne_nil t)
  refine ⟨line,rest,?_⟩
  rw [Text.splitLines_append unbroken,lines]
  rfl

end Lines

section Fences

variable {fence : Option OpenFence} {line : Text} {lines first second : List Text} {offset : ℕ}
  {body t : Text} {c : Char} {i : ℕ}

def nextFence (fence : Option OpenFence) (line : Text) : Option OpenFence :=
  match fence with
  | none => matchOpeningFence (logicalLine line)
  | some fence => if isClosingFence (logicalLine line) fence then none else some fence

def isFencedLine (fence : Option OpenFence) (line : Text) : Bool :=
  fence.any fun fence => !isClosingFence (logicalLine line) fence

def fenceAfter (fence : Option OpenFence) (lines : List Text) : Option OpenFence :=
  lines.foldl nextFence fence

theorem analyseLines_cons : (analyseLines fence offset (line :: lines)).offsets =
    (if isFencedLine fence line then fencedLine offset line else []) ++
      (analyseLines (nextFence fence line) (offset + line.length + 1) lines).offsets := by
  cases fence with
  | none => rfl
  | some fence =>
    rw [analyseLines,isFencedLine,nextFence,Option.any_some]
    cases isClosingFence (logicalLine line) fence <;> rfl

theorem analyseLines_unterminated : (analyseLines fence offset lines).unterminated =
    (fenceAfter fence lines).isSome := by
  induction lines generalizing fence offset with
  | nil => cases fence <;> rfl
  | cons line lines ih =>
    have next : (analyseLines fence offset (line :: lines)).unterminated =
        (analyseLines (nextFence fence line) (offset + line.length + 1) lines).unterminated := by
      cases fence with
      | none => rfl
      | some fence =>
        rw [analyseLines,nextFence]
        cases isClosingFence (logicalLine line) fence <;> rfl
    rw [next,ih]
    rfl

theorem analyseLines_append : (analyseLines fence offset (first ++ second)).offsets =
    (analyseLines fence offset first).offsets ++
      (analyseLines (fenceAfter fence first) (offset + width first) second).offsets := by
  induction first generalizing fence offset with
  | nil => cases fence <;> rfl
  | cons line first ih =>
    rw [cons_append,analyseLines_cons,analyseLines_cons,ih,width_cons,append_assoc]
    have moved : offset + line.length + 1 + width first = offset + (line.length + 1 + width first) :=
      by omega
    rw [moved]
    rfl

theorem mem_fencedLine :
    i ∈ fencedLine offset line ↔ offset ≤ i ∧ i ≤ offset + line.length := by
  rw [fencedLine,mem_map]
  constructor
  · intro ⟨step,mem,same⟩
    have bound := mem_range.mp mem
    omega
  · intro ⟨low,high⟩
    exact ⟨i - offset,mem_range.mpr (by omega),by omega⟩

theorem mem_analyseLines (mem : i ∈ (analyseLines fence offset lines).offsets) :
    offset ≤ i ∧ i < offset + width lines := by
  induction lines generalizing fence offset with
  | nil => cases fence <;> cases mem
  | cons line lines ih =>
    rw [analyseLines_cons] at mem
    rw [width_cons]
    rcases mem_append.mp mem with here | post
    · split at here
      · have bounds := mem_fencedLine.mp here
        omega
      · cases here
    · have bounds := ih post
      omega

theorem mem_offsets (i : ℕ)
    (stands : Text.splitLines body = first ++ line :: second) (inside : i ≤ line.length) :
    width first + i ∈ (analyseFences body).offsets ↔ isFencedLine (fenceAfter none first) line = true := by
  rw [analyseFences,stands,analyseLines_append,analyseLines_cons,mem_append,mem_append]
  constructor
  · intro mem
    rcases mem with pre | here | behind
    · have bounds := mem_analyseLines pre
      omega
    · split at here
      next fenced => exact fenced
      next => cases here
    · have bounds := mem_analyseLines behind
      omega
  · intro fenced
    refine .inr (.inl ?_)
    rw [if_pos fenced,mem_fencedLine]
    omega

theorem mem_stripIndent (count : ℕ) (solid : c ≠ ' ') (t : Text) :
    c ∈ stripIndent count t ↔ c ∈ t := by
  induction count generalizing t with
  | zero => rw [stripIndent]; intro _ _ same; cases same
  | succ count ih =>
    cases t with
    | nil => rfl
    | cons d t =>
      by_cases blank : d = ' '
      · rw [blank,stripIndent,ih,mem_cons]
        exact ⟨.inr,fun mem => mem.resolve_left solid⟩
      · rw [stripIndent]
        intro _ _ _ same
        exact blank (cons.inj same).1

theorem mem_logicalLine (solid : c ≠ '\r') (mem : c ∈ line) : c ∈ logicalLine line := by
  rw [logicalLine]
  split
  next ends =>
    have whole := dropLast_append_getLast? '\r' ends
    rw [← whole] at mem
    apply (mem_append.mp mem).resolve_right
    intro last
    exact solid (mem_singleton.mp last)
  next => exact mem

theorem drop_takeWhile {test : Char → Bool} (t : Text) :
    t.drop (t.takeWhile test).length = t.dropWhile test := by
  induction t with
  | nil => rfl
  | cons c t ih =>
    rw [takeWhile_cons,dropWhile_cons]
    split
    next => exact ih
    next => rfl

theorem isClosingFence_plain {open_fence : OpenFence}
    (closes : isClosingFence line open_fence = true) (solid : c ≠ ' ') (untabbed : c ≠ '\t')
    (unfenced : c ≠ '\x60' ∧ c ≠ '~') : c ∉ line := by
  intro mem
  rw [isClosingFence] at closes
  have stays := (mem_stripIndent 3 solid line).mpr mem
  rw [stripFenceIndent] at closes
  generalize stripIndent 3 line = stripped at closes stays
  cases stripped with
  | nil => cases stays
  | cons d rest =>
    rw [fenceRun] at closes
    split at closes
    next none_there => cases closes
    next run fences =>
      split at fences
      next marks =>
        cases fences
        rw [and_eq_true] at closes
        have blanks := all_eq_true.mp closes.2
        rw [drop_succ_cons,drop_takeWhile] at blanks
        have other : c ≠ d := by
          intro same
          rw [← same] at marks
          exact marks.elim unfenced.1 unfenced.2
        have behind := (mem_cons.mp stays).resolve_left other
        rw [← takeWhile_append_dropWhile (p := (· = d)) (l := rest)] at behind
        rcases mem_append.mp behind with run | after
        · have same := mem_takeWhile_imp run
          exact other (of_decide_eq_true same)
        · have blank := blanks c after
          simp only [or_eq_true,beq_iff_eq] at blank
          exact blank.elim solid untabbed
      next => cases fences

theorem isFencedLine_marked (marked : '<' ∈ line) : isFencedLine fence line = fence.isSome := by
  cases fence with
  | none => rfl
  | some fence =>
    rw [isFencedLine,Option.any_some,Option.isSome_some,not_eq_true']
    apply eq_false_iff.mpr
    intro closes
    have mem := mem_logicalLine (c := '<') (by decide) marked
    exact isClosingFence_plain closes (by decide) (by decide) (by decide) mem

theorem infix_joinLines (mem : line ∈ lines) : line <:+: Text.joinLines lines := by
  induction lines with
  | nil => cases mem
  | cons first lines ih =>
    by_cases last : lines = []
    · subst last
      rw [mem_singleton.mp mem,Text.joinLines_singleton]
    · rw [Text.joinLines_cons first last]
      rcases mem_cons.mp mem with rfl | inside
      · exact (prefix_append _ _).isInfix
      · exact (ih inside).trans ((suffix_cons _ _).trans (suffix_append _ _)).isInfix

theorem stripIndent_suffix (count : ℕ) (t : Text) : stripIndent count t <:+ t := by
  induction count generalizing t with
  | zero =>
    rw [stripIndent]
    intro _ _ same
    cases same
  | succ count ih =>
    cases t with
    | nil => exact suffix_refl _
    | cons c t =>
      by_cases blank : c = ' '
      · rw [blank,stripIndent]
        exact (ih t).trans (suffix_cons _ _)
      · rw [stripIndent]
        intro _ _ _ same
        exact blank (cons.inj same).1

theorem logicalLine_starts (line : Text) : logicalLine line <+: line := by
  rw [logicalLine]
  split
  next => exact dropLast_prefix line
  next => exact prefix_refl _

theorem includes_iff {part : Text} : Text.includes part t = true ↔ part <:+: t := by
  rw [Text.includes,any_eq_true,List.infix_iff_prefix_suffix]
  simp only [mem_tails,List.isPrefixOf_iff_prefix]
  exact ⟨fun ⟨tail,mem,starts⟩ => ⟨tail,starts,mem⟩,fun ⟨tail,starts,mem⟩ => ⟨tail,mem,starts⟩⟩

theorem fenceRun_starts {run : OpenFence} (fences : fenceRun t = some run)
    (long : 3 ≤ run.length) : List.replicate 3 run.char <+: t ∧ (run.char = '\x60' ∨ run.char = '~') := by
  cases t with
  | nil => cases fences
  | cons c t =>
    rw [fenceRun] at fences
    split at fences
    next marks =>
      cases fences
      refine ⟨?_,marks⟩
      have two : 2 ≤ (t.takeWhile (· = c)).length := Nat.le_of_succ_le_succ long
      have same : t.takeWhile (· = c) = replicate (t.takeWhile (· = c)).length c := by
        rw [eq_replicate_iff]
        refine ⟨rfl,?_⟩
        intro d mem
        have same := mem_takeWhile_imp (p := fun x => decide (x = c)) mem
        exact of_decide_eq_true same
      rw [replicate_succ,cons_prefix_cons]
      refine ⟨rfl,List.IsPrefix.trans ?_ (List.takeWhile_prefix (· = c))⟩
      rw [same]
      exact prefix_replicate_iff.mpr ⟨by simpa using two,rfl⟩
    next => cases fences

theorem matchOpeningFence_plain (plain : bodyHasFence body = false)
    (mem : line ∈ Text.splitLines body) : matchOpeningFence (logicalLine line) = none := by
  by_contra opens
  obtain ⟨run,hit⟩ := Option.ne_none_iff_exists'.mp opens
  rw [matchOpeningFence] at hit
  split at hit
  next => cases hit
  next its_run fences =>
    split at hit
    next => cases hit
    next long =>
      obtain ⟨starts,marks⟩ := fenceRun_starts fences (not_lt.mp long)
      have inside := infix_joinLines mem
      rw [Text.joinLines_splitLines] at inside
      have contained : replicate 3 its_run.char <:+: body :=
        starts.isInfix.trans ((stripIndent_suffix 3 _).isInfix.trans ((logicalLine_starts line).isInfix.trans inside))
      have fenced := includes_iff.mpr contained
      rw [bodyHasFence,or_eq_false_iff] at plain
      rcases marks with backtick | tilde
      · rw [backtick,plain.1] at fenced
        cases fenced
      · rw [tilde,plain.2] at fenced
        cases fenced

theorem fenceAfter_plain (plain : bodyHasFence body = false)
    (inside : ∀ line ∈ lines, line ∈ Text.splitLines body) : fenceAfter none lines = none := by
  induction lines with
  | nil => rfl
  | cons line lines ih =>
    rw [fenceAfter,foldl_cons,nextFence,matchOpeningFence_plain plain (inside line mem_cons_self)]
    exact ih fun other mem => inside other (mem_cons_of_mem _ mem)

end Fences

section Markers

variable {fenced : List ℕ} {marker : Text} {offset : ℕ} {second t first : Text}

/-- Texts that are marked at their first character only, and stand on one line. -/
structure IsMarker (marker : Text) : Prop where
  starts : ∃ rest, marker = '<' :: rest ∧ '<' ∉ rest
  unbroken : '\n' ∉ marker
  marks : containsPrDescriptionMarker marker = true

theorem isMarker_start : IsMarker regionStart := by
  refine ⟨⟨"!-- keiko:pr-description:v1:start -->".toList,?_,?_⟩,?_,?_⟩ <;> decide +kernel

theorem isMarker_end : IsMarker regionEnd := by
  refine ⟨⟨"!-- keiko:pr-description:v1:end -->".toList,?_,?_⟩,?_,?_⟩ <;> decide +kernel

theorem startsWithFolded_append {word : Text} (starts : startsWithFolded word t = true)
    (more : Text) : startsWithFolded word (t ++ more) = true := by
  rw [startsWithFolded,List.isPrefixOf_iff_prefix] at starts ⊢
  rw [map_append]
  exact starts.trans (prefix_append _ _)

theorem matchesMarker_append (hit : matchesMarker t = true) (more : Text) :
    matchesMarker (t ++ more) = true := by
  rw [matchesMarker,and_eq_true] at hit ⊢
  refine ⟨startsWithFolded_append hit.1 more,?_⟩
  have long : 5 ≤ t.length := by
    have sizes := (List.isPrefixOf_iff_prefix.mp hit.1).length_le
    rw [length_map] at sizes
    exact sizes
  have behind := hit.2
  rw [drop_append_of_le_length long]
  rw [dropWhile_append]
  split at behind
  next rest colon =>
    rw [colon]
    simp only [isEmpty_cons,false_eq_true,if_false,cons_append]
    rw [dropWhile_append]
    split
    next none_left =>
      rw [List.isEmpty_iff] at none_left
      rw [none_left] at behind
      exact absurd behind (by decide +kernel)
    next => exact startsWithFolded_append behind more
  next => cases behind

theorem contains_append (hit : containsPrDescriptionMarker t = true)
    (pre after : Text) : containsPrDescriptionMarker (pre ++ t ++ after) = true := by
  rw [containsPrDescriptionMarker,any_eq_true] at hit ⊢
  obtain ⟨tail,mem,marks⟩ := hit
  rw [mem_tails] at mem
  obtain ⟨start,rfl⟩ := mem
  refine ⟨tail ++ after,?_,matchesMarker_append marks after⟩
  rw [mem_tails]
  exact ⟨pre ++ start,by simp⟩

theorem before_mark (marks : IsMarker marker) {pre after : Text}
    (same : first ++ marker ++ second = pre ++ '<' :: after)
    (early : first.length < pre.length) : ∃ between, pre = first ++ marker ++ between := by
  obtain ⟨rest,rfl,once⟩ := marks.starts
  rw [append_assoc] at same
  rcases append_eq_append_iff.mp same with ⟨middle,rfl,inner⟩ | ⟨middle,rfl,inner⟩
  · rcases append_eq_append_iff.mp inner with ⟨between,rfl,_⟩ | ⟨between,splits,tail⟩
    · exact ⟨between,by rw [append_assoc]⟩
    · cases between with
      | nil =>
        rw [append_nil] at splits
        exact ⟨[],by rw [splits,append_nil]⟩
      | cons c between =>
        cases middle with
        | nil => simp at early
        | cons d middle =>
          have head : c = '<' := (cons.inj tail).1.symm
          have mem := (cons.inj splits).2
          exfalso
          apply once
          rw [mem,head]
          exact mem_append_right _ mem_cons_self
  · rw [length_append] at early
    omega

theorem not_start_end : regionStart ++ first ≠ regionEnd ++ second := by
  intro same
  have starts := congrArg (take 36) same
  have short : regionEnd.length = 36 := by decide +kernel
  have long : regionStart.length = 38 := by decide +kernel
  rw [take_append_of_le_length (by omega),take_append_of_le_length (by omega)] at starts
  exact absurd starts (by decide +kernel)

theorem firstUnfencedIndex_eq_some (filled : marker ≠ []) {i : ℕ} :
    firstUnfencedIndex fenced marker offset t = some i ↔
      ∃ pre after, t = pre ++ marker ++ after ∧ i = offset + pre.length ∧
        i ∉ fenced ∧ ∀ first second, t = first ++ marker ++ second →
          first.length < pre.length → offset + first.length ∈ fenced := by
  induction t generalizing offset with
  | nil =>
    rw [firstUnfencedIndex]
    constructor
    · intro hit
      cases hit
    · intro ⟨pre,after,same,_⟩
      simp at same
      exact absurd same.2.1 filled
  | cons c t ih =>
    rw [firstUnfencedIndex]
    split
    next here =>
      rw [and_eq_true,decide_eq_true_eq,List.isPrefixOf_iff_prefix] at here
      obtain ⟨⟨after,joined⟩,outside⟩ := here
      constructor
      · intro hit
        cases hit
        refine ⟨[],after,joined.symm,rfl,outside,?_⟩
        intro first second _ shorter
        cases shorter
      · intro ⟨pre,rest,_,place,_,least⟩
        cases pre with
        | nil => rw [place]; rfl
        | cons d pre => exact absurd (least [] after joined.symm (Nat.zero_lt_succ _)) outside
    next elsewhere =>
      rw [and_eq_true,decide_eq_true_eq,List.isPrefixOf_iff_prefix] at elsewhere
      rw [ih]
      constructor
      · intro ⟨pre,after,joined,place,outside,least⟩
        refine ⟨c :: pre,after,?_,?_,outside,?_⟩
        · rw [joined]
          rfl
        · rw [place,length_cons]
          omega
        · intro first second same shorter
          cases first with
          | nil =>
            by_contra free
            exact elsewhere ⟨⟨second,same.symm⟩,free⟩
          | cons d first =>
            have tail := (cons.inj same).2
            have early := least first second tail (Nat.lt_of_succ_lt_succ shorter)
            rw [length_cons]
            rw [Nat.add_right_comm] at early
            exact early
      · intro ⟨pre,after,joined,place,outside,least⟩
        cases pre with
        | nil =>
          rw [place] at outside
          exact absurd ⟨⟨after,joined.symm⟩,outside⟩ elsewhere
        | cons d pre =>
          refine ⟨pre,after,(cons.inj joined).2,?_,outside,?_⟩
          · rw [place,length_cons]
            omega
          · intro first second same shorter
            have post := least (c :: first) second (congrArg (c :: ·) same) (Nat.succ_lt_succ shorter)
            rw [length_cons] at post
            rw [Nat.add_right_comm]
            exact post

end Markers

end Keiko.PrDescriptionRegion
