import Keiko.Library.Splice
import Keiko.PatchContent
import Keiko.UnifiedDiffInvariant

/-! What the hunks of a modify do to the lines of a file: without a conflict they are
edits of the lines, in order, each replacing the very block that it shows. The hunk of an
insertion is placed by another convention, so it is left out unless it starts at line 0. -/
namespace Keiko.Patch
open Keiko.Library Keiko.UnifiedDiff List Bool

section Blocks

def oldBlock (lines : List Text) : List Text :=
  (lines.filter fun line => !(isMarked '+' line || isMarked '\\' line)).map (List.drop 1)

def newBlock (lines : List Text) : List Text := (lines.filter onNewSide).map (List.drop 1)

def marks (side : Text → Bool) (previous : Text) : List Text → Bool
  | [] => false
  | line :: lines => (isMarked '\\' line && side previous) || marks side line lines

def hunkEdit (hunk : PatchHunk) : Edit Text :=
  ⟨hunk.oldStart - 1,oldBlock hunk.lines,newBlock hunk.lines⟩

theorem hunkEdit_length {hunk : PatchHunk} (formed : hunk.WellFormed) :
    (hunkEdit hunk).old.length = hunk.oldLines ∧ (hunkEdit hunk).new.length = hunk.newLines := by
  have shown : ∀ l ∈ hunk.lines, (!(isMarked '+' l || isMarked '\\' l)) = onOldSide l := by
    intro l member
    rcases formed.body.mem l member with body | marker
    · simp only [isHunkBodyLine,or_eq_true,isMarked_eq] at body
      rcases body with (blank | added) | removed
      · simp [onOldSide,isMarked,blank]
      · simp [onOldSide,isMarked,added]
      · simp [onOldSide,isMarked,removed]
    · rw [isMarked_eq] at marker
      simp [onOldSide,isMarked,marker]
  constructor
  · rw [hunkEdit,oldBlock,length_map,filter_congr shown,← countP_eq_length_filter,formed.oldCount]
  · rw [hunkEdit,newBlock,length_map,← countP_eq_length_filter,formed.newCount]

end Blocks

section Hunk

variable {original : Original} {cursor next : HunkCursor} {raw previous : Text} {pos : Nat} {produced res : Produced}

theorem applyMarker_cases (applied : applyMarker original previous pos produced = .ok res) :
    isHunkBodyLine previous = true ∧ res.lines = produced.lines ∧
      res.markedAt.isSome = (produced.markedAt.isSome || onNewSide previous) := by
  unfold applyMarker at applied
  split at applied
  · contradiction
  case isFalse body =>
    have isBody : isHunkBodyLine previous = true := by simpa using body
    split at applied
    · contradiction
    · split at applied
      case isTrue removed =>
        cases applied
        have notNew : onNewSide previous = false := by
          rw [isMarked,beq_iff_eq] at removed
          simp [onNewSide,isMarked,removed]
        simp [isBody,notNew]
      case isFalse kept =>
        unfold markLastProduced at applied
        split at applied
        · contradiction
        · cases applied
          have isNew : onNewSide previous = true := by
            simp only [isHunkBodyLine,or_eq_true] at isBody
            simp only [onNewSide,or_eq_true]
            tauto
          simp [isBody,isNew]

theorem applyLine_spec (applied : applyLine original cursor raw = .ok next) :
    original.lines.drop cursor.pos = oldBlock [raw] ++ original.lines.drop next.pos ∧
      next.pos = cursor.pos + (oldBlock [raw]).length ∧
      next.produced.lines = cursor.produced.lines ++ newBlock [raw] ∧
      next.produced.markedAt.isSome =
        (cursor.produced.markedAt.isSome || (isMarked '\\' raw && onNewSide cursor.previous)) ∧
      next.previous = raw := by
  unfold applyLine at applied
  dsimp only at applied
  split at applied
  case isTrue marked =>
    obtain ⟨res,attached,applied⟩ := bind_eq_ok.mp applied
    cases pure_eq_ok.mp applied
    obtain ⟨-,ls,markedAt⟩ := applyMarker_cases attached
    have notNew : onNewSide raw = false := by
      rw [isMarked,beq_iff_eq] at marked
      simp [onNewSide,isMarked,marked]
    simp [oldBlock,newBlock,marked,notNew,ls,markedAt]
  case isFalse unmarked =>
    split at applied
    case isTrue added =>
      cases applied
      have isNew : onNewSide raw = true := by simp [onNewSide,added]
      simp [oldBlock,newBlock,added,isNew,unmarked,Produced.push]
    case isFalse notAdded =>
      split at applied
      case isTrue hit =>
        cases applied
        obtain ⟨mem,same⟩ := List.getElem?_eq_some_iff.mp hit
        have block : oldBlock [raw] = [raw.drop 1] := by simp [oldBlock,notAdded,unmarked]
        refine ⟨?_,?_,?_,?_,rfl⟩
        · rw [drop_eq_getElem_cons mem,same,block]
          rfl
        · rw [block]
          rfl
        · cases kept : isMarked ' ' raw <;>
            simp [newBlock,onNewSide,kept,notAdded,Produced.push]
        · cases isMarked ' ' raw <;> simp [unmarked,Produced.push]
      case isFalse => contradiction

theorem oldBlock_cons (l : Text) (ls : List Text) :
    oldBlock (l :: ls) = oldBlock [l] ++ oldBlock ls := by
  unfold oldBlock
  rw [← map_append,← filter_append]
  rfl

theorem newBlock_cons (l : Text) (ls : List Text) :
    newBlock (l :: ls) = newBlock [l] ++ newBlock ls := by
  unfold newBlock
  rw [← map_append,← filter_append]
  rfl

theorem applyLines_spec {ls : List Text} (applied : ls.foldlM (applyLine original) cursor = .ok next) :
    original.lines.drop cursor.pos = oldBlock ls ++ original.lines.drop next.pos ∧
      next.pos = cursor.pos + (oldBlock ls).length ∧
      next.produced.lines = cursor.produced.lines ++ newBlock ls ∧
      next.produced.markedAt.isSome = (cursor.produced.markedAt.isSome || marks onNewSide cursor.previous ls) := by
  induction ls generalizing cursor with
  | nil =>
    cases applied
    simp [oldBlock,newBlock,marks]
  | cons l ls ih =>
    rw [foldlM_cons] at applied
    obtain ⟨middle,first,rest⟩ := bind_eq_ok.mp applied
    obtain ⟨taken,moved,made,marked,previous⟩ := applyLine_spec first
    obtain ⟨takenRest,movedRest,madeRest,markedRest⟩ := ih rest
    refine ⟨?_,?_,?_,?_⟩
    · rw [taken,takenRest,oldBlock_cons l ls,append_assoc]
    · rw [movedRest,moved,oldBlock_cons l ls,length_append,Nat.add_assoc]
    · rw [madeRest,made,newBlock_cons l ls,append_assoc]
    · rw [markedRest,marked,previous,marks,Bool.or_assoc]

theorem applyHunk_spec {hunk : PatchHunk} {start : Nat} {res : HunkResult}
    (applied : applyHunk original hunk start = .ok res) :
    original.lines.drop start = oldBlock hunk.lines ++ original.lines.drop (start + res.consumed) ∧
      res.consumed = (oldBlock hunk.lines).length ∧
      res.outLines = newBlock hunk.lines ∧
      res.missingFinalNewline = marks onNewSide [] hunk.lines := by
  obtain ⟨read,looped,rest⟩ := bind_eq_ok.mp applied
  obtain ⟨_,-,rest⟩ := bind_eq_ok.mp rest
  cases pure_eq_ok.mp rest
  obtain ⟨taken,moved,made,marked⟩ := applyLines_spec looped
  have consumed : read.pos - start = (oldBlock hunk.lines).length := by
    rw [moved]
    exact Nat.add_sub_cancel_left _ _
  refine ⟨?_,consumed,by simpa using made,by simpa using marked⟩
  have reached : start + (read.pos - start) = read.pos := by rw [consumed,moved]
  rw [reached]
  exact taken

end Hunk

section Modify

variable {original : Original} {hunk : PatchHunk} {hunks : List PatchHunk} {i : Nat} {s : ModifyState}

theorem applyModifyHunk_conflicts :
    (applyModifyHunk original hunk i s).conflicts = [] → s.conflicts = [] := by
  unfold applyModifyHunk ModifyState.conflict
  dsimp only
  split
  · simp
  · split
    · simp
    · split
      · simp
      · exact id

theorem applyModifyHunks_conflicts :
    (applyModifyHunks original i s hunks).conflicts = [] → s.conflicts = [] := by
  induction hunks generalizing i s with
  | nil => exact id
  | cons hunk hunks ih => exact fun none_left => applyModifyHunk_conflicts (ih none_left)

theorem applyModifyHunk_cases (none_left : (applyModifyHunk original hunk i s).conflicts = []) :
    s.cursor ≤ hunk.oldStart - 1 ∧ ∃ result, applyHunk original hunk (hunk.oldStart - 1) = .ok result ∧
        applyModifyHunk original hunk i s = { s with
          out := s.out ++ (original.lines.take (min (hunk.oldStart - 1)
            original.lines.length)).drop s.cursor ++ result.outLines
          cursor := hunk.oldStart - 1 + result.consumed
          missingFinalNewline := result.missingFinalNewline } := by
  unfold applyModifyHunk ModifyState.conflict at none_left ⊢
  dsimp only at none_left ⊢
  split at none_left
  · simp at none_left
  case isFalse ordered =>
    rw [if_neg ordered]
    refine ⟨Nat.not_lt.mp ordered,?_⟩
    split at none_left
    · simp at none_left
    case h_2 result applied =>
      refine ⟨result,applied,?_⟩
      split at none_left
      · simp at none_left
      case isFalse fits => rw [if_neg fits]

def Anchored (hunk : PatchHunk) : Prop := oldBlock hunk.lines ≠ [] ∨ hunk.oldStart = 0

theorem applyModifyHunks_spliced (anchored : ∀ hunk ∈ hunks, Anchored hunk)
    (none_left : (applyModifyHunks original i s hunks).conflicts = []) :
    ∃ more, (applyModifyHunks original i s hunks).out = s.out ++ more ∧
      Spliced s.cursor (original.lines.drop s.cursor) (hunks.map hunkEdit)
        (more ++ original.lines.drop (applyModifyHunks original i s hunks).cursor)
        (original.lines.drop (applyModifyHunks original i s hunks).cursor) ∧
      (applyModifyHunks original i s hunks).missingFinalNewline =
        (hunks.getLast?.map fun hunk => marks onNewSide [] hunk.lines).getD
          s.missingFinalNewline := by
  induction hunks generalizing i s with
  | nil => exact ⟨[],by simp [applyModifyHunks],Spliced.done _,rfl⟩
  | cons hunk hunks ih =>
    have first_none : (applyModifyHunk original hunk i s).conflicts = [] :=
      applyModifyHunks_conflicts none_left
    obtain ⟨ordered,result,applied,next⟩ := applyModifyHunk_cases first_none
    obtain ⟨taken,consumed,made,marked⟩ := applyHunk_spec applied
    obtain ⟨more,out,spliced,gone⟩ := ih (fun hunk mem => anchored hunk (by simp [mem])) none_left
    have unfolded : applyModifyHunks original i s (hunk :: hunks) =
      applyModifyHunks original (i + 1) (applyModifyHunk original hunk i s) hunks := rfl
    rw [unfolded]
    -- The anchor lies inside the file, so the gap before it reaches up to it.
    have inside : hunk.oldStart - 1 ≤ original.lines.length := by
      obtain some_old | front := anchored hunk (by simp)
      · by_contra outside
        rw [drop_eq_nil_of_le (by omega)] at taken
        exact some_old (append_eq_nil_iff.mp taken.symm).1
      · omega
    let gap := (original.lines.take (hunk.oldStart - 1)).drop s.cursor
    have gapLength : gap.length = hunk.oldStart - 1 - s.cursor := by
      simp [gap,inside]
    have rest : original.lines.drop s.cursor = gap ++ oldBlock hunk.lines ++
        original.lines.drop (hunk.oldStart - 1 + result.consumed) := by
      rw [append_assoc,← taken]
      have parts : (original.lines.take (hunk.oldStart - 1) ++
          original.lines.drop (hunk.oldStart - 1)).drop s.cursor =
            gap ++ original.lines.drop (hunk.oldStart - 1) := by
        apply drop_append_of_le_length
        rw [length_take,Nat.min_eq_left inside]
        exact ordered
      rwa [take_append_drop] at parts
    refine ⟨gap ++ newBlock hunk.lines ++ more,?_,?_,?_⟩
    · rw [out,next,made,Nat.min_eq_left inside]
      simp [gap]
    · have moved : (applyModifyHunk original hunk i s).cursor =
          hunk.oldStart - 1 + (oldBlock hunk.lines).length := by rw [next,← consumed]
      rw [moved] at spliced
      have start : s.cursor + gap.length = (hunkEdit hunk).start := by
        rw [gapLength]
        exact Nat.add_sub_of_le ordered
      have step := Spliced.edit gap (hunkEdit hunk) start spliced
      rw [rest,consumed,append_assoc _ more]
      exact step
    · rw [gone,next,marked,getLast?_cons]
      cases hunks.getLast? <;> rfl

theorem applyModify_cases {last : ModifyState} (looped : applyModifyHunks original 0 ⟨[],[],0,false⟩ hunks = last)
    (applied : (applyModify original hunks).conflicts = []) :
    last.conflicts = [] ∧ (applyModify original hunks).content =
      some (render (last.out ++ original.lines.drop last.cursor)
        (if original.lines.drop last.cursor ≠ [] then original.missingFinalNewline else last.missingFinalNewline)) := by
  unfold applyModify at applied ⊢
  dsimp only at applied ⊢
  rw [looped] at applied ⊢
  by_cases marked : last.missingFinalNewline = true ∧ original.lines.drop last.cursor ≠ []
  · simp [ModifyState.conflict,marked] at applied
  · rw [if_neg marked] at applied ⊢
    by_cases none_left : last.conflicts = []
    · rw [if_neg (not_not.mpr none_left)]
      exact ⟨none_left,rfl⟩
    · rw [if_pos none_left] at applied
      contradiction

theorem applyModify_spliced (anchored : ∀ hunk ∈ hunks, Anchored hunk)
    (applied : (applyModify original hunks).conflicts = []) :
    ∃ out tail gone, Spliced 0 original.lines (hunks.map hunkEdit) out tail ∧
      (applyModify original hunks).content = some (render out gone) ∧
      (tail ≠ [] → gone = original.missingFinalNewline) ∧
      (tail = [] → gone = (hunks.getLast?.map fun hunk => marks onNewSide [] hunk.lines).getD false) := by
  obtain ⟨none_left,content⟩ := applyModify_cases rfl applied
  obtain ⟨more,out,spliced,gone⟩ := applyModifyHunks_spliced anchored none_left
  rw [out,nil_append] at content
  refine ⟨_,_,_,spliced,content,?_,?_⟩
  · intro some_tail
    exact if_pos some_tail
  · intro no_tail
    rw [if_neg (not_not.mpr no_tail)]
    exact gone

end Modify

section Soundness

/-- No hunk before the last one marks a line of the new side as the last of the file. -/
def MarkedLast (hunks : List PatchHunk) : Prop :=
  ∀ hunk ∈ hunks.dropLast, marks onNewSide [] hunk.lines = false

/-- The hunks of a modify are in order and show what the file holds at their place; the result
is the file with each shown block replaced, ending as the file does when lines follow the
hunks and as the last hunk says when none do. -/
def SoundModify (content : Text) (hunks : List PatchHunk) (result : Option Text) : Prop :=
  ∃ out tail missing, Spliced 0 (toOriginal content).lines (hunks.map hunkEdit) out tail ∧
    result = some (render out missing) ∧
    (tail ≠ [] → missing = (toOriginal content).missingFinalNewline) ∧
    (tail = [] → MarkedLast hunks → (missing = true ↔ ∃ hunk ∈ hunks.getLast?, marks onNewSide [] hunk.lines = true))

theorem computeFileContent_sound (change : PatchFileChange) (content : Text) (overwrite : Bool)
    (modify : change.kind = .modify) (anchored : ∀ hunk ∈ change.hunks, Anchored hunk) :
    ((computeFileContent change (some content) overwrite).conflicts = [] →
      SoundModify content change.hunks
        (computeFileContent change (some content) overwrite).content) ∧
    ((∀ out tail, ¬ Spliced 0 (toOriginal content).lines (change.hunks.map hunkEdit) out tail) →
      (computeFileContent change (some content) overwrite).conflicts ≠ []) ∧
    ∀ hunk ∈ change.hunks, hunk.WellFormed →
      (hunkEdit hunk).old.length = hunk.oldLines ∧ (hunkEdit hunk).new.length = hunk.newLines := by
  unfold computeFileContent
  rw [modify]
  dsimp only
  refine ⟨?_,?_,fun hunk _ formed => hunkEdit_length formed⟩
  · intro applied
    obtain ⟨out,tail,missing,spliced,result,followed,last⟩ := applyModify_spliced anchored applied
    refine ⟨out,tail,missing,spliced,result,followed,?_⟩
    intro no_tail _
    rw [last no_tail]
    cases change.hunks.getLast? <;> simp
  · intro misplaced applied
    obtain ⟨out,tail,_,spliced,-⟩ := applyModify_spliced anchored applied
    exact misplaced out tail spliced

def twoHunks : PatchFileChange where
  path := "x".toList
  kind := .modify
  hunks := [
    ⟨1,2,1,1,[" a".toList,"-b".toList]⟩,
    ⟨4,1,3,2,[" d".toList,"+e".toList,"\\ No newline at end of file".toList]⟩]
  addedLines := 1
  removedLines := 1

theorem computeFileContent_sound_twoHunks :
    SoundModify "a\nb\nc\nd\n".toList twoHunks.hunks (some "a\nc\nd\ne".toList) := by
  have anchored : ∀ hunk ∈ twoHunks.hunks, Anchored hunk := by
    intro hunk member
    obtain rfl | rfl := (by simpa [twoHunks] using member :
      hunk = ⟨1,2,1,1,[" a".toList,"-b".toList]⟩ ∨
        hunk = ⟨4,1,3,2,[" d".toList,"+e".toList,"\\ No newline at end of file".toList]⟩)
    · exact .inl (by decide)
    · exact .inl (by decide)
  have result : computeFileContent twoHunks (some "a\nb\nc\nd\n".toList) false =
      ⟨some "a\nc\nd\ne".toList,[]⟩ := by decide +kernel
  have sound := (computeFileContent_sound twoHunks "a\nb\nc\nd\n".toList false rfl anchored).1
  rw [result] at sound
  exact sound rfl

/-- A replaced last line gets the line break that the file had not. -/
theorem computeFileContent_not_original_ending :
    ¬ ∀ change content result, change.kind = PatchChangeKind.modify →
      (∀ hunk ∈ change.hunks, Anchored hunk) →
      (∀ line ∈ change.lines, isMarked '\\' line = false) →
      computeFileContent change (some content) false = ⟨some result,[]⟩ →
        (toOriginal result).missingFinalNewline = (toOriginal content).missingFinalNewline := by
  intro kept
  have ending := kept ⟨"x".toList,.modify,[⟨1,1,1,1,["-a".toList,"+b".toList]⟩],1,1⟩ "a".toList
    "b\n".toList rfl
  have anchored : ∀ hunk ∈ [(⟨1,1,1,1,["-a".toList,"+b".toList]⟩ : PatchHunk)], Anchored hunk := by
    intro hunk member
    rw [mem_singleton.mp member]
    exact .inl (by decide)
  have same := ending anchored (by decide) (by decide +kernel)
  exact absurd same (by decide +kernel)

end Soundness

end Keiko.Patch
