import Keiko.LineDiffApply

/-! A line diff as a whole: its blocks replace the lines of one text by those of the other, and its
hunks under a file header are parsed into one file change whose content computation turns the one
text into the other. -/
namespace Keiko.LineDiff
open Keiko.Library Keiko.UnifiedDiff Keiko.Patch List

/-- A string of the language, which is no longer than a safe integer says. -/
abbrev StringValue := {text : Text // Text.utf16Length text ≤ maxSafeInteger}

section Replacement

def replaceBlocks (old new : List Text) (cursor : Nat) : List LineChangeBlock → List Text
  | [] => old.drop cursor
  | block :: blocks =>
    linesBetween old cursor block.oldStart ++ linesBetween new block.newStart block.newEnd ++
      replaceBlocks old new block.oldEnd blocks

/-- Blocks that are not empty, in order and apart on both sides, and that turn the lines of one
side into those of the other. -/
structure BlocksSound (before after : LineDiffSide) (blocks : List LineChangeBlock) : Prop where
  nonempty : ∀ block ∈ blocks, block.oldStart < block.oldEnd ∨ block.newStart < block.newEnd
  oldInside : ∀ block ∈ blocks, block.oldStart ≤ block.oldEnd ∧ block.oldEnd ≤ before.lines.length
  newInside : ∀ block ∈ blocks, block.newStart ≤ block.newEnd ∧ block.newEnd ≤ after.lines.length
  ordered : blocks.Pairwise fun first second =>
    first.oldEnd ≤ second.oldStart ∧ first.newEnd ≤ second.newStart
  replaced : replaceBlocks before.lines after.lines 0 blocks = after.lines

theorem Replaces.replaceBlocks_eq {i j : Nat} {old new : List Text} {blocks : List LineChangeBlock}
    (replaces : Replaces i j old new blocks) {oldFront newFront : List Text}
    (oldPlace : i = oldFront.length) (newPlace : j = newFront.length) :
    replaceBlocks (oldFront ++ old) (newFront ++ new) i blocks = new := by
  induction replaces generalizing oldFront newFront with
  | done i j tail =>
    rw [replaceBlocks,oldPlace,drop_left]
  | @block i j oldRest newRest block blocks gap old new some_line oldStart oldEnd newStart newEnd _ ih =>
    have kept : linesBetween (oldFront ++ (gap ++ old ++ oldRest)) i block.oldStart = gap := by
      have whole := linesBetween_append oldFront gap (old ++ oldRest)
      rw [oldStart,oldPlace]
      simpa only [append_assoc] using whole
    have added : linesBetween (newFront ++ (gap ++ new ++ newRest)) block.newStart block.newEnd =
        new := by
      have whole := linesBetween_append (newFront ++ gap) new newRest
      rw [newEnd,newStart,newPlace]
      simpa only [append_assoc,length_append] using whole
    have rest := @ih (oldFront ++ gap ++ old) (newFront ++ gap ++ new)
      (by simp only [length_append]; omega) (by simp only [length_append]; omega)
    simp only [append_assoc] at rest kept added ⊢
    rw [replaceBlocks,kept,added,rest]
    simp only [append_assoc]

theorem searchLineChanges_sound (pre after : Text) (maxDistance : Nat) :
    BlocksSound (lineDiffSide pre) (lineDiffSide after)
      (searchLineChanges (lineDiffSide pre) (lineDiffSide after) maxDistance).blocks := by
  have replaces := (searchLineChanges_replaces (lineDiffSide pre) (lineDiffSide after)
    maxDistance).map withoutFinalNewline
  rw [map_comparisonKeys (unbroken_lineDiffSide pre),map_comparisonKeys (unbroken_lineDiffSide after)] at replaces
  have inside := replaces.inside
  simp only [Nat.zero_add] at inside
  refine ⟨?_,?_,?_,replaces.ordered,?_⟩
  · intro block mem
    exact (inside block mem).2.2.2.2.2.2
  · intro block mem
    obtain ⟨_,oldOrder,oldEnd,_⟩ := inside block mem
    exact ⟨oldOrder,oldEnd⟩
  · intro block mem
    obtain ⟨_,_,_,_,newOrder,newEnd,_⟩ := inside block mem
    exact ⟨newOrder,newEnd⟩
  · exact @Replaces.replaceBlocks_eq _ _ _ _ _ replaces [] [] rfl rfl

end Replacement

section Formed

theorem length_le_utf16Length (t : Text) : t.length ≤ Text.utf16Length t := by
  induction t with
  | nil => exact le_refl _
  | cons c t ih =>
    have width := Text.utf16Width_pos c
    rw [length_cons,Text.utf16Length_cons]
    omega

theorem length_splitLines (t : Text) : (Text.splitLines t).length = t.count '\n' + 1 := by
  induction t with
  | nil => rfl
  | cons c t ih =>
    rw [Text.splitLines] at ih ⊢
    rw [splitOn_cons_eq_if_modifyHead,count_cons]
    split
    · rw [length_cons,ih]
    · rw [length_modifyHead,ih]

theorem length_lineDiffSide (t : Text) : (lineDiffSide t).lines.length ≤ t.length := by
  obtain ⟨_,side⟩ | ⟨front,rfl,side⟩ | ⟨some_char,last,side⟩ := lineDiffSide_cases t
  · rw [side]
    exact Nat.zero_le _
  · rw [side,length_splitLines,length_append]
    exact Nat.succ_le_succ count_le_length
  · obtain ⟨front,c,rfl⟩ := (eq_nil_or_concat' t).resolve_left some_char
    have other : c ≠ '\n' := by simpa using last
    rw [side,length_splitLines,count_append,count_singleton,if_neg (by simpa using other),length_append]
    exact Nat.succ_le_succ count_le_length

theorem length_comparisonKeys_safe (t : StringValue) :
    (comparisonKeys (lineDiffSide t.1)).length ≤ maxSafeInteger := by
  rw [length_comparisonKeys]
  exact (length_lineDiffSide t.1).trans ((length_le_utf16Length t.1).trans t.2)

theorem unbroken_key {side : LineDiffSide} (unbroken : Unbroken side) :
    ∀ key ∈ comparisonKeys side, '\n' ∉ withoutFinalNewline key := by
  intro key mem
  apply unbroken
  rw [← map_comparisonKeys unbroken]
  exact mem_map_of_mem mem

theorem mem_of_body {body : Body} {piece : LineEdit × Text} (mem : piece ∈ body) :
    piece.2 ∈ oldKeys body ∨ piece.2 ∈ newKeys body := by
  obtain ⟨move,key⟩ := piece
  cases move with
  | keep => exact .inl (mem_map.mpr ⟨_,mem_filter.mpr ⟨mem,rfl⟩,rfl⟩)
  | remove => exact .inl (mem_map.mpr ⟨_,mem_filter.mpr ⟨mem,rfl⟩,rfl⟩)
  | add => exact .inr (mem_map.mpr ⟨_,mem_filter.mpr ⟨mem,rfl⟩,rfl⟩)

theorem Hunked.wellFormed {i j : Nat} {old new : List Text} {hunks : List PatchHunk}
    (hunked : Hunked i j old new hunks) (oldPlain : ∀ key ∈ old, '\n' ∉ withoutFinalNewline key)
    (newPlain : ∀ key ∈ new, '\n' ∉ withoutFinalNewline key)
    (oldSafe : i + old.length ≤ maxSafeInteger) (newSafe : j + new.length ≤ maxSafeInteger) :
    ∀ hunk ∈ hunks, hunk.WellFormed := by
  induction hunked with
  | done => simp
  | hunk gap body oldPlace newPlace _ _ rest ih =>
    simp only [length_append] at oldSafe newSafe
    have plain : Plain body := by
      intro piece mem
      rcases mem_of_body mem with inOld | inNew
      · exact oldPlain _ (by simp [inOld])
      · exact newPlain _ (by simp [inNew])
    have others := ih (fun key mem => oldPlain key (by simp [mem]))
      (fun key mem => newPlain key (by simp [mem])) (by omega) (by omega)
    intro hunk mem
    rcases mem_cons.mp mem with rfl | later
    · exact hunkOf_wellFormed plain (by omega) (by omega)
    · exact others hunk later

end Formed

section Parsed

/-- The lines that head the diff of one file: what other programs say of it, which the parser
skips, and the two lines that name it. -/
structure DiffHeader extends FileHeader where
  preamble : List Text
  skipped : ∀ line ∈ preamble, startsWith "--- ".toList line = false
  unbroken : ∀ line ∈ preamble ++ [oldLine,newLine], '\n' ∉ line

def diffText (header : DiffHeader) (hunks : List Text) (terminated : Bool) : Text :=
  Text.joinLines (header.preamble ++ header.lines ++ hunks ++ if terminated then [[]] else [])

theorem readLines_skipped {preamble : List Text}
    (skipped : ∀ line ∈ preamble, startsWith "--- ".toList line = false) :
    readLines ⟨[],none,none⟩ preamble = .ok ⟨[],none,none⟩ := by
  induction preamble with
  | nil => rfl
  | cons line preamble ih =>
    have a : handleLine ⟨[],none,none⟩ line none = .ok ⟨[],none,none⟩ := by
      unfold handleLine
      simp only [Option.filter_none,skipped line (by simp),Bool.false_eq_true,if_false]
    rw [readLines_cons,a]
    exact ih fun line mem => skipped line (by simp [mem])

theorem readLines_terminator {s : ParseState} {f closed : FileAccumulator}
    (open_file : s.current = some f) (finished : finishHunk f = .ok closed)
    (terminated : Bool) :
    ∃ last, readLines s (if terminated then [[]] else []) =
      .ok { s with current := some last } ∧ finishHunk last = .ok closed := by
  cases terminated with
  | false =>
    refine ⟨f,?_,finished⟩
    cases s
    cases open_file
    rfl
  | true =>
    have l : handleLine s [] none =
        (handleBodyLine f [] none >>= fun f => .ok { s with current := some f }) := by
      rw [handleLine_file open_file finished rfl]
      rfl
    simp only [if_true]
    rw [readLines_cons,l]
    obtain ⟨none_open,rfl⟩ | ⟨h,open_hunk,oldSpent,newSpent,same⟩ :=
      finishHunk_cases finished
    · refine ⟨closed,?_,finished⟩
      have body : handleBodyLine closed [] none = .ok closed := by
        simp [handleBodyLine,none_open,isMarked,isHunkBodyLine]
      rw [body]
      rfl
    · refine ⟨closed,?_,by rw [same]; rfl⟩
      have body : handleBodyLine f [] none = finishHunk f := by
        simp [handleBodyLine,open_hunk,isMarked,isHunkBodyLine]
      rw [body,finished]
      rfl

theorem parseUnifiedDiff_diffText (header : DiffHeader) {hunks : List PatchHunk}
    (formed : ∀ h ∈ hunks, h.WellFormed) (terminated : Bool) :
    parseUnifiedDiff (diffText header (hunks.flatMap UnifiedDiff.renderHunk) terminated) =
      .ok [header.change hunks] := by
  have some_line : header.preamble ++ header.lines ++ hunks.flatMap UnifiedDiff.renderHunk ++
      (if terminated then [[]] else []) ≠ [] := by
    simp [FileHeader.lines]
  have unbroken : ∀ line ∈ header.preamble ++ header.lines ++
      hunks.flatMap UnifiedDiff.renderHunk ++ (if terminated then [[]] else []), '\n' ∉ line := by
    intro line mem
    rcases mem_append.mp mem with front | last
    · rcases mem_append.mp front with inHeader | inHunks
      · exact header.unbroken line inHeader
      · obtain ⟨h,inside,inHunk⟩ := mem_flatMap.mp inHunks
        exact renderHunk_unbroken (formed h inside) line inHunk
    · split at last
      · rw [mem_singleton.mp last]
        simp
      · simp at last
  obtain ⟨file,closed,read,closes,finishes⟩ := readLines_section header.toFileHeader formed
    (rfl : finishCurrent ⟨[],none,none⟩ = _) rfl
  let open_state : ParseState := { files := [], sources := none, current := some file }
  obtain ⟨last,ended,closesLast⟩ := @readLines_terminator open_state file closed rfl closes terminated
  rw [parseUnifiedDiff_eq,diffText,Text.splitLines_joinLines unbroken some_line,readLines_append,
    append_assoc,readLines_append,readLines_skipped header.skipped]
  change ((readLines ⟨[],none,none⟩ _ >>= _) >>= finishCurrent).map ParseState.files = _
  rw [read]
  change (readLines open_state _ >>= finishCurrent).map ParseState.files = _
  rw [ended]
  have finished := finishes last closesLast
  change (finishCurrent { files := [], sources := none, current := some last }).map _ = _
  rw [finished]
  rfl

end Parsed

section Correct

/-- A change that computes one text from another; a create starts from the empty text and a
delete ends in it. -/
def ChangesTo (change : PatchFileChange) (before after : Text) : Prop :=
  match change.kind with
  | .modify => ∀ overwrite, computeFileContent change (some before) overwrite = ⟨some after,[]⟩
  | .create => before = [] →
    (∀ overwrite, computeFileContent change none overwrite = ⟨some after,[]⟩) ∧
      ∀ current, computeFileContent change (some current) true = ⟨some after,[]⟩
  | .delete => after = [] →
    ∀ overwrite, computeFileContent change (some before) overwrite = ⟨none,[]⟩

theorem changesTo_hunked {pre after : Text} {c : PatchFileChange}
    (hunked : Hunked 0 0 (comparisonKeys (lineDiffSide pre))
      (comparisonKeys (lineDiffSide after)) c.hunks) : ChangesTo c pre after := by
  have empty : comparisonKeys (lineDiffSide []) = [] := rfl
  unfold ChangesTo
  cases kind : c.kind with
  | modify =>
    intro overwrite
    simp only [computeFileContent,kind]
    exact applyModify_hunked hunked
  | create =>
    intro fresh
    rw [fresh,empty] at hunked
    have created := createdContent_hunked hunked
    refine ⟨?_,?_⟩
    · intro overwrite
      simp [computeFileContent,kind,created]
    · intro cur
      simp [computeFileContent,kind,created]
  | delete =>
    intro gone overwrite
    rw [gone,empty] at hunked
    simp only [computeFileContent,kind]
    exact verifyDeletePreImage_hunked hunked

/-- The line diff of two strings is correct whatever bound stops its search. -/
theorem lineDiff_correct (before after : StringValue) (maxDistance : Nat) :
    BlocksSound (lineDiffSide before.1) (lineDiffSide after.1)
      (searchLineChanges (lineDiffSide before.1) (lineDiffSide after.1) maxDistance).blocks ∧
    ∀ (header : DiffHeader) (terminated : Bool), ∃ change,
      parseUnifiedDiff (diffText header (unifiedDiffHunks (lineDiffSide before.1)
        (lineDiffSide after.1) (searchLineChanges (lineDiffSide before.1) (lineDiffSide after.1)
          maxDistance).blocks) terminated) = .ok [change] ∧
      (change.kind,change.path) = classify header.oldPath header.newPath ∧
      ChangesTo change before.1 after.1 := by
  refine ⟨searchLineChanges_sound before.1 after.1 maxDistance,?_⟩
  intro header terminated
  have oldUnbroken := unbroken_lineDiffSide before.1
  have newUnbroken := unbroken_lineDiffSide after.1
  obtain ⟨hunks,hunked,rendered⟩ := unifiedDiffHunks_hunked oldUnbroken newUnbroken
    (searchLineChanges_replaces (lineDiffSide before.1) (lineDiffSide after.1) maxDistance)
  have formed := hunked.wellFormed (unbroken_key oldUnbroken) (unbroken_key newUnbroken)
    ((Nat.zero_add _).le.trans (length_comparisonKeys_safe before))
    ((Nat.zero_add _).le.trans (length_comparisonKeys_safe after))
  refine ⟨header.change hunks,?_,rfl,changesTo_hunked hunked⟩
  rw [rendered]
  exact parseUnifiedDiff_diffText header formed terminated

end Correct

end Keiko.LineDiff
