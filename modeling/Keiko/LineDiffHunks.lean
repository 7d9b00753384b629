import Keiko.LineDiffBlocks
import Keiko.PatchRender
import Mathlib.Data.List.Induction

/-! The hunks of a line diff. A body is a list of kept, removed and added keys; what is rendered
of it are the lines of the keys, with a marker behind a last line without its terminator. The
groups of the blocks cover both sides from the front on, and are read back as what they render. -/
namespace Keiko.LineDiff
open Keiko.Library Keiko.UnifiedDiff List

section Keys

def keyMarked (key : Text) : Bool := key.getLast? == some '\n'

def keyLines (marker : Char) (key : Text) : List Text :=
  (marker :: withoutFinalNewline key) :: if keyMarked key then [noNewlineMarker] else []

def Unbroken (side : LineDiffSide) : Prop := ∀ line ∈ side.lines, '\n' ∉ line

theorem keyMarked_of_unbroken {l : Text} (unbroken : '\n' ∉ l) : keyMarked l = false := by
  rw [keyMarked,beq_eq_false_iff_ne]
  intro last
  exact unbroken (mem_of_getLast? last)

theorem withoutFinalNewline_of_unbroken {l : Text} (unbroken : '\n' ∉ l) : withoutFinalNewline l = l := by
  rw [withoutFinalNewline,if_neg]
  intro last
  exact unbroken (mem_of_getLast? last)

theorem withoutFinalNewline_append (l : Text) : withoutFinalNewline (l ++ ['\n']) = l := by
  rw [withoutFinalNewline,if_pos getLast?_concat,dropLast_concat]

variable {side : LineDiffSide}

theorem comparisonKeys_cases (side : LineDiffSide) :
    ((side.missingFinalNewline = false ∨ side.lines = []) ∧ comparisonKeys side = side.lines) ∨
      ∃ ls last, side.missingFinalNewline = true ∧ side.lines = ls ++ [last] ∧
        comparisonKeys side = ls ++ [last ++ ['\n']] := by
  unfold comparisonKeys
  split
  next last gone hit =>
    obtain ⟨ls,same⟩ := getLast?_eq_some_iff.mp hit
    exact .inr ⟨ls,last,gone,same,by rw [same,dropLast_concat]⟩
  next other =>
    refine .inl ⟨?_,rfl⟩
    cases gone : side.missingFinalNewline with
    | false => exact .inl rfl
    | true =>
      cases last : side.lines.getLast? with
      | none => exact .inr (getLast?_eq_none_iff.mp last)
      | some l => exact absurd last (other l gone)

theorem length_comparisonKeys (side : LineDiffSide) : (comparisonKeys side).length = side.lines.length := by
  obtain ⟨_,same⟩ | ⟨ls,last,_,split,keys⟩ := comparisonKeys_cases side
  · rw [same]
  · simp [split,keys]

theorem map_comparisonKeys (unbroken : Unbroken side) : (comparisonKeys side).map withoutFinalNewline = side.lines := by
  have plain (ls : List Text) (inside : ∀ l ∈ ls, l ∈ side.lines) :
      ls.map withoutFinalNewline = ls := by
    have same : ls.map withoutFinalNewline = ls.map id := by
      apply map_congr_left
      intro l mem
      exact withoutFinalNewline_of_unbroken (unbroken l (inside l mem))
    rw [same,map_id]
  obtain ⟨_,same⟩ | ⟨ls,last,_,split,keys⟩ := comparisonKeys_cases side
  · rw [same]
    exact plain _ fun l mem => mem
  · rw [keys,split,map_append,plain ls fun l mem => by simp [split,mem]]
    simp [withoutFinalNewline_append]

theorem keyMarked_iff (unbroken : Unbroken side) {start tail : List Text} {key : Text}
    (keys : comparisonKeys side = start ++ key :: tail) : keyMarked key = true ↔
      start.length + 1 = side.lines.length ∧ side.missingFinalNewline = true := by
  have length := length_comparisonKeys side
  rw [keys,length_append,length_cons] at length
  obtain ⟨plain,same⟩ | ⟨ls,last,gone,split,marked⟩ := comparisonKeys_cases side
  · have mem : key ∈ side.lines := by rw [← same,keys]; simp
    have unmarked := keyMarked_of_unbroken (unbroken key mem)
    rcases plain with plain | empty
    · simp [unmarked,plain]
    · rw [empty] at mem
      simp at mem
  · rw [keys] at marked
    by_cases behind : tail = []
    · subst behind
      obtain ⟨rfl,single⟩ := append_inj' marked rfl
      obtain rfl : key = last ++ ['\n'] := by simpa using single
      simp [keyMarked,gone,← length]
    · have pos : start.length + 1 ≠ side.lines.length := by
        have some_tail := length_pos_iff.mpr behind
        omega
      have inside : key ∈ ls := by
        have front : start ++ [key] <+: ls := by
          have whole : start ++ [key] <+: ls ++ [last ++ ['\n']] := ⟨tail,by simpa using marked⟩
          apply prefix_of_prefix_length_le whole
          · exact prefix_append _ _
          · have whole := congrArg List.length marked
            have some_tail := length_pos_iff.mpr behind
            simp only [length_append,length_cons,length_nil] at whole ⊢
            omega
        exact front.subset (by simp)
      have unmarked := keyMarked_of_unbroken (unbroken key (by simp [split,inside]))
      simp [unmarked,pos]

theorem sideLines_eq (unbroken : Unbroken side) (marker : Char) {start middle tail : List Text}
    (keys : comparisonKeys side = start ++ middle ++ tail) :
    sideLines side start.length (start.length + middle.length) marker = middle.flatMap (keyLines marker) := by
  rw [sideLines,Nat.add_sub_cancel_left]
  induction middle generalizing start with
  | nil => rfl
  | cons key middle ih =>
    have here : comparisonKeys side = start ++ key :: (middle ++ tail) := by simpa using keys
    have l : side.lines[start.length]? = some (withoutFinalNewline key) := by
      rw [← map_comparisonKeys unbroken,here]
      simp
    have marked : keyMarked key = decide (start.length + 1 = side.lines.length ∧ side.missingFinalNewline = true) := by
      rw [Bool.eq_iff_iff,keyMarked_iff unbroken here,decide_eq_true_iff]
    have first : sideLine side marker start.length = keyLines marker key := by
      rw [sideLine,keyLines,getD_eq_getElem?_getD,l,marked]
      simp
    have shifted : comparisonKeys side = (start ++ [key]) ++ middle ++ tail := by simpa using keys
    have rest := ih shifted
    rw [length_append,length_singleton] at rest
    rw [length_cons,range'_succ,flatMap_cons,flatMap_cons,first,rest]

end Keys

section Bodies

abbrev Body := List (LineEdit × Text)

def moveMarker : LineEdit → Char
  | .keep => ' '
  | .remove => '-'
  | .add => '+'

variable (body : Body)

def bodyLines : List Text :=
  body.flatMap fun piece => keyLines (moveMarker piece.1) piece.2

def oldKeys : List Text := (body.filter fun piece => piece.1 != .add).map Prod.snd

def newKeys : List Text := (body.filter fun piece => piece.1 != .remove).map Prod.snd

def moving (move : LineEdit) (keys : List Text) : Body := keys.map (move,·)

variable (first second : Body) (keys : List Text)

@[simp] theorem bodyLines_append : bodyLines (first ++ second) = bodyLines first ++ bodyLines second :=
  flatMap_append

@[simp] theorem oldKeys_append : oldKeys (first ++ second) = oldKeys first ++ oldKeys second := by
  simp [oldKeys]

@[simp] theorem newKeys_append : newKeys (first ++ second) = newKeys first ++ newKeys second := by
  simp [newKeys]

theorem bodyLines_moving (move : LineEdit) :
    bodyLines (moving move keys) = keys.flatMap (keyLines (moveMarker move)) := by
  simp [bodyLines,moving,flatMap_map]

@[simp] theorem oldKeys_keep : oldKeys (moving .keep keys) = keys := by
  simp [oldKeys,moving,filter_map,Function.comp_def]

@[simp] theorem oldKeys_remove : oldKeys (moving .remove keys) = keys := by
  simp [oldKeys,moving,filter_map,Function.comp_def]

@[simp] theorem oldKeys_add : oldKeys (moving .add keys) = [] := by
  simp [oldKeys,moving]

@[simp] theorem newKeys_keep : newKeys (moving .keep keys) = keys := by
  simp [newKeys,moving,filter_map,Function.comp_def]

@[simp] theorem newKeys_remove : newKeys (moving .remove keys) = [] := by
  simp [newKeys,moving]

@[simp] theorem newKeys_add : newKeys (moving .add keys) = keys := by
  simp [newKeys,moving,filter_map,Function.comp_def]

/-- The hunk of a body at a position of each side; an empty side is placed behind the line
before it. -/
def hunkOf (i j : Nat) (body : Body) : PatchHunk where
  oldStart := if (oldKeys body).length = 0 then i else i + 1
  oldLines := (oldKeys body).length
  newStart := if (newKeys body).length = 0 then j else j + 1
  newLines := (newKeys body).length
  lines := bodyLines body

def Plain : Prop := ∀ piece ∈ body, '\n' ∉ withoutFinalNewline piece.2

theorem hunkBody_bodyLines : HunkBody (bodyLines body) := by
  induction body using reverseRecOn with
  | nil => exact .nil
  | append_singleton body piece ih =>
    have isBody : isHunkBodyLine (moveMarker piece.1 :: withoutFinalNewline piece.2) = true := by
      cases piece.1 <;> rfl
    have l := ih.body isBody
    have rendered : bodyLines [piece] = keyLines (moveMarker piece.1) piece.2 := by simp [bodyLines]
    rw [bodyLines_append,rendered,keyLines]
    split
    · have marked := HunkBody.marker l isBody (rfl : isMarked '\\' noNewlineMarker = true)
      simpa using marked
    · exact l

theorem countP_keyLines {side : Text → Bool} (unmarked : side noNewlineMarker = false) (marker : Char) (key : Text) :
    (keyLines marker key).countP side = (side (marker :: withoutFinalNewline key)).toNat := by
  rw [keyLines,countP_cons]
  split
  · cases side (marker :: withoutFinalNewline key) <;> simp [unmarked]
  · cases side (marker :: withoutFinalNewline key) <;> simp

theorem countP_bodyLines : (bodyLines body).countP onOldSide = (oldKeys body).length ∧
      (bodyLines body).countP onNewSide = (newKeys body).length := by
  induction body with
  | nil => exact ⟨rfl,rfl⟩
  | cons piece body ih =>
    obtain ⟨move,key⟩ := piece
    have split : bodyLines ((move,key) :: body) = keyLines (moveMarker move) key ++ bodyLines body := rfl
    have old := countP_keyLines (rfl : onOldSide noNewlineMarker = false) (moveMarker move) key
    have new := countP_keyLines (rfl : onNewSide noNewlineMarker = false) (moveMarker move) key
    rw [split,countP_append,countP_append,ih.1,ih.2,old,new]
    cases move <;> simp [oldKeys,newKeys,moveMarker,onOldSide,onNewSide,isMarked,Nat.add_comm]

theorem hunkOf_wellFormed {i j : Nat} {body : Body} (plain : Plain body)
    (oldSafe : i + (oldKeys body).length ≤ maxSafeInteger)
    (newSafe : j + (newKeys body).length ≤ maxSafeInteger) : (hunkOf i j body).WellFormed := by
  refine ⟨hunkBody_bodyLines body,(countP_bodyLines body).1,(countP_bodyLines body).2,?_,?_⟩
  · simp only [hunkOf]
    refine ⟨?_,by omega,?_,by omega⟩
    · split <;> omega
    · split <;> omega
  · intro l mem
    obtain ⟨piece,inside,mem⟩ := mem_flatMap.mp mem
    have noBreak := plain piece inside
    have noMarker : '\n' ≠ moveMarker piece.1 := by cases piece.1 <;> decide
    have plainMarker : '\n' ∉ noNewlineMarker := by decide
    rw [keyLines] at mem
    split at mem
    · obtain rfl | rfl := (by simpa using mem : l = _ ∨ l = noNewlineMarker)
      · simp [noBreak,noMarker]
      · exact plainMarker
    · obtain rfl := (by simpa using mem : l = _)
      simp [noBreak,noMarker]

end Bodies

section Groups

/-- Hunks that turn the keys of one side from an index on into those of the other. A hunk without
lines of a side stands at the front of that side. -/
inductive Hunked : Nat → Nat → List Text → List Text → List PatchHunk → Prop where
  | done (i j : Nat) (tail : List Text) : Hunked i j tail tail []
  | hunk {i j p q : Nat} {oldRest newRest : List Text} {hunks : List PatchHunk} (gap : List Text)
      (body : Body) (oldPlace : p = i + gap.length) (newPlace : q = j + gap.length)
      (oldFront : oldKeys body ≠ [] ∨ p = 0) (newFront : newKeys body ≠ [] ∨ q = 0)
      (rest : Hunked (p + (oldKeys body).length) (q + (newKeys body).length) oldRest newRest hunks) :
      Hunked i j (gap ++ oldKeys body ++ oldRest) (gap ++ newKeys body ++ newRest) (hunkOf p q body :: hunks)

variable {block : LineChangeBlock} {blocks : List LineChangeBlock} {old new gap : List Text}
  {hunks : List PatchHunk} {i j : Nat}

theorem Hunked.skip (gap : List Text)
    (hunked : Hunked (i + gap.length) (j + gap.length) old new hunks) :
    Hunked i j (gap ++ old) (gap ++ new) hunks := by
  cases hunked with
  | done => exact .done i j _
  | hunk more body oldPlace newPlace oldFront newFront rest =>
    have moved := Hunked.hunk (i := i) (j := j) (gap ++ more) body (by rw [oldPlace,length_append,Nat.add_assoc])
      (by rw [newPlace,length_append,Nat.add_assoc]) oldFront newFront rest
    simpa only [append_assoc] using moved

/-- A group whose trailing context is still open, with the keys that its blocks have covered. -/
structure OpenGroup (before after : LineDiffSide) (current : HunkGroup) (oldStart newStart : List Text)
    (body : Body) (oldRest newRest : List Text) : Prop where
  old : comparisonKeys before = oldStart ++ oldKeys body ++ oldRest
  new : comparisonKeys after = newStart ++ newKeys body ++ newRest
  first : ∃ first, current.blocks.head? = some first ∧ first.oldStart = oldStart.length + current.leading ∧
    first.newStart = newStart.length + current.leading
  last : ∃ last, current.blocks.getLast? = some last ∧ last.oldEnd = oldStart.length + (oldKeys body).length ∧
    last.newEnd = newStart.length + (newKeys body).length
  lines : ∀ oldEnd more, hunkLines before after oldEnd oldStart.length (current.blocks ++ more) = bodyLines body ++
      hunkLines before after oldEnd (oldStart.length + (oldKeys body).length) more
  oldFront : oldKeys body ≠ [] ∨ oldStart.length = 0
  newFront : newKeys body ≠ [] ∨ newStart.length = 0

variable {before after : LineDiffSide} {current : HunkGroup} {oldStart newStart : List Text}
  {body : Body} {oldRest newRest : List Text}

theorem hunkRange_eq (start count : Nat) : hunkRange start (start + count) =
    Text.numberText (if count = 0 then start else start + 1) ++ ',' :: Text.numberText count := by
  rw [hunkRange,Nat.add_sub_cancel_left]

theorem renderHunkHeader_eq (h : PatchHunk) : renderHunkHeader h =
    "@@ -".toList ++ (Text.numberText h.oldStart ++ ',' :: Text.numberText h.oldLines) ++
      " +".toList ++ (Text.numberText h.newStart ++ ',' :: Text.numberText h.newLines) ++
      " @@".toList := by
  unfold renderHunkHeader
  simp only [append_assoc]

theorem OpenGroup.render (unbroken : Unbroken before) (tail : List Text)
    (group : OpenGroup before after current oldStart newStart body (tail ++ oldRest) newRest) :
    renderHunk { current with trailing := tail.length } before after = UnifiedDiff.renderHunk
        (hunkOf oldStart.length newStart.length (body ++ moving .keep tail)) := by
  obtain ⟨first,firstFound,firstOld,firstNew⟩ := group.first
  obtain ⟨last,lastFound,lastOld,lastNew⟩ := group.last
  have oldEnd : last.oldEnd + tail.length = oldStart.length + (oldKeys (body ++ moving .keep tail)).length := by
    rw [lastOld,oldKeys_append,oldKeys_keep,length_append,Nat.add_assoc]
  have newEnd : last.newEnd + tail.length = newStart.length + (newKeys (body ++ moving .keep tail)).length := by
    rw [lastNew,newKeys_append,newKeys_keep,length_append,Nat.add_assoc]
  have keys : comparisonKeys before = oldStart ++ oldKeys body ++ tail ++ oldRest := by
    rw [group.old,append_assoc _ tail]
  have context := sideLines_eq unbroken ' ' keys
  rw [length_append,← lastOld] at context
  have ls := group.lines (last.oldEnd + tail.length) []
  rw [append_nil,hunkLines,← lastOld,context] at ls
  have body : bodyLines (body ++ moving .keep tail) =
      hunkLines before after (last.oldEnd + tail.length) oldStart.length current.blocks := by
    rw [bodyLines_append,bodyLines_moving,ls]
    rfl
  unfold renderHunk
  simp only [firstFound,lastFound,firstOld,firstNew,Nat.add_sub_cancel]
  rw [← body,oldEnd,newEnd,hunkRange_eq,hunkRange_eq]
  rw [UnifiedDiff.renderHunk,renderHunkHeader_eq]
  rfl

def blockBody (gap old new : List Text) : Body :=
  moving .keep gap ++ moving .remove old ++ moving .add new

@[simp] theorem oldKeys_blockBody (gap old new : List Text) :
    oldKeys (blockBody gap old new) = gap ++ old := by simp [blockBody]

@[simp] theorem newKeys_blockBody (gap old new : List Text) :
    newKeys (blockBody gap old new) = gap ++ new := by simp [blockBody]

theorem hunkLines_block (oldUnbroken : Unbroken before) (newUnbroken : Unbroken after) {oldFront newFront : List Text} (oldEnd : Nat)
    (more : List LineChangeBlock)
    (oldSplit : comparisonKeys before = oldFront ++ (gap ++ old ++ oldRest))
    (newSplit : comparisonKeys after = newFront ++ (gap ++ new ++ newRest))
    (oldStarts : block.oldStart = oldFront.length + gap.length)
    (oldEnds : block.oldEnd = block.oldStart + old.length)
    (newStarts : block.newStart = newFront.length + gap.length)
    (newEnds : block.newEnd = block.newStart + new.length) :
    hunkLines before after oldEnd oldFront.length (block :: more) =
      bodyLines (blockBody gap old new) ++ hunkLines before after oldEnd block.oldEnd more := by
  have keptKeys : comparisonKeys before = oldFront ++ gap ++ (old ++ oldRest) := by
    rw [oldSplit]
    simp only [append_assoc]
  have removedKeys : comparisonKeys before = oldFront ++ gap ++ old ++ oldRest := by
    rw [oldSplit]
    simp only [append_assoc]
  have addedKeys : comparisonKeys after = newFront ++ gap ++ new ++ newRest := by
    rw [newSplit]
    simp only [append_assoc]
  have kept := sideLines_eq oldUnbroken ' ' keptKeys
  have removed := sideLines_eq oldUnbroken '-' removedKeys
  have added := sideLines_eq newUnbroken '+' addedKeys
  rw [← oldStarts] at kept
  rw [length_append,← oldStarts,← oldEnds] at removed
  rw [length_append,← newStarts,← newEnds] at added
  rw [hunkLines,kept,removed,added,blockBody,bodyLines_append,bodyLines_append,bodyLines_moving,
    bodyLines_moving,bodyLines_moving]
  rfl

theorem OpenGroup.join (oldUnbroken : Unbroken before) (newUnbroken : Unbroken after)
    (group : OpenGroup before after current oldStart newStart body (gap ++ old ++ oldRest) (gap ++ new ++ newRest))
    (oldStarts : block.oldStart = oldStart.length + (oldKeys body).length + gap.length)
    (oldEnds : block.oldEnd = block.oldStart + old.length)
    (newStarts : block.newStart = newStart.length + (newKeys body).length + gap.length)
    (newEnds : block.newEnd = block.newStart + new.length) :
    OpenGroup before after { current with blocks := current.blocks ++ [block] } oldStart newStart
      (body ++ blockBody gap old new) oldRest newRest := by
  obtain ⟨first,firstFound,firstPlace⟩ := group.first
  have oldEnd : block.oldEnd = oldStart.length + (oldKeys (body ++ blockBody gap old new)).length := by
    simp only [oldKeys_append,oldKeys_blockBody,length_append]
    omega
  have newEnd : block.newEnd = newStart.length + (newKeys (body ++ blockBody gap old new)).length := by
    simp only [newKeys_append,newKeys_blockBody,length_append]
    omega
  refine ⟨?_,?_,⟨first,?_,firstPlace⟩,⟨block,getLast?_concat,oldEnd,newEnd⟩,?_,?_,?_⟩
  · rw [group.old]
    simp
  · rw [group.new]
    simp
  · rw [head?_append,firstFound]
    rfl
  · intro last more
    have opened := group.lines last (block :: more)
    have next := hunkLines_block oldUnbroken newUnbroken last more group.old group.new
      (by rw [length_append,oldStarts]) oldEnds (by rw [length_append,newStarts]) newEnds
    rw [length_append] at next
    rw [append_assoc,singleton_append,opened,next,← oldEnd,bodyLines_append,append_assoc]
  · exact group.oldFront.imp_left fun some_key => by simp [some_key]
  · exact group.newFront.imp_left fun some_key => by simp [some_key]

theorem OpenGroup.start (oldUnbroken : Unbroken before) (newUnbroken : Unbroken after)
    (oldSplit : comparisonKeys before = oldStart ++ (gap ++ old ++ oldRest))
    (newSplit : comparisonKeys after = newStart ++ (gap ++ new ++ newRest))
    (oldStarts : block.oldStart = oldStart.length + gap.length)
    (oldEnds : block.oldEnd = block.oldStart + old.length)
    (newStarts : block.newStart = newStart.length + gap.length)
    (newEnds : block.newEnd = block.newStart + new.length)
    (front : gap ≠ [] ∨ (oldStart.length = 0 ∧ newStart.length = 0)) :
    OpenGroup before after ⟨[block],gap.length,0⟩ oldStart newStart (blockBody gap old new) oldRest
      newRest := by
  have oldEnd : block.oldEnd = oldStart.length + (oldKeys (blockBody gap old new)).length := by
    simp only [oldKeys_blockBody,length_append]
    omega
  have newEnd : block.newEnd = newStart.length + (newKeys (blockBody gap old new)).length := by
    simp only [newKeys_blockBody,length_append]
    omega
  refine ⟨?_,?_,⟨block,rfl,oldStarts,newStarts⟩,⟨block,rfl,oldEnd,newEnd⟩,?_,?_,?_⟩
  · rw [oldSplit]
    simp
  · rw [newSplit]
    simp
  · intro last more
    rw [← oldEnd]
    exact hunkLines_block oldUnbroken newUnbroken last more oldSplit newSplit oldStarts oldEnds newStarts newEnds
  · rcases front with some_key | ⟨atFront,_⟩
    · exact .inl (by simp [some_key])
    · exact .inr atFront
  · rcases front with some_key | ⟨_,atFront⟩
    · exact .inl (by simp [some_key])
    · exact .inr atFront

theorem OpenGroup.close (tail : List Text)
    (group : OpenGroup before after current oldStart newStart body (tail ++ oldRest) (tail ++ newRest))
    (rest : Hunked (oldStart.length + (oldKeys body).length + tail.length)
      (newStart.length + (newKeys body).length + tail.length) oldRest newRest hunks) :
    Hunked oldStart.length newStart.length (oldKeys body ++ (tail ++ oldRest)) (newKeys body ++ (tail ++ newRest))
      (hunkOf oldStart.length newStart.length (body ++ moving .keep tail) :: hunks) := by
  have behind : Hunked (oldStart.length + (oldKeys (body ++ moving .keep tail)).length)
      (newStart.length + (newKeys (body ++ moving .keep tail)).length) oldRest newRest hunks := by
    simpa [Nat.add_assoc] using rest
  have h := Hunked.hunk (i := oldStart.length) (j := newStart.length) [] _ rfl rfl
    (group.oldFront.imp_left fun some_key => by simp [some_key])
    (group.newFront.imp_left fun some_key => by simp [some_key]) behind
  simpa using h

theorem exists_far_gap (far : ¬ gap.length ≤ 2 * contextLines) :
    ∃ closing middle lead, gap = closing ++ middle ++ lead ∧ closing.length = contextLines ∧
      lead.length = contextLines := by
  refine ⟨gap.take contextLines,(gap.take (gap.length - contextLines)).drop contextLines,
    gap.drop (gap.length - contextLines),?_,?_,?_⟩
  · have front : gap.take contextLines = (gap.take (gap.length - contextLines)).take contextLines := by
      rw [take_take,Nat.min_eq_left (by omega)]
    rw [front,take_append_drop,take_append_drop]
  · rw [length_take]
    omega
  · rw [length_drop]
    omega

theorem groupsFrom_hunked (oldUnbroken : Unbroken before) (newUnbroken : Unbroken after) (replaces : Replaces i j oldRest newRest blocks)
    (group : OpenGroup before after current oldStart newStart body oldRest newRest)
    (oldPlace : i = oldStart.length + (oldKeys body).length)
    (newPlace : j = newStart.length + (newKeys body).length) :
    ∃ hunks, Hunked oldStart.length newStart.length (oldKeys body ++ oldRest) (newKeys body ++ newRest) hunks ∧
      (groupsFrom before.lines.length current i blocks).flatMap
        (fun group => renderHunk group before after) = hunks.flatMap UnifiedDiff.renderHunk := by
  induction replaces generalizing current oldStart newStart body with
  | done i j tail =>
    have length : before.lines.length - i = tail.length := by
      rw [← length_comparisonKeys,group.old,length_append,length_append,oldPlace]
      exact Nat.add_sub_cancel_left _ _
    have size : (tail.take contextLines).length = min contextLines (before.lines.length - i) := by
      rw [length_take,length]
    rw [← take_append_drop contextLines tail] at group ⊢
    refine ⟨_,group.close _ (.done _ _ _),?_⟩
    rw [groupsFrom,← size,flatMap_singleton,flatMap_singleton]
    exact group.render oldUnbroken _
  | @block i j oldRest newRest block blocks gap old new some_line oldStarts oldEnds newStarts newEnds rest ih =>
    have gapLength : block.oldStart - i = gap.length := by omega
    rw [groupsFrom,gapLength]
    split
    next near =>
      have joined := group.join oldUnbroken newUnbroken (by omega) oldEnds (by omega) newEnds
      obtain ⟨hunks,hunked,rendered⟩ := ih joined (by simp only [oldKeys_append,oldKeys_blockBody,length_append]; omega)
        (by simp only [newKeys_append,newKeys_blockBody,length_append]; omega)
      refine ⟨hunks,?_,rendered⟩
      simpa using hunked
    next far =>
      obtain ⟨closing,middle,lead,rfl,closingLength,leadLength⟩ := exists_far_gap far
      have minimum : min contextLines (closing ++ middle ++ lead).length = lead.length := by
        rw [leadLength]
        exact Nat.min_eq_left (by simp only [contextLines] at far ⊢; omega)
      simp only [length_append] at oldStarts newStarts
      have closed : OpenGroup before after current oldStart newStart body
          (closing ++ (middle ++ (lead ++ old ++ oldRest)))
          (closing ++ (middle ++ (lead ++ new ++ newRest))) := by
        simpa only [append_assoc] using group
      have opened : OpenGroup before after ⟨[block],lead.length,0⟩ (oldStart ++ oldKeys body ++ closing ++ middle)
          (newStart ++ newKeys body ++ closing ++ middle) (blockBody lead old new) oldRest newRest := by
        refine .start oldUnbroken newUnbroken ?_ ?_ ?_ oldEnds ?_ newEnds (.inl ?_)
        · rw [group.old]
          simp only [append_assoc]
        · rw [group.new]
          simp only [append_assoc]
        · simp only [length_append]
          omega
        · simp only [length_append]
          omega
        · exact ne_nil_of_length_pos (by simp [leadLength,contextLines])
      obtain ⟨hunks,hunked,rendered⟩ := ih opened (by simp only [oldKeys_blockBody,length_append]; omega)
        (by simp only [newKeys_blockBody,length_append]; omega)
      simp only [oldKeys_blockBody,newKeys_blockBody,length_append] at hunked
      have behind := closed.close closing (hunked.skip middle)
      refine ⟨_,by simpa only [append_assoc] using behind,?_⟩
      rw [minimum,flatMap_cons,flatMap_cons,rendered,← closingLength]
      congr 1
      exact closed.render oldUnbroken closing

theorem unifiedDiffHunks_hunked (oldUnbroken : Unbroken before) (newUnbroken : Unbroken after)
    (replaces : Replaces 0 0 (comparisonKeys before) (comparisonKeys after) blocks) :
    ∃ hunks, Hunked 0 0 (comparisonKeys before) (comparisonKeys after) hunks ∧
      unifiedDiffHunks before after blocks = hunks.flatMap UnifiedDiff.renderHunk := by
  generalize oldWhole : comparisonKeys before = a at replaces ⊢
  generalize newWhole : comparisonKeys after = b at replaces ⊢
  cases replaces with
  | done => exact ⟨[],.done 0 0 _,rfl⟩
  | @block _ _ oldRest newRest block blocks gap old new some_line oldStarts oldEnds newStarts newEnds rest =>
    rw [Nat.zero_add] at oldStarts newStarts
    let lead := gap.drop (gap.length - contextLines)
    let skipped := gap.take (gap.length - contextLines)
    have split : gap = skipped ++ lead := (take_append_drop _ _).symm
    have leadLength : lead.length = min contextLines block.oldStart := by
      rw [length_drop,oldStarts]
      omega
    have lengths := congrArg length split
    rw [length_append] at lengths
    have opened : OpenGroup before after ⟨[block],lead.length,0⟩ skipped skipped
        (blockBody lead old new) oldRest newRest := by
      refine .start oldUnbroken newUnbroken ?_ ?_ (by omega) oldEnds (by omega) newEnds ?_
      · rw [oldWhole]
        nth_rewrite 1 [split]
        simp only [append_assoc]
      · rw [newWhole]
        nth_rewrite 1 [split]
        simp only [append_assoc]
      · by_cases front : lead = []
        · have none_skipped : skipped.length = 0 := by
            have none_left := congrArg length front
            rw [length_take]
            rw [length_drop,length_nil] at none_left
            simp only [contextLines] at none_left ⊢
            omega
          exact .inr ⟨none_skipped,none_skipped⟩
        · exact .inl front
    obtain ⟨hunks,hunked,rendered⟩ := groupsFrom_hunked oldUnbroken newUnbroken rest opened
      (by simp only [oldKeys_blockBody,length_append]; omega)
      (by simp only [newKeys_blockBody,length_append]; omega)
    rw [oldKeys_blockBody,newKeys_blockBody] at hunked
    have whole := Hunked.skip (i := 0) (j := 0) skipped (by simpa using hunked)
    refine ⟨hunks,?_,?_⟩
    · rw [split]
      simpa only [append_assoc] using whole
    · rw [unifiedDiffHunks,hunkGroups,← leadLength]
      exact rendered

end Groups

end Keiko.LineDiff
