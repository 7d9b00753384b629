import Keiko.LineDiffHunks
import Keiko.PatchContent

/-! Applying the hunks of a line diff. A body is applied key by key: the keys of the old side are
those that the file shows at its place, the keys of the new side are what is produced, and the
marker of a key is where the file on either side ends. -/
namespace Keiko.LineDiff
open Keiko.Library Keiko.UnifiedDiff Keiko.Patch List Option

section Sides

theorem splitLines_concat (t : Text) : Text.splitLines (t ++ ['\n']) = Text.splitLines t ++ [[]] := by
  induction t with
  | nil => rfl
  | cons c t ih =>
    simp only [Text.splitLines] at ih ⊢
    rw [cons_append,splitOn_cons_eq_if_modifyHead,splitOn_cons_eq_if_modifyHead,ih]
    split
    · rfl
    · cases lines : t.splitOn '\n' with
      | nil => exact absurd lines (splitOn_ne_nil _ _)
      | cons a rest => rfl

theorem joinLines_concat_nil {ls : List Text} (some_line : ls ≠ []) :
    Text.joinLines (ls ++ [[]]) = Text.joinLines ls ++ ['\n'] := by
  induction ls with
  | nil => contradiction
  | cons l ls ih =>
    cases ls with
    | nil => simp [Text.joinLines]
    | cons b ls =>
      rw [cons_append,Text.joinLines_cons l (by simp),ih (by simp),Text.joinLines_cons l (by simp)]
      simp

theorem lineDiffSide_cases (t : Text) : (t = [] ∧ lineDiffSide t = ⟨[],false⟩) ∨
      (∃ front, t = front ++ ['\n'] ∧ lineDiffSide t = ⟨Text.splitLines front,false⟩) ∨
      (t ≠ [] ∧ t.getLast? ≠ some '\n' ∧ lineDiffSide t = ⟨Text.splitLines t,true⟩) := by
  by_cases empty : t = []
  · exact .inl ⟨empty,by rw [empty]; rfl⟩
  · by_cases last : t.getLast? = some '\n'
    · obtain ⟨front,rfl⟩ := getLast?_eq_some_iff.mp last
      refine .inr (.inl ⟨front,rfl,?_⟩)
      simp [lineDiffSide,withoutFinalNewline]
    · refine .inr (.inr ⟨empty,last,?_⟩)
      simp [lineDiffSide,withoutFinalNewline,empty,last]

theorem unbroken_lineDiffSide (t : Text) : Unbroken (lineDiffSide t) := by
  obtain ⟨_,side⟩ | ⟨front,_,side⟩ | ⟨_,_,side⟩ := lineDiffSide_cases t
  · simp [Unbroken,side]
  · rw [Unbroken,side]
    exact Text.splitLines_unbroken front
  · rw [Unbroken,side]
    exact Text.splitLines_unbroken t

def originalOf (side : LineDiffSide) : Original := ⟨side.lines,side.missingFinalNewline⟩

theorem toOriginal_eq (t : Text) : toOriginal t = originalOf (lineDiffSide t) := by
  obtain ⟨empty,side⟩ | ⟨front,rfl,side⟩ | ⟨some_char,last,side⟩ := lineDiffSide_cases t
  · rw [side,toOriginal,if_pos empty]
    rfl
  · rw [side,toOriginal,if_neg (by simp),splitLines_concat]
    simp [originalOf]
  · have notBroken : (Text.splitLines t).getLast? ≠ some [] := by
      intro ends
      obtain ⟨ls,split⟩ := getLast?_eq_some_iff.mp ends
      have whole := Text.joinLines_splitLines t
      rw [split] at whole
      by_cases single : ls = []
      · rw [single] at whole
        exact some_char whole.symm
      · rw [joinLines_concat_nil single] at whole
        exact last (by rw [← whole,getLast?_concat])
    rw [side,toOriginal,if_neg some_char]
    simp only [notBroken,if_false]
    rfl

theorem render_lineDiffSide (t : Text) :
    render (lineDiffSide t).lines (lineDiffSide t).missingFinalNewline = t := by
  obtain ⟨empty,side⟩ | ⟨front,rfl,side⟩ | ⟨_,_,side⟩ := lineDiffSide_cases t
  · rw [side,empty]
    rfl
  · rw [side,render,if_neg (Text.splitLines_ne_nil front)]
    simp
  · rw [side,render,if_neg (Text.splitLines_ne_nil t)]
    simp

theorem missing_lineDiffSide (t : Text) : (lineDiffSide t).missingFinalNewline =
    (comparisonKeys (lineDiffSide t)).getLast?.any keyMarked := by
  obtain ⟨plain,same⟩ | ⟨ls,last,gone,_,keys⟩ := comparisonKeys_cases (lineDiffSide t)
  · have noneMissing : (lineDiffSide t).missingFinalNewline = false := by
      rcases plain with noneMissing | empty
      · exact noneMissing
      · obtain ⟨_,side⟩ | ⟨front,_,side⟩ | ⟨_,_,side⟩ := lineDiffSide_cases t
        · rw [side]
        · rw [side]
        · rw [side] at empty
          exact absurd empty (Text.splitLines_ne_nil t)
    rw [noneMissing,same]
    cases last : (lineDiffSide t).lines.getLast? with
    | none => rfl
    | some l =>
      have unbroken := unbroken_lineDiffSide t l (mem_of_getLast? last)
      rw [any_some,keyMarked_of_unbroken unbroken]
  · rw [gone,keys,getLast?_concat,any_some,keyMarked,getLast?_concat]
    rfl

end Sides

section Bodies

/-- What is produced from keys: their lines, and the place of the last one when it is marked. -/
def producedOf (keys : List Text) : Produced where
  lines := keys.map withoutFinalNewline
  markedAt := if keys.getLast?.any keyMarked then some (keys.length - 1) else none

def MarkedLast (keys : List Text) : Prop := ∀ key ∈ keys.dropLast, keyMarked key = false

theorem markedLast_comparisonKeys {side : LineDiffSide} (unbroken : Unbroken side) :
    MarkedLast (comparisonKeys side) := by
  intro key mem
  obtain ⟨_,same⟩ | ⟨ls,last,_,split,keys⟩ := comparisonKeys_cases side
  · rw [same] at mem
    exact keyMarked_of_unbroken (unbroken key ((dropLast_sublist _).subset mem))
  · rw [keys,dropLast_concat] at mem
    exact keyMarked_of_unbroken (unbroken key (by simp [split,mem]))

theorem MarkedLast.start {a b : List Text} (marked : MarkedLast (a ++ b))
    (some_key : b ≠ []) : ∀ key ∈ a, keyMarked key = false := by
  intro key mem
  apply marked
  rw [dropLast_append_of_ne_nil some_key]
  exact mem_append_left _ mem

theorem MarkedLast.left {a b : List Text} (marked : MarkedLast (a ++ b)) : MarkedLast a := by
  intro key mem
  by_cases none_left : b = []
  · rw [none_left,append_nil] at marked
    exact marked key mem
  · exact marked.start none_left key ((dropLast_sublist _).subset mem)

theorem producedOf_unmarked {keys : List Text} (unmarked : ∀ key ∈ keys, keyMarked key = false) :
    producedOf keys = ⟨keys.map withoutFinalNewline,none⟩ := by
  rw [producedOf]
  cases last : keys.getLast? with
  | none => rfl
  | some key =>
    rw [any_some,unmarked key (mem_of_getLast? last)]
    rfl

theorem producedOf_concat (keys : List Text) (key : Text) : producedOf (keys ++ [key]) =
    ⟨keys.map withoutFinalNewline ++ [withoutFinalNewline key],if keyMarked key then some keys.length else none⟩ := by
  simp [producedOf]

theorem markedLineNotLast_producedOf (keys : List Text) : markedLineNotLast (producedOf keys) = .ok () := by
  rw [markedLineNotLast,if_neg]
  simp only [producedOf,length_map]
  split <;> simp

variable {original : Original} {cursor : HunkCursor}

theorem applyLine_added (t : Text) : applyLine original cursor ('+' :: t) =
    .ok { cursor with produced := cursor.produced.push t, previous := '+' :: t } := by
  simp [applyLine,isMarked]

theorem applyLine_old {marker : Char} {t : Text} (known : marker = ' ' ∨ marker = '-')
    (hit : original.lines[cursor.pos]? = some t) :
    applyLine original cursor (marker :: t) = .ok {
      pos := cursor.pos + 1
      previous := marker :: t
      produced := if marker = ' ' then cursor.produced.push t else cursor.produced } := by
  rcases known with rfl | rfl
  · simp [applyLine,isMarked,hit]
  · simp [applyLine,isMarked,hit]

theorem applyLine_marker {produced : Produced}
    (attached : applyMarker original cursor.previous cursor.pos cursor.produced = .ok produced) :
    applyLine original cursor noNewlineMarker = .ok { cursor with produced, previous := noNewlineMarker } := by
  have marked : isMarked '\\' noNewlineMarker = true := rfl
  simp only [applyLine,marked,if_true,attached]
  rfl

theorem applyMarker_new {marker : Char} {t : Text} {pos : Nat} {ls : List Text}
    (known : marker = '+' ∨ (marker = ' ' ∧ pos = original.lines.length ∧ original.missingFinalNewline = true)) :
    applyMarker original (marker :: t) pos ⟨ls,none⟩ = .ok ⟨ls,some (ls.length - 1)⟩ := by
  rcases known with rfl | ⟨rfl,atEnd,gone⟩
  · simp [applyMarker,isHunkBodyLine,isMarked,markLastProduced]
  · simp [applyMarker,isHunkBodyLine,isMarked,markLastProduced,atEnd,gone]

theorem applyMarker_removed {t : Text} {pos : Nat} {produced : Produced}
    (atEnd : pos = original.lines.length) (gone : original.missingFinalNewline = true) :
    applyMarker original ('-' :: t) pos produced = .ok produced := by
  simp [applyMarker,isHunkBodyLine,isMarked,atEnd,gone]

variable {side : LineDiffSide} {made : List Text}

theorem applyLines_key {marker : Char} {key : Text} {next last : HunkCursor}
    (l : applyLine original cursor (marker :: withoutFinalNewline key) = .ok next)
    (plain : keyMarked key = false → last = next)
    (marked : keyMarked key = true → applyLine original next noNewlineMarker = .ok last) :
    (keyLines marker key).foldlM (applyLine original) cursor = .ok last := by
  rw [keyLines,foldlM_cons,l]
  cases ends : keyMarked key with
  | false =>
    rw [plain ends]
    rfl
  | true =>
    have b := marked ends
    change (applyLine original next noNewlineMarker >>= fun cursor => pure cursor) = _
    rw [b]
    rfl

theorem applyLines_added (key prev : Text) (pos : Nat) (unmarked : ∀ key ∈ made, keyMarked key = false) :
    ∃ last, (keyLines '+' key).foldlM (applyLine original) ⟨pos,prev,producedOf made⟩ =
      .ok ⟨pos,last,producedOf (made ++ [key])⟩ := by
  refine ⟨if keyMarked key then noNewlineMarker else '+' :: withoutFinalNewline key,?_⟩
  refine applyLines_key (applyLine_added _) ?_ ?_
  · intro plain
    simp [plain,producedOf_unmarked unmarked,producedOf_concat,Produced.push]
  · intro marked
    have attached : applyMarker original ('+' :: withoutFinalNewline key) pos
        ⟨made.map withoutFinalNewline ++ [withoutFinalNewline key],none⟩ = _ :=
      applyMarker_new (.inl rfl)
    rw [producedOf_unmarked unmarked]
    rw [applyLine_marker attached]
    simp [marked,producedOf_concat]

theorem applyLines_old (unbroken : Unbroken side) {front rest : List Text} {key : Text}
    (keys : comparisonKeys side = front ++ key :: rest) (move : LineEdit) (isOld : move ≠ .add)
    (prev : Text) (unmarked : move = .keep → ∀ key ∈ made, keyMarked key = false) :
    ∃ last, (keyLines (moveMarker move) key).foldlM (applyLine (originalOf side))
      ⟨front.length,prev,producedOf made⟩ =
        .ok ⟨front.length + 1,last,producedOf (made ++ newKeys [(move,key)])⟩ := by
  have hit : (originalOf side).lines[front.length]? = some (withoutFinalNewline key) := by
    rw [originalOf,← map_comparisonKeys unbroken,keys]
    simp
  have ends := keyMarked_iff unbroken keys
  refine ⟨if keyMarked key then noNewlineMarker else moveMarker move :: withoutFinalNewline key,?_⟩
  cases move with
  | add => contradiction
  | keep =>
    have same : made ++ newKeys [(EditMove.keep,key)] = made ++ [key] := rfl
    rw [same]
    refine applyLines_key (applyLine_old (.inl rfl) hit) ?_ ?_
    · intro plain
      simp [plain,producedOf_unmarked (unmarked rfl),producedOf_concat,Produced.push,moveMarker]
    · intro marked
      obtain ⟨atEnd,gone⟩ := ends.mp marked
      have attached : applyMarker (originalOf side) (' ' :: withoutFinalNewline key)
          (front.length + 1) ⟨made.map withoutFinalNewline ++ [withoutFinalNewline key],none⟩ = _ :=
        applyMarker_new (.inr ⟨rfl,atEnd,gone⟩)
      rw [producedOf_unmarked (unmarked rfl)]
      rw [applyLine_marker attached]
      simp [marked,producedOf_concat]
  | remove =>
    have same : made ++ newKeys [(EditMove.remove,key)] = made := append_nil made
    rw [same]
    refine applyLines_key (applyLine_old (.inr rfl) hit) ?_ ?_
    · intro plain
      simp [plain,moveMarker]
    · intro marked
      obtain ⟨atEnd,gone⟩ := ends.mp marked
      have attached : applyMarker (originalOf side) ('-' :: withoutFinalNewline key)
          (front.length + 1) (producedOf made) = _ := applyMarker_removed atEnd gone
      rw [applyLine_marker]
      · simp [marked]
        rfl
      · exact attached

theorem applyLines_body (unbroken : Unbroken side) (body : Body) {front rest : List Text}
    (keys : comparisonKeys side = front ++ oldKeys body ++ rest) (prev : Text)
    (marked : MarkedLast (made ++ newKeys body)) :
    ∃ last, (bodyLines body).foldlM (applyLine (originalOf side)) ⟨front.length,prev,producedOf made⟩ =
        .ok ⟨front.length + (oldKeys body).length,last,producedOf (made ++ newKeys body)⟩ := by
  induction body generalizing front made prev with
  | nil =>
    have none_made : made ++ newKeys [] = made := append_nil made
    rw [none_made]
    exact ⟨prev,rfl⟩
  | cons piece body ih =>
    obtain ⟨move,key⟩ := piece
    have splitNew : newKeys ((move,key) :: body) = newKeys [(move,key)] ++ newKeys body :=
      newKeys_append [(move,key)] body
    have splitOld : oldKeys ((move,key) :: body) = oldKeys [(move,key)] ++ oldKeys body :=
      oldKeys_append [(move,key)] body
    have splitLines : bodyLines ((move,key) :: body) = keyLines (moveMarker move) key ++ bodyLines body := rfl
    rw [splitNew,← append_assoc] at marked
    rw [splitOld] at keys
    -- One key moves the front of the old side, unless it is added.
    have step : ∃ last, (keyLines (moveMarker move) key).foldlM (applyLine (originalOf side))
        ⟨front.length,prev,producedOf made⟩ = .ok ⟨(front ++ oldKeys [(move,key)]).length,last,
          producedOf (made ++ newKeys [(move,key)])⟩ := by
      have unmarked (some_key : newKeys [(move,key)] ≠ []) : ∀ key ∈ made, keyMarked key = false := by
        rw [append_assoc] at marked
        exact marked.start (by simp [some_key])
      cases move with
      | add =>
        obtain ⟨last,added⟩ := @applyLines_added (originalOf side) made key prev front.length
          (unmarked (by simp [newKeys]))
        exact ⟨last,by simpa [oldKeys,newKeys,moveMarker] using added⟩
      | keep =>
        have here : comparisonKeys side = front ++ key :: (oldKeys body ++ rest) := by
          simpa [oldKeys] using keys
        obtain ⟨last,kept⟩ := applyLines_old unbroken here .keep (by simp) prev
          fun _ => unmarked (by simp [newKeys])
        exact ⟨last,by simpa [oldKeys] using kept⟩
      | remove =>
        have here : comparisonKeys side = front ++ key :: (oldKeys body ++ rest) := by
          simpa [oldKeys] using keys
        obtain ⟨last,removed⟩ := applyLines_old unbroken here .remove (by simp) prev fun same => by contradiction
        exact ⟨last,by simpa [oldKeys] using removed⟩
    obtain ⟨middle,a⟩ := step
    have keysRest : comparisonKeys side = (front ++ oldKeys [(move,key)]) ++ oldKeys body ++ rest := by
      rw [keys]
      simp only [append_assoc]
    obtain ⟨last,more⟩ := ih keysRest middle marked
    refine ⟨last,?_⟩
    rw [splitLines,foldlM_append,a,splitNew,splitOld]
    change foldlM _ _ _ = _
    rw [more]
    simp [Nat.add_assoc]

theorem applyHunk_hunkOf (unbroken : Unbroken side) {i j : Nat} {body : Body}
    {front rest : List Text} (keys : comparisonKeys side = front ++ oldKeys body ++ rest)
    (marked : MarkedLast (newKeys body)) :
    applyHunk (originalOf side) (hunkOf i j body) front.length =
      .ok ⟨(newKeys body).map withoutFinalNewline,(oldKeys body).length,(newKeys body).getLast?.any keyMarked⟩ := by
  have none_made : MarkedLast ([] ++ newKeys body) := marked
  obtain ⟨last,applied⟩ := applyLines_body unbroken body keys [] none_made
  have start : producedOf [] = ⟨[],none⟩ := rfl
  rw [start,nil_append] at applied
  rw [applyHunk]
  change (bodyLines body).foldlM _ _ >>= _ = _
  rw [applied]
  change (markedLineNotLast (producedOf (newKeys body)) >>= _) = _
  rw [markedLineNotLast_producedOf]
  have gone : (producedOf (newKeys body)).markedAt.isSome = (newKeys body).getLast?.any keyMarked := by
    rw [producedOf]
    cases (newKeys body).getLast?.any keyMarked <;> rfl
  change Except.ok (HunkResult.mk _ _ _) = _
  rw [gone,Nat.add_sub_cancel_left]
  rfl

end Bodies

section Modify

/-- What the loop over the hunks has produced when it stands behind some keys of each side. -/
def modifiedTo (oldDone newDone : List Text) : ModifyState :=
  ⟨newDone.map withoutFinalNewline,[],oldDone.length,newDone.getLast?.any keyMarked⟩

theorem MarkedLast.unmarked {a b : List Text} (marked : MarkedLast (a ++ b))
    (some_key : b ≠ []) : a.getLast?.any keyMarked = false := by
  cases last : a.getLast? with
  | none => rfl
  | some key => exact marked.start some_key key (mem_of_getLast? last)

theorem getLast?_behind {a b : List Text} (behind : b ≠ [] ∨ a = []) :
    (a ++ b).getLast? = b.getLast? := by
  rcases behind with some_key | rfl
  · exact getLast?_append_of_ne_nil _ some_key
  · rfl

variable {side : LineDiffSide} {p q : Nat} {body : Body}

theorem hunkOf_anchor (oldFront : oldKeys body ≠ [] ∨ p = 0) : (hunkOf p q body).oldStart - 1 = p := by
  simp only [hunkOf,length_eq_zero_iff]
  rcases oldFront with some_key | rfl
  · rw [if_neg some_key,Nat.add_sub_cancel]
  · split <;> rfl

theorem applyModifyHunk_hunkOf (unbroken : Unbroken side) {front gap oldRest : List Text}
    {newDone newRest : List Text} (i : Nat)
    (keys : comparisonKeys side = front ++ gap ++ oldKeys body ++ oldRest)
    (marked : MarkedLast (newDone ++ gap ++ newKeys body ++ newRest))
    (place : p = (front ++ gap).length) (oldFront : oldKeys body ≠ [] ∨ p = 0)
    (newFront : newKeys body ≠ [] ∨ newDone ++ gap = []) :
    applyModifyHunk (originalOf side) (hunkOf p q body) i (modifiedTo front newDone) =
      modifiedTo (front ++ gap ++ oldKeys body) (newDone ++ gap ++ newKeys body) := by
  have ls : (originalOf side).lines = (front ++ gap ++ oldKeys body ++ oldRest).map withoutFinalNewline := by
    rw [← keys,map_comparisonKeys unbroken]
    rfl
  have between : ((originalOf side).lines.take (min p (originalOf side).lines.length)).drop
      front.length = gap.map withoutFinalNewline := by
    have short : p ≤ (originalOf side).lines.length := by
      rw [ls,place]
      simp only [length_map,length_append]
      omega
    rw [Nat.min_eq_left short,ls,append_assoc _ _ oldRest,map_append,place,
      take_left' (by simp),map_append,drop_left' (by simp)]
  have notBefore : ¬ p < (modifiedTo front newDone).cursor := by
    rw [place,length_append]
    exact Nat.not_lt.mpr (Nat.le_add_right _ _)
  have body_marked : MarkedLast (newKeys body) := by
    intro key mem
    apply marked.left key
    by_cases some_key : newKeys body = []
    · simp [some_key] at mem
    · rw [dropLast_append_of_ne_nil some_key]
      exact mem_append_right _ mem
  have applied := @applyHunk_hunkOf side unbroken p q body (front ++ gap) oldRest keys body_marked
  rw [← place] at applied
  have unmarked : (modifiedTo front newDone).missingFinalNewline = false := by
    change newDone.getLast?.any keyMarked = false
    rcases newFront with some_key | empty
    · rw [append_assoc,append_assoc] at marked
      exact marked.unmarked (by simp [some_key])
    · rw [(append_eq_nil_iff.mp empty).1]
      rfl
  unfold applyModifyHunk
  rw [hunkOf_anchor oldFront]
  simp only [notBefore,if_false,applied,unmarked,Bool.false_eq_true,false_and]
  simp only [modifiedTo,between]
  rw [getLast?_behind newFront,length_append,← place]
  simp only [map_append]

theorem applyModifyHunks_hunked (unbroken : Unbroken side) {i j : Nat} {old new : List Text}
    {hunks : List PatchHunk} (hunked : Hunked i j old new hunks) (index : Nat)
    {front newDone : List Text} (keys : comparisonKeys side = front ++ old)
    (marked : MarkedLast (newDone ++ new)) (oldPlace : i = front.length)
    (newPlace : j = newDone.length) :
    ∃ oldEnd newEnd tail, front ++ old = oldEnd ++ tail ∧ newDone ++ new = newEnd ++ tail ∧
      applyModifyHunks (originalOf side) index (modifiedTo front newDone) hunks = modifiedTo oldEnd newEnd := by
  induction hunked generalizing index front newDone with
  | done i j tail => exact ⟨front,newDone,tail,rfl,rfl,rfl⟩
  | @hunk i j p q oldRest newRest hunks gap body oldHunk newHunk oldFront newFront rest ih =>
    simp only [← append_assoc] at keys marked ⊢
    have first : applyModifyHunk (originalOf side) (hunkOf p q body) index (modifiedTo front newDone) =
        modifiedTo (front ++ gap ++ oldKeys body) (newDone ++ gap ++ newKeys body) := by
      refine applyModifyHunk_hunkOf unbroken index keys marked ?_ oldFront ?_
      · rw [oldHunk,oldPlace,length_append]
      · refine newFront.imp_right fun atFront => ?_
        rw [← length_eq_zero_iff,length_append]
        omega
    rw [applyModifyHunks,first]
    refine ih (index + 1) keys marked ?_ ?_
    · rw [oldHunk,oldPlace]
      simp only [length_append]
    · rw [newHunk,newPlace]
      simp only [length_append]

theorem applyModify_hunked {pre after : Text} {hunks : List PatchHunk}
    (hunked : Hunked 0 0 (comparisonKeys (lineDiffSide pre)) (comparisonKeys (lineDiffSide after))
      hunks) : applyModify (toOriginal pre) hunks = ⟨some after,[]⟩ := by
  have unbroken := unbroken_lineDiffSide pre
  have marked := markedLast_comparisonKeys (unbroken_lineDiffSide after)
  obtain ⟨oldEnd,newEnd,tail,oldSplit,newSplit,applied⟩ := @applyModifyHunks_hunked _ unbroken _ _ _ _
    _ hunked 0 [] [] rfl marked rfl rfl
  rw [nil_append] at oldSplit newSplit
  rw [newSplit] at marked
  have drop : (originalOf (lineDiffSide pre)).lines.drop oldEnd.length = tail.map withoutFinalNewline := by
    rw [originalOf,← map_comparisonKeys unbroken,oldSplit,map_append,drop_left' (length_map _)]
  have gone : (if tail ≠ [] then (lineDiffSide pre).missingFinalNewline
      else newEnd.getLast?.any keyMarked) = (lineDiffSide after).missingFinalNewline := by
    rw [missing_lineDiffSide,missing_lineDiffSide,oldSplit,newSplit]
    by_cases behind : tail = []
    · rw [if_neg (by simp [behind]),behind,append_nil]
    · rw [if_pos behind,getLast?_append_of_ne_nil _ behind,getLast?_append_of_ne_nil _ behind]
  have content : render ((newEnd ++ tail).map withoutFinalNewline)
      (lineDiffSide after).missingFinalNewline = after := by
    rw [← newSplit,map_comparisonKeys (unbroken_lineDiffSide after),render_lineDiffSide]
  have noConflict : ¬ (newEnd.getLast?.any keyMarked = true ∧ tail.map withoutFinalNewline ≠ []) := by
    intro conflict
    obtain ⟨gone,behind⟩ := conflict
    rw [marked.unmarked (by simpa using behind)] at gone
    contradiction
  have begin : (⟨[],[],0,false⟩ : ModifyState) = modifiedTo [] [] := rfl
  rw [toOriginal_eq,applyModify]
  rw [begin,applied]
  simp only [modifiedTo,drop,noConflict,if_false]
  rw [map_append] at content
  simp only [ne_eq,not_true_eq_false,if_false,map_eq_nil_iff] at gone ⊢
  rw [originalOf]
  simp only [gone,content]

end Modify

section Create

variable {made : List Text}

theorem createLines_key (key prev : Text) (unmarked : ∀ key ∈ made, keyMarked key = false) :
    ∃ last, (keyLines '+' key).foldlM createLine (prev,producedOf made) =
      .ok (last,producedOf (made ++ [key])) := by
  have a : createLine (prev,producedOf made) ('+' :: withoutFinalNewline key) =
      .ok ('+' :: withoutFinalNewline key,⟨(made ++ [key]).map withoutFinalNewline,none⟩) := by
    rw [producedOf_unmarked unmarked,map_append]
    rfl
  rw [keyLines,foldlM_cons,a]
  cases ends : keyMarked key with
  | false =>
    have produced : producedOf (made ++ [key]) = ⟨(made ++ [key]).map withoutFinalNewline,none⟩ := by
      simp [producedOf,ends]
    rw [produced]
    exact ⟨_,rfl⟩
  | true =>
    refine ⟨noNewlineMarker,?_⟩
    have produced : producedOf (made ++ [key]) = ⟨(made ++ [key]).map withoutFinalNewline,
        some (((made ++ [key]).map withoutFinalNewline).length - 1)⟩ := by
      simp [producedOf,ends]
    rw [produced]
    rfl

theorem createLines_body {body : Body} (fresh : oldKeys body = []) (prev : Text)
    (marked : MarkedLast (made ++ newKeys body)) :
    ∃ last, (bodyLines body).foldlM createLine (prev,producedOf made) =
      .ok (last,producedOf (made ++ newKeys body)) := by
  induction body generalizing made prev with
  | nil =>
    have none_made : made ++ newKeys [] = made := append_nil made
    rw [none_made]
    exact ⟨prev,rfl⟩
  | cons piece body ih =>
    obtain ⟨move,key⟩ := piece
    have splitOld : oldKeys ((move,key) :: body) = oldKeys [(move,key)] ++ oldKeys body :=
      oldKeys_append [(move,key)] body
    obtain ⟨added,behind⟩ := append_eq_nil_iff.mp (splitOld.symm.trans fresh)
    obtain rfl : move = .add := by
      cases move with
      | add => rfl
      | keep => simp [oldKeys] at added
      | remove => simp [oldKeys] at added
    have splitNew : made ++ newKeys ((.add,key) :: body) = made ++ [key] ++ newKeys body := by
      simp [newKeys]
    have splitLines : bodyLines ((.add,key) :: body) = keyLines '+' key ++ bodyLines body := rfl
    rw [splitNew] at marked
    obtain ⟨middle,a⟩ := createLines_key key prev ((append_assoc made _ _ ▸ marked).start (by simp))
    obtain ⟨last,more⟩ := ih behind middle marked
    refine ⟨last,?_⟩
    rw [splitLines,foldlM_append,a,splitNew]
    exact more

theorem createHunks_hunked {i j : Nat} {old new : List Text} {hunks : List PatchHunk}
    (hunked : Hunked i j old new hunks) (fresh : old = []) (index : Nat) (prev : Text)
    (marked : MarkedLast (made ++ new)) :
    ∃ last, createHunks index (prev,producedOf made) hunks = .ok (last,producedOf (made ++ new)) := by
  induction hunked generalizing made index prev with
  | done i j tail =>
    rw [fresh,append_nil]
    exact ⟨prev,rfl⟩
  | hunk gap body _ _ _ _ rest ih =>
    obtain ⟨front,behind⟩ := append_eq_nil_iff.mp fresh
    obtain ⟨rfl,added⟩ := append_eq_nil_iff.mp front
    rw [nil_append,← append_assoc] at marked ⊢
    obtain ⟨middle,first⟩ := createLines_body added prev marked.left
    obtain ⟨last,more⟩ := ih behind (index + 1) middle marked
    refine ⟨last,?_⟩
    have lines : ∀ p q, (hunkOf p q body).lines = bodyLines body := fun _ _ => rfl
    rw [createHunks,lines,first]
    exact more

theorem createdContent_hunked {after : Text} {hunks : List PatchHunk}
    (hunked : Hunked 0 0 [] (comparisonKeys (lineDiffSide after)) hunks) :
    createdContent hunks = ⟨some after,[]⟩ := by
  have unbroken := unbroken_lineDiffSide after
  have marked := markedLast_comparisonKeys unbroken
  obtain ⟨last,created⟩ := @createHunks_hunked [] _ _ _ _ _ hunked rfl 0 [] marked
  have gone : (producedOf (comparisonKeys (lineDiffSide after))).markedAt.isSome =
      (lineDiffSide after).missingFinalNewline := by
    rw [producedOf,missing_lineDiffSide]
    cases (comparisonKeys (lineDiffSide after)).getLast?.any keyMarked <;> rfl
  have start : (([],⟨[],none⟩) : Text × Produced) = ([],producedOf []) := rfl
  rw [createdContent,start,created,nil_append]
  simp only [markedLineNotLast_producedOf,gone]
  rw [producedOf]
  simp only [map_comparisonKeys unbroken,render_lineDiffSide]

end Create

section Delete

theorem preImage_keyLines (marker : Char) (key : Text) : ((keyLines marker key).filter onOldSide).map (List.drop 1) =
      if marker = ' ' ∨ marker = '-' then [withoutFinalNewline key] else [] := by
  have marked : onOldSide noNewlineMarker = false := rfl
  have shown : onOldSide (marker :: withoutFinalNewline key) = decide (marker = ' ' ∨ marker = '-') := by
    rw [Bool.eq_iff_iff]
    simp [onOldSide,isMarked]
  rw [keyLines,filter_cons,shown]
  split_ifs <;> simp_all

theorem preImage_bodyLines (body : Body) : ((bodyLines body).filter onOldSide).map (List.drop 1) =
      (oldKeys body).map withoutFinalNewline := by
  induction body with
  | nil => rfl
  | cons piece body ih =>
    obtain ⟨move,key⟩ := piece
    have split : bodyLines ((move,key) :: body) = keyLines (moveMarker move) key ++ bodyLines body :=
      rfl
    rw [split,filter_append,map_append,ih,preImage_keyLines]
    cases move <;> simp [oldKeys,moveMarker]

theorem preImage_hunked {i j : Nat} {old new : List Text} {hunks : List PatchHunk}
    (hunked : Hunked i j old new hunks) (none_left : new = []) :
    ((hunks.flatMap PatchHunk.lines).filter onOldSide).map (List.drop 1) = old.map withoutFinalNewline := by
  induction hunked with
  | done i j tail =>
    rw [none_left]
    rfl
  | hunk gap body _ _ _ _ rest ih =>
    obtain ⟨front,behind⟩ := append_eq_nil_iff.mp none_left
    obtain ⟨rfl,removed⟩ := append_eq_nil_iff.mp front
    have lines : ∀ p q, (hunkOf p q body).lines = bodyLines body := fun _ _ => rfl
    rw [flatMap_cons,filter_append,map_append,ih behind,lines,preImage_bodyLines,nil_append,map_append]

theorem verifyDeletePreImage_hunked {pre : Text} {c : PatchFileChange}
    (hunked : Hunked 0 0 (comparisonKeys (lineDiffSide pre)) [] c.hunks) :
    verifyDeletePreImage c pre = ⟨none,[]⟩ := by
  have ls : preImage c = (lineDiffSide pre).lines := by
    rw [preImage,preImage_hunked hunked rfl,map_comparisonKeys (unbroken_lineDiffSide pre)]
  have content : render (lineDiffSide pre).lines false = pre ∨
      render (lineDiffSide pre).lines true = pre := by
    have whole := render_lineDiffSide pre
    cases gone : (lineDiffSide pre).missingFinalNewline with
    | false => exact .inl (by rw [gone] at whole; exact whole)
    | true => exact .inr (by rw [gone] at whole; exact whole)
  rw [verifyDeletePreImage,ls]
  simp only [content,if_true]
  split <;> rfl

end Delete

end Keiko.LineDiff
