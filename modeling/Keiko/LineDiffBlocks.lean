import Keiko.LineDiffSearch

/-! The blocks of a line diff as replacements of one list of lines by another: what lies between
two blocks is common to both sides, and no block is empty. The common start and end that the
search leaves out, its script and its fallback all come down to this relation. -/
namespace Keiko.LineDiff
open Keiko.Library List

universe u v

section Replacements

variable {α : Type u} {β : Type v}

/-- Blocks that turn what one list holds from an index on into what another holds from an
index on. -/
inductive Replaces : Nat → Nat → List α → List α → List LineChangeBlock → Prop where
  | done (i j : Nat) (tail : List α) : Replaces i j tail tail []
  | block {i j : Nat} {oldRest newRest : List α} {block : LineChangeBlock}
      {blocks : List LineChangeBlock} (gap old new : List α) (some_line : old ≠ [] ∨ new ≠ [])
      (oldStart : block.oldStart = i + gap.length) (oldEnd : block.oldEnd = block.oldStart + old.length)
      (newStart : block.newStart = j + gap.length) (newEnd : block.newEnd = block.newStart + new.length)
      (rest : Replaces block.oldEnd block.newEnd oldRest newRest blocks) :
      Replaces i j (gap ++ old ++ oldRest) (gap ++ new ++ newRest) (block :: blocks)

variable {i j : Nat} {a b : List α} {blocks : List LineChangeBlock}

theorem Replaces.map (f : α → β) (replaces : Replaces i j a b blocks) : Replaces i j (a.map f) (b.map f) blocks := by
  induction replaces with
  | done i j tail => exact .done i j (tail.map f)
  | @block i j oldRest newRest block blocks gap old new some_line oldStart oldEnd newStart newEnd _ ih =>
    simp only [map_append]
    refine .block (gap.map f) (old.map f) (new.map f) ?_ ?_ ?_ ?_ ?_ ih
    · simpa using some_line
    · rw [length_map,oldStart]
    · rw [length_map,oldEnd]
    · rw [length_map,newStart]
    · rw [length_map,newEnd]

theorem Replaces.skip (gap : List α) (replaces : Replaces (i + gap.length) (j + gap.length) a b blocks) :
    Replaces i j (gap ++ a) (gap ++ b) blocks := by
  cases replaces with
  | done => exact .done i j _
  | block more old new some_line oldStart oldEnd newStart newEnd rest =>
    have moved := Replaces.block (i := i) (j := j) (gap ++ more) old new some_line
      (by rw [oldStart,length_append,Nat.add_assoc]) oldEnd
      (by rw [newStart,length_append,Nat.add_assoc]) newEnd rest
    simpa only [append_assoc] using moved

theorem Replaces.extend (replaces : Replaces i j a b blocks) (tail : List α) :
    Replaces i j (a ++ tail) (b ++ tail) blocks := by
  induction replaces with
  | done i j same => exact .done i j (same ++ tail)
  | block gap old new some_line oldStart oldEnd newStart newEnd _ ih =>
    simp only [append_assoc (gap ++ old),append_assoc (gap ++ new)]
    exact .block gap old new some_line oldStart oldEnd newStart newEnd ih

theorem Replaces.inside (replaces : Replaces i j a b blocks) : ∀ block ∈ blocks,
    i ≤ block.oldStart ∧ block.oldStart ≤ block.oldEnd ∧ block.oldEnd ≤ i + a.length ∧
      j ≤ block.newStart ∧ block.newStart ≤ block.newEnd ∧ block.newEnd ≤ j + b.length ∧
      (block.oldStart < block.oldEnd ∨ block.newStart < block.newEnd) := by
  induction replaces with
  | done => simp
  | @block i j oldRest newRest first blocks gap old new some_line oldStart oldEnd newStart newEnd _ ih =>
    have nonempty : 0 < old.length ∨ 0 < new.length := by
      simpa only [length_pos_iff] using some_line
    intro block mem
    simp only [length_append]
    rcases mem_cons.mp mem with rfl | post
    · omega
    · have further := ih block post
      omega

theorem Replaces.ordered (replaces : Replaces i j a b blocks) : blocks.Pairwise fun first second =>
      first.oldEnd ≤ second.oldStart ∧ first.newEnd ≤ second.newStart := by
  induction replaces with
  | done => exact List.Pairwise.nil
  | block gap old new some_line oldStart oldEnd newStart newEnd rest ih =>
    refine List.Pairwise.cons ?_ ih
    intro second mem
    have inside := rest.inside second mem
    exact ⟨inside.1,inside.2.2.2.1⟩

end Replacements

section Script

variable {α : Type u}

theorem blocksFrom_replaces {edits : List LineEdit} {a b : List α} (aligned : Aligned edits a b) :
    (∀ i j, Replaces i j a b (blocksFrom i j none edits)) ∧
      ∀ i j old new, (old ≠ [] ∨ new ≠ []) → Replaces i j (old ++ a) (new ++ b)
        (blocksFrom (i + old.length) (j + new.length) (some (i,j)) edits) := by
  induction aligned with
  | nil =>
    refine ⟨fun i j => .done i j [],?_⟩
    intro i j old new some_line
    exact .block [] old new some_line rfl rfl rfl rfl (.done _ _ [])
  | @keep edits a b item _ ih =>
    have kept (i j : Nat) : Replaces i j (item :: a) (item :: b) (blocksFrom (i + 1) (j + 1) none edits) :=
      Replaces.skip [item] (ih.1 (i + 1) (j + 1))
    refine ⟨kept,?_⟩
    intro i j old new some_line
    exact .block [] old new some_line rfl rfl rfl rfl (kept (i + old.length) (j + new.length))
  | @remove edits a b item _ ih =>
    refine ⟨fun i j => ih.2 i j [item] [] (.inl (by simp)),?_⟩
    intro i j old new some_line
    have more := ih.2 i j (old ++ [item]) new (.inl (by simp))
    rw [length_append,append_assoc] at more
    exact more
  | @add edits a b item _ ih =>
    refine ⟨fun i j => ih.2 i j [] [item] (.inr (by simp)),?_⟩
    intro i j old new some_line
    have more := ih.2 i j old (new ++ [item]) (.inr (by simp))
    rw [length_append,append_assoc] at more
    exact more

end Script

section Trimming

theorem commonPrefixLength_split (a b : List Text) : ∃ start aRest bRest,
    a = start ++ aRest ∧ b = start ++ bRest ∧ start.length = commonPrefixLength a b := by
  fun_induction commonPrefixLength a b with
  | case1 as l bs ih =>
    obtain ⟨start,aRest,bRest,rfl,rfl,length⟩ := ih
    exact ⟨l :: start,aRest,bRest,rfl,rfl,by simp [length]⟩
  | case2 a as b bs => exact ⟨[],a :: as,b :: bs,rfl,rfl,rfl⟩
  | case3 a b => exact ⟨[],a,b,rfl,rfl,rfl⟩

theorem trimmed (a b : List Text) : ∃ start aMiddle bMiddle tail,
    a = start ++ aMiddle ++ tail ∧ b = start ++ bMiddle ++ tail ∧ start.length = commonPrefixLength a b ∧
      tail.length = commonSuffixLength a b (commonPrefixLength a b) := by
  obtain ⟨start,aRest,bRest,aStart,bStart,length⟩ := commonPrefixLength_split a b
  let limit := min a.length b.length - start.length
  obtain ⟨back,aBack,bBack,aEnd,bEnd,backLength⟩ :=
    commonPrefixLength_split (a.reverse.take limit) (b.reverse.take limit)
  have short : back.length ≤ limit := by
    have whole := congrArg List.length aEnd
    rw [length_take,length_append] at whole
    omega
  have splitEnd (c cBack : List Text) (cEnd : c.reverse.take limit = back ++ cBack) :
      ∃ front, c = front ++ back.reverse := by
    have reversed := take_append_drop limit c.reverse
    rw [cEnd,append_assoc] at reversed
    refine ⟨(cBack ++ c.reverse.drop limit).reverse,?_⟩
    rw [← reverse_append,reversed,reverse_reverse]
  have middle (c cRest : List Text) (cStart : c = start ++ cRest) (atLeast : limit + start.length ≤ c.length)
      (cBack : List Text) (cEnd : c.reverse.take limit = back ++ cBack) :
      ∃ cMiddle, c = start ++ cMiddle ++ back.reverse := by
    obtain ⟨front,split⟩ := splitEnd c cBack cEnd
    have long : start.length ≤ front.length := by
      have whole := congrArg List.length split
      rw [length_append,length_reverse] at whole
      omega
    have frontStart : start <+: front :=
      prefix_of_prefix_length_le ⟨cRest,cStart.symm⟩ ⟨back.reverse,split.symm⟩ long
    obtain ⟨cMiddle,same⟩ := frontStart
    exact ⟨cMiddle,by rw [same,← split]⟩
  have aLong : start.length ≤ a.length := by rw [aStart,length_append]; omega
  have bLong : start.length ≤ b.length := by rw [bStart,length_append]; omega
  obtain ⟨aMiddle,aSplit⟩ := middle a aRest aStart (by omega) aBack aEnd
  obtain ⟨bMiddle,bSplit⟩ := middle b bRest bStart (by omega) bBack bEnd
  refine ⟨start,aMiddle,bMiddle,back.reverse,aSplit,bSplit,length,?_⟩
  rw [length_reverse,backLength,← length]
  rfl

end Trimming

section Numbers

theorem lineId_spec (ids : List Text) (l : Text) :
    ids <+: (lineId ids l).2 ∧ (lineId ids l).2[(lineId ids l).1]? = some l := by
  unfold lineId
  split
  next id hit =>
    obtain ⟨mem,same,_⟩ := idxOf?_eq_some_iff.mp hit
    exact ⟨List.prefix_refl _,List.getElem?_eq_some_iff.mpr ⟨mem,by simpa using same⟩⟩
  next => exact ⟨prefix_append _ _,by simp⟩

theorem lineIds_spec (ls ids : List Text) : ids <+: (lineIds ls ids).2 ∧
    ∀ table, (lineIds ls ids).2 <+: table → (lineIds ls ids).1.map (fun id => table.getD id []) = ls := by
  induction ls generalizing ids with
  | nil => exact ⟨prefix_refl _,fun table _ => rfl⟩
  | cons l ls ih =>
    obtain ⟨added,named⟩ := lineId_spec ids l
    obtain ⟨more,rest⟩ := ih (lineId ids l).2
    refine ⟨added.trans more,?_⟩
    intro table longer
    have first : table.getD (lineId ids l).1 [] = l := by
      obtain ⟨post,same⟩ := more.trans longer
      obtain ⟨mem,_⟩ := List.getElem?_eq_some_iff.mp named
      rw [getD_eq_getElem?_getD,← same,getElem?_append_left mem,named]
      rfl
    change table.getD (lineId ids l).1 [] :: (lineIds ls (lineId ids l).2).1.map _ = _
    rw [first,rest table longer]

theorem linesBetween_append (start middle tail : List Text) :
    linesBetween (start ++ middle ++ tail) start.length (start.length + middle.length) = middle := by
  rw [linesBetween,← length_append,take_left,drop_left]

end Numbers

section Search

theorem searchLineChanges_replaces (pre after : LineDiffSide) (maxDistance : Nat) :
    Replaces 0 0 (comparisonKeys pre) (comparisonKeys after)
      (searchLineChanges pre after maxDistance).blocks := by
  obtain ⟨start,old,new,tail,oldSplit,newSplit,startLength,tailLength⟩ :=
    trimmed (comparisonKeys pre) (comparisonKeys after)
  have oldEnd : (comparisonKeys pre).length - tail.length = start.length + old.length := by
    rw [oldSplit,length_append,length_append,Nat.add_sub_cancel]
  have newEnd : (comparisonKeys after).length - tail.length = start.length + new.length := by
    rw [newSplit,length_append,length_append,Nat.add_sub_cancel]
  have whole (blocks : List LineChangeBlock) (replaces : Replaces start.length start.length old new blocks) :
      Replaces 0 0 (comparisonKeys pre) (comparisonKeys after) blocks := by
    rw [oldSplit,newSplit,append_assoc,append_assoc]
    refine Replaces.skip start ?_
    rw [Nat.zero_add]
    exact replaces.extend tail
  have block (some_line : old ≠ [] ∨ new ≠ []) : Replaces start.length start.length old new
        [⟨start.length,start.length + old.length,start.length,start.length + new.length⟩] := by
    have single : Replaces start.length start.length ([] ++ old ++ []) ([] ++ new ++ [])
        [⟨start.length,start.length + old.length,start.length,start.length + new.length⟩] :=
      .block [] old new some_line rfl rfl rfl rfl (.done _ _ [])
    simpa using single
  rw [← startLength] at tailLength
  unfold searchLineChanges
  simp only [← startLength,← tailLength,oldEnd,newEnd]
  split
  next empty =>
    obtain rfl : old = [] := length_eq_zero_iff.mp (by omega)
    obtain rfl : new = [] := length_eq_zero_iff.mp (by omega)
    exact whole [] (.done _ _ [])
  next notEmpty =>
    have some_line : old ≠ [] ∨ new ≠ [] := by
      simp only [← length_pos_iff]
      omega
    split
    next => exact whole _ (block some_line)
    next =>
      split
      next => exact whole _ (block some_line)
      next trace hit =>
        refine whole _ ?_
        have oldLines : linesBetween (comparisonKeys pre) start.length
            (start.length + old.length) = old := by rw [oldSplit,linesBetween_append]
        have newLines : linesBetween (comparisonKeys after) start.length
            (start.length + new.length) = new := by rw [newSplit,linesBetween_append]
        rw [oldLines,newLines] at hit ⊢
        obtain ⟨_,oldNamed⟩ := lineIds_spec old []
        obtain ⟨kept,newNamed⟩ := lineIds_spec new (lineIds old []).2
        have script := (backtrackEdits_aligned hit).map fun id =>
          (lineIds new (lineIds old []).2).2.getD id []
        rw [oldNamed _ kept,newNamed _ (prefix_refl _)] at script
        exact (blocksFrom_replaces script).1 _ _

end Search

end Keiko.LineDiff
