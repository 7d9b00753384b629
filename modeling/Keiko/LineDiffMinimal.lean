import Keiko.LineDiffHunks
import Keiko.Library.EditCost

/-! How short the script of a line diff is: unless one of its bounds stops the search, no script
between the two sides removes and adds fewer lines than the blocks do. The forward pass stays
inside of its frontier on every input, bounded or not. -/
namespace Keiko.LineDiff
open Keiko.Library List

universe u

section Counts

def changedLines (blocks : List LineChangeBlock) : Nat :=
  (lineChangeCounts blocks).deleted + (lineChangeCounts blocks).added

@[simp] theorem changedLines_nil : changedLines [] = 0 := rfl

@[simp] theorem changedLines_cons (block : LineChangeBlock) (blocks : List LineChangeBlock) :
    changedLines (block :: blocks) =
      (block.oldEnd - block.oldStart) + (block.newEnd - block.newStart) + changedLines blocks := by
  simp only [changedLines,lineChangeCounts,map_cons,sum_cons]
  omega

theorem changedLines_blocksFrom (moves : List LineEdit) (i j : Nat) :
    changedLines (blocksFrom i j none moves) = edits moves ∧ ∀ oldStart newStart, oldStart ≤ i → newStart ≤ j →
        changedLines (blocksFrom i j (some (oldStart,newStart)) moves) =
          (i - oldStart) + (j - newStart) + edits moves := by
  induction moves generalizing i j with
  | nil => exact ⟨rfl,fun oldStart newStart _ _ => by simp [blocksFrom,closeBlock]⟩
  | cons move moves ih =>
    cases move with
    | keep =>
      obtain ⟨closed,_⟩ := ih (i + 1) (j + 1)
      refine ⟨by simpa [blocksFrom,closeBlock] using closed,?_⟩
      intro oldStart newStart _ _
      simp [blocksFrom,closeBlock,closed]
    | remove =>
      obtain ⟨_,opened⟩ := ih (i + 1) j
      refine ⟨?_,?_⟩
      · rw [blocksFrom,Option.getD_none,opened i j (Nat.le_succ i) (le_refl j),edits_remove]
        omega
      · intro oldStart newStart oldLe newLe
        rw [blocksFrom,Option.getD_some,opened oldStart newStart (by omega) newLe,edits_remove]
        omega
    | add =>
      obtain ⟨_,opened⟩ := ih i (j + 1)
      refine ⟨?_,?_⟩
      · rw [blocksFrom,Option.getD_none,opened i j (le_refl i) (Nat.le_succ j),edits_add]
        omega
      · intro oldStart newStart oldLe newLe
        rw [blocksFrom,Option.getD_some,opened oldStart newStart oldLe (by omega),edits_add]
        omega

theorem edits_backtrackFrom (trace : List (List Nat)) (d : Nat) (x y : ℤ) :
    edits (backtrackFrom trace d x y) = d - 1 := by
  induction d generalizing x y with
  | zero => rfl
  | succ d ih =>
    rw [backtrackFrom,edits_append,edits_append,edits_replicate,if_pos rfl,ih]
    cases d with
    | zero => rfl
    | succ d =>
      rw [if_pos (Nat.succ_pos d)]
      split
      · simp only [edits_add,edits_nil]
        omega
      · simp only [edits_remove,edits_nil]
        omega

end Counts

section Search

theorem forwardTrace_least {a b : List Nat} {maxDistance : Nat} {trace : List (List Nat)}
    (hit : forwardTrace a b maxDistance = .ok trace) (base : Nat) :
    IsLeast { n | ScriptCost a b n } (changedLines (editBlocks (backtrackEdits trace a.length b.length) base)) := by
  obtain ⟨last,length,_,shorter⟩ := forwardTrace_supported hit
  have count : changedLines (editBlocks (backtrackEdits trace a.length b.length) base) =
      edits (backtrackEdits trace a.length b.length) := by
    rw [editBlocks,(changedLines_blocksFrom _ base base).1,edits_reverse]
  have total : edits (backtrackEdits trace a.length b.length) = last := by
    rw [backtrackEdits,edits_backtrackFrom,length,Nat.add_sub_cancel]
  rw [count]
  refine ⟨⟨_,backtrackEdits_aligned hit,edits_reverse _⟩,?_⟩
  intro n cost
  by_contra fewer
  exact shorter n (by omega) (ScriptCost.reaches cost)

theorem lineId_idxOf (ids : List Text) (l : Text) :
    (lineId ids l).1 = (lineId ids l).2.idxOf l ∧ l ∈ (lineId ids l).2 := by
  unfold lineId
  split
  next id hit =>
    obtain ⟨mem,same,_⟩ := idxOf?_eq_some_iff.mp hit
    refine ⟨?_,?_⟩
    · rw [idxOf_eq_getD_idxOf?,hit,Option.getD_some]
    · rw [← same]
      exact getElem_mem mem
  next absent =>
    have fresh : l ∉ ids := idxOf?_eq_none_iff.mp absent
    refine ⟨?_,by simp⟩
    rw [idxOf_append_of_notMem fresh]
    simp

theorem lineIds_idxOf (ls ids : List Text) {table : List Text} (longer : (lineIds ls ids).2 <+: table) :
    (lineIds ls ids).1 = ls.map fun l => table.idxOf l := by
  induction ls generalizing ids with
  | nil => rfl
  | cons l ls ih =>
    obtain ⟨named,mem⟩ := lineId_idxOf ids l
    obtain ⟨post,same⟩ := (lineIds_spec ls (lineId ids l).2).1.trans longer
    have first : table.idxOf l = (lineId ids l).1 := by
      rw [← same,idxOf_append_of_mem mem,named]
    change (lineId ids l).1 :: (lineIds ls (lineId ids l).2).1 = _
    rw [ih (lineId ids l).2 longer,map_cons,first]

theorem isLeast_lineIds (old new : List Text) (n : Nat) :
    IsLeast { m | ScriptCost (lineIds old []).1 (lineIds new (lineIds old []).2).1 m } n ↔
      IsLeast { m | ScriptCost old new m } n := by
  obtain ⟨_,oldBack⟩ := lineIds_spec old []
  obtain ⟨kept,newBack⟩ := lineIds_spec new (lineIds old []).2
  have oldLines := oldBack _ kept
  have newLines := newBack _ (prefix_refl _)
  rw [lineIds_idxOf old [] kept] at oldLines ⊢
  rw [lineIds_idxOf new (lineIds old []).2 (prefix_refl _)] at newLines ⊢
  exact isLeast_map oldLines newLines

theorem searchLineChanges_least {pre after : LineDiffSide} {maxDistance : Nat}
    (unbounded : (searchLineChanges pre after maxDistance).bound = none) :
    IsLeast { n | ScriptCost (comparisonKeys pre) (comparisonKeys after) n }
      (changedLines (searchLineChanges pre after maxDistance).blocks) := by
  obtain ⟨start,old,new,tail,oldSplit,newSplit,startLength,tailLength⟩ :=
    trimmed (comparisonKeys pre) (comparisonKeys after)
  have oldEnd : (comparisonKeys pre).length - tail.length = start.length + old.length := by
    rw [oldSplit,length_append,length_append,Nat.add_sub_cancel]
  have newEnd : (comparisonKeys after).length - tail.length = start.length + new.length := by
    rw [newSplit,length_append,length_append,Nat.add_sub_cancel]
  have whole {n : Nat} (least : IsLeast { n | ScriptCost old new n } n) :
      IsLeast { n | ScriptCost (comparisonKeys pre) (comparisonKeys after) n } n := by
    rw [oldSplit,newSplit]
    exact isLeast_surround start tail least
  rw [← startLength] at tailLength
  unfold searchLineChanges at unbounded ⊢
  simp only [← startLength,← tailLength,oldEnd,newEnd] at unbounded ⊢
  split
  next empty =>
    obtain rfl : old = [] := length_eq_zero_iff.mp (by omega)
    obtain rfl : new = [] := length_eq_zero_iff.mp (by omega)
    exact whole (isLeast_added [])
  next notEmpty =>
    rw [if_neg notEmpty] at unbounded
    split
    next oneEmpty =>
      refine whole ?_
      obtain noOld | noNew := oneEmpty
      · obtain rfl : old = [] := length_eq_zero_iff.mp (by omega)
        simpa using isLeast_added new
      · obtain rfl : new = [] := length_eq_zero_iff.mp (by omega)
        simpa using isLeast_removed old
    next bothThere =>
      rw [if_neg bothThere] at unbounded
      split
      next bound hit =>
        rw [hit] at unbounded
        cases unbounded
      next trace hit =>
        refine whole ?_
        have oldLines : linesBetween (comparisonKeys pre) start.length
            (start.length + old.length) = old := by rw [oldSplit,linesBetween_append]
        have newLines : linesBetween (comparisonKeys after) start.length
            (start.length + new.length) = new := by rw [newSplit,linesBetween_append]
        rw [oldLines,newLines] at hit ⊢
        exact (isLeast_lineIds old new _).mp (forwardTrace_least hit start.length)

end Search

section Lines

def endedLines (side : LineDiffSide) : List (Text × Bool) :=
  side.lines.mapIdx fun index line =>
    (line,side.missingFinalNewline && index + 1 == side.lines.length)

def endedKey (line : Text × Bool) : Text := if line.2 then line.1 ++ ['\n'] else line.1

theorem map_endedKey (side : LineDiffSide) : (endedLines side).map endedKey = comparisonKeys side := by
  obtain ⟨plain,same⟩ | ⟨ls,last,gone,split,keys⟩ := comparisonKeys_cases side
  · rw [same]
    apply ext_getElem
    · simp [endedLines]
    · intro i left right
      obtain terminated | empty := plain
      · simp [endedLines,endedKey,terminated]
      · simp [empty] at right
  · rw [keys]
    apply ext_getElem
    · simp [endedLines,split]
    · intro i left right
      simp only [length_append,length_singleton] at right
      simp only [endedLines,endedKey,split,gone,getElem_map,getElem_mapIdx,
        length_append,length_singleton,Bool.true_and,beq_iff_eq,getElem_append,
        getElem_singleton]
      by_cases inFront : i < ls.length
      · have notLast : ¬ i = ls.length := by omega
        simp [inFront,notLast]
      · have isLast : i = ls.length := by omega
        simp [isLast]

theorem map_keyLine {side : LineDiffSide} (unbroken : Unbroken side) :
    ((endedLines side).map endedKey).map (fun key => (withoutFinalNewline key,keyMarked key)) = endedLines side := by
  rw [map_map]
  conv_rhs => rw [← map_id (endedLines side)]
  apply map_congr_left
  intro l mem
  obtain ⟨i,inside,same⟩ := mem_mapIdx.mp mem
  have plain : '\n' ∉ l.1 := by
    rw [← same]
    exact unbroken _ (getElem_mem inside)
  obtain ⟨t,gone⟩ := l
  cases gone with
  | false =>
    change (withoutFinalNewline t,keyMarked t) = (t,false)
    rw [withoutFinalNewline_of_unbroken plain,keyMarked_of_unbroken plain]
  | true =>
    change (withoutFinalNewline (t ++ ['\n']),keyMarked (t ++ ['\n'])) = (t,true)
    rw [withoutFinalNewline_append,keyMarked,getLast?_concat]
    rfl

theorem isLeast_endedLines {pre after : LineDiffSide} (oldUnbroken : Unbroken pre)
    (newUnbroken : Unbroken after) (n : Nat) :
    IsLeast { m | ScriptCost (comparisonKeys pre) (comparisonKeys after) m } n ↔
      IsLeast { m | ScriptCost (endedLines pre) (endedLines after) m } n := by
  rw [← map_endedKey pre,← map_endedKey after]
  exact isLeast_map (map_keyLine oldUnbroken) (map_keyLine newUnbroken)

end Lines

section Bounds

variable {a b : List Nat} {maxDistance d : Nat}

def writeInside (frontier : List Nat) (index : ℤ) (value : Nat) : Option (List Nat) :=
  if 0 ≤ index ∧ index < frontier.length then some (writeAt frontier index value) else none

/-- The visit of the diagonals, which fails at the first access outside of the frontier. -/
def visitInside (a b : List Nat) (offset : ℤ) (d : Nat) (frontier : List Nat) (budget : ℤ) : List ℤ → Option Visit
  | [] => some (.continued frontier budget)
  | diagonal :: rest => do
    let left ← itemAt frontier (offset + diagonal - 1)
    let right ← itemAt frontier (offset + diagonal + 1)
    let start := if movesDown diagonal d left right then right else left + 1
    let x := snakeEnd a b start diagonal
    let budget := budget - (x - start + 1 : ℤ)
    if budget < 0 then some .exhausted
    else
      let frontier ← writeInside frontier (offset + diagonal) x
      if a.length ≤ x ∧ b.length ≤ x - diagonal then some .reached
      else visitInside a b offset d frontier budget rest

def forwardInside (a b : List Nat) (maxDistance d : Nat) (frontier : List Nat) (budget : ℤ)
    (trace : List (List Nat)) : Nat → Option (Except LineDiffBound (List (List Nat)))
  | 0 => some (.error .distance)
  | remaining + 1 =>
    let offset := maxDistance + 1
    if offset < d + 1 ∨ frontier.length < offset + d + 2 then none
    else do
      let trace := trace ++ [(frontier.take (offset + d + 2)).drop (offset - d - 1)]
      match ← visitInside a b offset d frontier budget (diagonals d) with
      | .exhausted => some (.error .work)
      | .reached => some (.ok trace)
      | .continued frontier budget =>
        forwardInside a b maxDistance (d + 1) frontier budget trace remaining

theorem itemAt_inside (values : List Nat) (i : ℤ) (lower : 0 ≤ i)
    (upper : i < values.length) : itemAt values i = some ((itemAt values i).getD 0) := by
  obtain ⟨pos,same⟩ : ∃ pos : Nat, i = pos := ⟨i.toNat,by omega⟩
  rw [same,itemAt_natCast,getElem?_eq_getElem (by omega),Option.getD_some]

theorem visitInside_eq (small : d ≤ maxDistance) (frontier : List Nat) (n : ℤ)
    (size : frontier.length = 2 * maxDistance + 3) (visited : List ℤ)
    (near : ∀ k ∈ visited, -(d : ℤ) ≤ k ∧ k ≤ d) :
    visitInside a b ((maxDistance : ℤ) + 1) d frontier n visited =
        some (visitDiagonals a b ((maxDistance : ℤ) + 1) d frontier n visited) ∧
      ∀ next budget', visitDiagonals a b ((maxDistance : ℤ) + 1) d frontier n visited =
        .continued next budget' → next.length = 2 * maxDistance + 3 := by
  induction visited generalizing frontier n with
  | nil =>
    refine ⟨rfl,?_⟩
    intro next budget' same
    cases same
    exact size
  | cons k visited ih =>
    obtain ⟨lower,upper⟩ := near k (by simp)
    have post : ∀ k ∈ visited, -(d : ℤ) ≤ k ∧ k ≤ d := fun k mem => near k (by simp [mem])
    have left := itemAt_inside frontier ((maxDistance : ℤ) + 1 + k - 1) (by omega) (by omega)
    have right := itemAt_inside frontier ((maxDistance : ℤ) + 1 + k + 1) (by omega) (by omega)
    have written (x : Nat) : writeInside frontier ((maxDistance : ℤ) + 1 + k) x =
        some (writeAt frontier ((maxDistance : ℤ) + 1 + k) x) := by
      rw [writeInside,if_pos ⟨by omega,by omega⟩]
    rw [visitInside,left,right,visitDiagonals]
    simp only [Option.bind_eq_bind,Option.bind_some,written]
    generalize (if movesDown k d ((itemAt frontier ((maxDistance : ℤ) + 1 + k - 1)).getD 0)
      ((itemAt frontier ((maxDistance : ℤ) + 1 + k + 1)).getD 0) then
        (itemAt frontier ((maxDistance : ℤ) + 1 + k + 1)).getD 0
      else (itemAt frontier ((maxDistance : ℤ) + 1 + k - 1)).getD 0 + 1) = start
    generalize snakeEnd a b start k = x
    by_cases exhausted : n - (x - start + 1 : ℤ) < 0
    · rw [if_pos exhausted,if_pos exhausted]
      exact ⟨rfl,fun next budget' same => by cases same⟩
    · rw [if_neg exhausted,if_neg exhausted]
      by_cases finished : a.length ≤ x ∧ (b.length : ℤ) ≤ x - k
      · rw [if_pos finished,if_pos finished]
        exact ⟨rfl,fun next budget' same => by cases same⟩
      · rw [if_neg finished,if_neg finished]
        exact ih _ _ (length_writeAt.trans size) post

theorem diagonals_near (d : Nat) : ∀ k ∈ diagonals d, -(d : ℤ) ≤ k ∧ k ≤ d := by
  intro k mem
  obtain ⟨step,inside,same⟩ := mem_map.mp mem
  have bound := mem_range.mp inside
  omega

theorem forwardInside_eq {frontier : List Nat} {n : ℤ} {trace : List (List Nat)}
    {remaining : Nat} (whole : d + remaining = maxDistance + 1)
    (size : frontier.length = 2 * maxDistance + 3) :
    forwardInside a b maxDistance d frontier n trace remaining =
      some (forwardFrom a b maxDistance d frontier n trace remaining) := by
  induction remaining generalizing d frontier n trace with
  | zero => rfl
  | succ remaining ih =>
    have small : d ≤ maxDistance := by omega
    obtain ⟨visited,kept⟩ := visitInside_eq (a := a) (b := b) small frontier n size
      (diagonals d) (diagonals_near d)
    rw [forwardInside,if_neg (by omega),forwardFrom]
    simp only [Int.natCast_succ,visited,Option.bind_eq_bind,Option.bind_some]
    cases equal : visitDiagonals a b ((maxDistance : ℤ) + 1) d frontier n (diagonals d) with
    | exhausted => rfl
    | reached => rfl
    | continued next left => exact ih (by omega) (kept next left equal)

end Bounds

/-- A line diff that no bound stops is minimal: no script between the keys of the two sides, and so
between lines of which the last may lack its terminator, removes and adds fewer of them than its
blocks do. On any two sides the forward pass stays inside of its frontier. -/
theorem searchLineChanges_minimal (before after : LineDiffSide) (maxDistance : Nat) :
    ((searchLineChanges before after maxDistance).bound = none →
      IsLeast { n | ScriptCost (comparisonKeys before) (comparisonKeys after) n }
        (changedLines (searchLineChanges before after maxDistance).blocks) ∧
      (Unbroken before → Unbroken after →
        IsLeast { n | ScriptCost (endedLines before) (endedLines after) n }
          (changedLines (searchLineChanges before after maxDistance).blocks))) ∧
    ∀ a b : List Nat, forwardInside a b maxDistance 0 (List.replicate (2 * maxDistance + 3) 0)
      maxComparisons [] (maxDistance + 1) = some (forwardTrace a b maxDistance) := by
  refine ⟨?_,fun a b => forwardInside_eq (Nat.zero_add _) length_replicate⟩
  intro unbounded
  have least := searchLineChanges_least unbounded
  refine ⟨least,?_⟩
  intro oldUnbroken newUnbroken
  exact (isLeast_endedLines oldUnbroken newUnbroken _).mp least

theorem searchLineChanges_minimal_sample :
    IsLeast { n | ScriptCost (endedLines ⟨["a".toList,"b".toList],false⟩)
      (endedLines ⟨["b".toList,"c".toList],true⟩) n } 2 := by
  have search : searchLineChanges ⟨["a".toList,"b".toList],false⟩ ⟨["b".toList,"c".toList],true⟩ 4 =
      ⟨[⟨0,1,0,0⟩,⟨2,2,1,2⟩],none⟩ := by decide +kernel
  have least := ((searchLineChanges_minimal ⟨["a".toList,"b".toList],false⟩
    ⟨["b".toList,"c".toList],true⟩ 4).1 (by rw [search])).2 (by unfold Unbroken; decide)
      (by unfold Unbroken; decide)
  rw [search] at least
  exact least

end Keiko.LineDiff
