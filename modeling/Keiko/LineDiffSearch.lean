import Keiko.LineDiff

/-! The greedy search for a script. The frontier before each step is what the trace keeps of it
around the diagonals of that step; the walk back over the trace is a script from the old side
to the new one, whatever bound the search ran under. -/
namespace Keiko.LineDiff
open Keiko.Library List Option

section Arrays

variable {values : List Nat} {i other : ℤ} {value : Nat}

theorem itemAt_natCast (values : List Nat) (i : Nat) : itemAt values i = values[i]? := by
  rw [itemAt,if_neg (by omega),Int.toNat_natCast]

theorem itemAt_eq_some {item : Nat} (hit : itemAt values i = some item) :
    ∃ j : Nat, i = j ∧ values[j]? = some item := by
  unfold itemAt at hit
  split at hit
  · contradiction
  · exact ⟨i.toNat,by omega,hit⟩

theorem itemAt_writeAt_same (lower : 0 ≤ i) (upper : i < values.length) :
    itemAt (writeAt values i value) i = some value := by
  have mem : i.toNat < values.length := by omega
  rw [writeAt,if_neg (by omega),itemAt,if_neg (by omega),getElem?_set_self mem]

theorem itemAt_writeAt_other (differ : i ≠ other) :
    itemAt (writeAt values i value) other = itemAt values other := by
  unfold writeAt itemAt
  split
  · rfl
  · split
    · rfl
    · exact getElem?_set_ne (by omega)

theorem length_writeAt : (writeAt values i value).length = values.length := by
  unfold writeAt
  split
  · rfl
  · exact length_set

end Arrays

section Steps

variable {a b : List Nat} {frontier : List Nat} {diagonal : ℤ}

theorem movesDown_iff {d left right : Nat} :
    movesDown diagonal d left right = true ↔ MovesDown d diagonal left right := by
  simp [movesDown,MovesDown]

theorem snakeEnd_snake (a b : List Nat) (x : Nat) (diagonal : ℤ) :
    FullSnake a b diagonal x (snakeEnd a b x diagonal) := by
  fun_induction snakeEnd a b x diagonal with
  | case1 x mem ih =>
    obtain ⟨oldInside,_,same⟩ := mem
    refine ⟨⟨Nat.le_of_succ_le ih.le,?_⟩,ih.stuck⟩
    intro pos above below
    by_cases first : pos = x
    · rw [first]
      have old : itemAt a x = some a[x] := by
        rw [itemAt_natCast,getElem?_eq_getElem oldInside]
      obtain ⟨j,index,new⟩ := itemAt_eq_some (same.symm.trans old)
      exact ⟨j,a[x],index,getElem?_eq_getElem oldInside,new⟩
    · exact ih.same pos (by omega) below
  | case2 x stopped =>
    refine ⟨⟨Nat.le_refl _,fun pos above below => absurd below (by omega)⟩,?_⟩
    intro same
    obtain ⟨j,item,pos,inOld,inNew⟩ := same
    obtain ⟨oldInside,_⟩ := List.getElem?_eq_some_iff.mp inOld
    obtain ⟨newInside,_⟩ := List.getElem?_eq_some_iff.mp inNew
    refine stopped ⟨oldInside,by omega,?_⟩
    rw [pos,itemAt_natCast,itemAt_natCast,inOld,inNew]

def reachedBy (maxDistance : Nat) (frontier : List Nat) (diagonal : ℤ) : Nat :=
  (itemAt frontier (maxDistance + 1 + diagonal)).getD 0

def entered (d : Nat) (reached : ℤ → Nat) (diagonal : ℤ) : Nat :=
  entry d diagonal (reached (diagonal - 1)) (reached (diagonal + 1))

/-- A frontier in the middle of a step: the diagonals below a bound are done, and the others of
either parity are as they were. -/
structure Halfway (a b : List Nat) (d : Nat) (reached next : ℤ → Nat) (bound : ℤ) : Prop where
  moved : ∀ k, OnDiagonal d k → k < bound → FullSnake a b k (entered d reached k) (next k)
  unfinished : ∀ k, OnDiagonal d k → k < bound → ¬ (a.length ≤ next k ∧ (b.length : ℤ) ≤ next k - k)
  untouched : ∀ k, (¬ OnDiagonal d k ∨ bound ≤ k) → next k = reached k

variable {maxDistance d : Nat} {reached : ℤ → Nat}

theorem visitDiagonals_step {n : ℤ} {rest : List ℤ} (on : OnDiagonal d diagonal)
    (halfway : Halfway a b d reached (reachedBy maxDistance frontier) diagonal) :
    visitDiagonals a b ((maxDistance : ℤ) + 1) d frontier n (diagonal :: rest) =
      let start := entered d reached diagonal
      let x := snakeEnd a b start diagonal
      if n - (x - start + 1 : ℤ) < 0 then .exhausted
      else if a.length ≤ x ∧ (b.length : ℤ) ≤ x - diagonal then .reached
      else visitDiagonals a b ((maxDistance : ℤ) + 1) d (writeAt frontier ((maxDistance : ℤ) + 1 + diagonal) x)
        (n - (x - start + 1 : ℤ)) rest := by
  have parity := on.parity
  have left : (itemAt frontier ((maxDistance : ℤ) + 1 + diagonal - 1)).getD 0 = reached (diagonal - 1) := by
    rw [← halfway.untouched (diagonal - 1) (.inl fun on => by have := on.parity; omega),reachedBy]
    congr 2
    omega
  have right : (itemAt frontier ((maxDistance : ℤ) + 1 + diagonal + 1)).getD 0 = reached (diagonal + 1) := by
    rw [← halfway.untouched (diagonal + 1) (.inr (by omega)),reachedBy]
    congr 2
    omega
  rw [visitDiagonals,left,right]
  simp only [movesDown_iff]
  rfl

theorem Halfway.visit (on : OnDiagonal d diagonal)
    (size : frontier.length = 2 * maxDistance + 3) (small : d ≤ maxDistance)
    (halfway : Halfway a b d reached (reachedBy maxDistance frontier) diagonal) {x : Nat}
    (snake : FullSnake a b diagonal (entered d reached diagonal) x)
    (unfinished : ¬ (a.length ≤ x ∧ (b.length : ℤ) ≤ x - diagonal)) :
    Halfway a b d reached (reachedBy maxDistance (writeAt frontier (maxDistance + 1 + diagonal) x)) (diagonal + 2) := by
  have lower := on.lower
  have upper := on.upper
  have here : reachedBy maxDistance (writeAt frontier (maxDistance + 1 + diagonal) x) diagonal = x := by
    rw [reachedBy,itemAt_writeAt_same (by omega) (by omega),getD_some]
  have elsewhere (k : ℤ) (other : k ≠ diagonal) :
      reachedBy maxDistance (writeAt frontier (maxDistance + 1 + diagonal) x) k = reachedBy maxDistance frontier k := by
    rw [reachedBy,itemAt_writeAt_other (by omega),reachedBy]
  have early (k : ℤ) (onToo : OnDiagonal d k) (below : k < diagonal + 2) (other : k ≠ diagonal) : k < diagonal := by
    have parity := on.parity
    have parityToo := onToo.parity
    omega
  refine ⟨?_,?_,?_⟩
  · intro k onToo below
    by_cases same : k = diagonal
    · rw [same,here]
      exact snake
    · rw [elsewhere k same]
      exact halfway.moved k onToo (early k onToo below same)
  · intro k onToo below
    by_cases same : k = diagonal
    · rw [same,here]
      exact unfinished
    · rw [elsewhere k same]
      exact halfway.unfinished k onToo (early k onToo below same)
  · intro k outside
    have other : k ≠ diagonal := by
      intro same
      obtain off | above := outside
      · exact off (same ▸ on)
      · omega
    rw [elsewhere k other]
    exact halfway.untouched k (outside.imp_right fun above => by omega)

def Visited (a b : List Nat) (maxDistance d : Nat) (reached : ℤ → Nat) : Visit → Prop
  | .exhausted => True
  | .reached => ∃ k x, OnDiagonal d k ∧ Snake a b k (entered d reached k) x ∧
      a.length ≤ x ∧ (b.length : ℤ) ≤ x - k
  | .continued frontier _ => frontier.length = 2 * maxDistance + 3 ∧
      Halfway a b d reached (reachedBy maxDistance frontier) (d + 2)

theorem visitDiagonals_visited (small : d ≤ maxDistance) (step left : Nat)
    (whole : step + left = d + 1) (n : ℤ) (size : frontier.length = 2 * maxDistance + 3)
    (halfway : Halfway a b d reached (reachedBy maxDistance frontier) (2 * step - d)) :
    Visited a b maxDistance d reached (visitDiagonals a b (maxDistance + 1) d frontier n
        ((List.range' step left).map fun step : Nat => 2 * (step : ℤ) - d)) := by
  induction left generalizing step frontier n with
  | zero =>
    have past : (2 * step - d : ℤ) = d + 2 := by omega
    rw [past] at halfway
    exact ⟨size,halfway⟩
  | succ left ih =>
    have on : OnDiagonal d (2 * step - d) := ⟨by omega,by omega,by omega⟩
    have snake := snakeEnd_snake a b (entered d reached (2 * step - d)) (2 * step - d)
    rw [range'_succ,map_cons,visitDiagonals_step on halfway]
    dsimp only
    split
    · trivial
    · split
      next finished => exact ⟨_,_,on,snake.toSnake,finished⟩
      next unfinished =>
        have bound : (2 * step - d + 2 : ℤ) = 2 * (step + 1 : Nat) - d := by omega
        have done := halfway.visit on size small snake unfinished
        rw [bound] at done
        exact ih (step + 1) (by omega) _ (length_writeAt.trans size) done

end Steps

section Trace

variable {a b : List Nat} {bound d : Nat}

theorem frontierAt_slice {kept : List (List Nat)} {frontier : List Nat} {k : ℤ} (noted : kept[d]? = some
      ((frontier.take (bound + 1 + d + 2)).drop (bound + 1 - d - 1)))
    (small : d ≤ bound) (lower : -(d + 1 : ℤ) ≤ k) (upper : k ≤ d + 1) :
    frontierAt kept d k = reachedBy bound frontier k := by
  obtain ⟨index,pos⟩ : ∃ index : Nat, (index : ℤ) = k + d + 1 := ⟨(k + d + 1).toNat,by omega⟩
  have shifted : ((bound - d + index : Nat) : ℤ) = bound + 1 + k := by omega
  rw [frontierAt,getD_eq_getElem?_getD,noted,getD_some,← pos,itemAt_natCast,
    reachedBy,← shifted,itemAt_natCast,getElem?_drop,getElem?_take_of_lt (by omega)]
  congr 2
  omega

theorem forwardFrom_extends {frontier : List Nat} {n : ℤ} {trace res : List (List Nat)} {remaining : Nat}
    (hit : forwardFrom a b bound d frontier n trace remaining = .ok res) :
    trace <+: res := by
  induction remaining generalizing d frontier n trace with
  | zero => cases hit
  | succ remaining ih =>
    simp only [forwardFrom] at hit
    split at hit
    · cases hit
    · cases hit
      exact prefix_append _ _
    · exact (prefix_append _ _).trans (ih hit)

/-- What a frontier holds before a step: nothing before the first one, what the step before
reached otherwise. -/
def Prepared (a b : List Nat) (noted : Nat → ℤ → Nat) (reached : ℤ → Nat) : Nat → Prop
  | 0 => ∀ k, reached k = 0
  | d + 1 => Level a b noted d reached

theorem Prepared.entered_main {noted : Nat → ℤ → Nat} {reached : ℤ → Nat}
    (prepared : Prepared a b noted reached 0) : entered 0 reached 0 = 0 := by
  have down : MovesDown 0 0 (reached (0 - 1)) (reached (0 + 1)) := .inl rfl
  rw [entered,entry,if_pos down]
  exact prepared _

theorem Prepared.finish {noted : Nat → ℤ → Nat} {reached : ℤ → Nat} {k : ℤ} {x : Nat}
    (prepared : Prepared a b noted reached d)
    (read : ∀ k, -(d + 1 : ℤ) ≤ k → k ≤ d + 1 → noted d k = reached k) (on : OnDiagonal d k)
    (snake : Snake a b k (entered d reached k) x) (oldEnd : a.length ≤ x)
    (newEnd : (b.length : ℤ) ≤ x - k) :
    Supported a b noted d (a.length - b.length) a.length := by
  cases d with
  | zero =>
    obtain rfl : k = 0 := by
      have lower := on.lower
      have upper := on.upper
      omega
    rw [prepared.entered_main] at snake
    have ends : x = a.length ∧ a.length = b.length := by
      obtain still | ⟨oldInside,newInside⟩ := snake.inside
      · omega
      · omega
    rw [← ends.1,← ends.2,← ends.1]
    exact ⟨by omega,(read 1 (by omega) (by omega)).trans (prepared 1),snake⟩
  | succ d =>
    obtain ⟨oldSame,newSame⟩ := prepared.finish on snake oldEnd newEnd
    have diagonal : (a.length : ℤ) - b.length = k := by omega
    rw [diagonal,← oldSame]
    exact prepared.support (fun k lower upper => read k (by omega) (by omega)) on snake

theorem Prepared.not_reaches {noted : Nat → ℤ → Nat} {reached : ℤ → Nat} (prepared : Prepared a b noted reached d)
    (longer : ∀ e, e + 1 < d → ¬ Reaches a b e a.length b.length) :
    ∀ e, e < d → ¬ Reaches a b e a.length b.length := by
  intro e fewer
  cases d with
  | zero => exact absurd fewer (Nat.not_lt_zero e)
  | succ d =>
    by_cases last : e = d
    · rw [last]
      exact Level.not_reaches prepared
    · exact longer e (by omega)

theorem Prepared.next {noted : Nat → ℤ → Nat} {reached next : ℤ → Nat} (prepared : Prepared a b noted reached d)
    (read : ∀ k, -(d + 1 : ℤ) ≤ k → k ≤ d + 1 → noted d k = reached k)
    (halfway : Halfway a b d reached next (d + 2)) : Prepared a b noted next (d + 1) := by
  cases d with
  | zero =>
    have on : OnDiagonal 0 0 := ⟨by omega,by omega,by omega⟩
    have moved := halfway.moved 0 on (by omega)
    rw [prepared.entered_main] at moved
    refine Level.begin ((read 1 (by omega) (by omega)).trans (prepared 1)) moved ?_
    simpa using halfway.unfinished 0 on (by omega)
  | succ d =>
    have mem (k : ℤ) (on : OnDiagonal (d + 1) k) : k < (d + 1 : Nat) + 2 := by
      have upper := on.upper
      omega
    refine prepared.advance (fun k lower upper => read k (by omega) (by omega)) ?_ ?_
    · intro k on
      exact halfway.moved k on (mem k on)
    · intro k on
      exact halfway.unfinished k on (mem k on)

theorem forwardFrom_supported {frontier : List Nat} {n : ℤ} {trace res : List (List Nat)}
    {remaining : Nat} (whole : d + remaining = bound + 1)
    (size : frontier.length = 2 * bound + 3) (length : trace.length = d)
    (prepared : Prepared a b (frontierAt res) (reachedBy bound frontier) d)
    (longer : ∀ e, e + 1 < d → ¬ Reaches a b e a.length b.length)
    (hit : forwardFrom a b bound d frontier n trace remaining = .ok res) :
    ∃ last, res.length = last + 1 ∧ Supported a b (frontierAt res) last (a.length - b.length) a.length ∧
      ∀ e, e < last → ¬ Reaches a b e a.length b.length := by
  induction remaining generalizing d frontier n trace with
  | zero => cases hit
  | succ remaining ih =>
    have small : d ≤ bound := by omega
    have read : trace ++ [(frontier.take (bound + 1 + d + 2)).drop (bound + 1 - d - 1)]
        <+: res → ∀ k, -(d + 1 : ℤ) ≤ k → k ≤ d + 1 → frontierAt res d k = reachedBy bound frontier k := by
      intro extended k lower upper
      obtain ⟨post,same⟩ := extended
      refine frontierAt_slice ?_ small lower upper
      rw [← same,← length,append_assoc,getElem?_append_right (Nat.le_refl _),Nat.sub_self]
      rfl
    have start : Halfway a b d (reachedBy bound frontier) (reachedBy bound frontier)
        (2 * (0 : Nat) - d) := by
      refine ⟨?_,?_,fun k _ => rfl⟩
      · intro k on below
        have lower := on.lower
        omega
      · intro k on below
        have lower := on.lower
        omega
    have visited := visitDiagonals_visited small 0 (d + 1) (by omega) n size start
    rw [← range_eq_range'] at visited
    simp only [forwardFrom,diagonals,Int.natCast_succ] at hit
    split at hit
    next => cases hit
    next equal =>
      cases hit
      rw [equal] at visited
      obtain ⟨k,x,on,snake,oldEnd,newEnd⟩ := visited
      refine ⟨d,by simp [length],?_,prepared.not_reaches longer⟩
      exact prepared.finish (read (prefix_refl _)) on snake oldEnd newEnd
    next next _ equal =>
      rw [equal] at visited
      obtain ⟨sizeNext,halfway⟩ := visited
      refine ih (by omega) sizeNext (by simp [length]) ?_ ?_ hit
      · exact prepared.next (read (forwardFrom_extends hit)) halfway
      · intro e fewer
        exact prepared.not_reaches longer e (by omega)

/-- A trace that the forward pass gives leads back to the start, by as few edits as there can be. -/
theorem forwardTrace_supported {res : List (List Nat)} (hit : forwardTrace a b bound = .ok res) :
    ∃ last, res.length = last + 1 ∧ Supported a b (frontierAt res) last (a.length - b.length) a.length ∧
      ∀ e, e < last → ¬ Reaches a b e a.length b.length := by
  refine forwardFrom_supported (Nat.zero_add _) length_replicate rfl ?_ ?_ hit
  case refine_2 => exact fun e fewer => absurd fewer (Nat.not_lt_zero _)
  intro k
  rw [reachedBy]
  cases read : itemAt (replicate (2 * bound + 3) 0) (bound + 1 + k) with
  | none => rfl
  | some item =>
    obtain ⟨j,_,mem⟩ := itemAt_eq_some read
    rw [getElem?_replicate] at mem
    split at mem
    · exact (some.inj mem).symm
    · cases mem

end Trace

section Backtrack

variable {a b : List Nat} {trace : List (List Nat)} {d : Nat}

theorem backtrackFrom_succ {k previousDiagonal previousY : ℤ} {x y previousX kept : Nat}
    {down : Bool} (pos : (y : ℤ) = x - k)
    (decided : movesDown k d (frontierAt trace d (k - 1)) (frontierAt trace d (k + 1)) = down)
    (came : previousDiagonal = if down then k + 1 else k - 1)
    (read : frontierAt trace d previousDiagonal = previousX)
    (prev : previousY = previousX - previousDiagonal)
    (run : min (x - previousX : ℤ) (y - previousY) = kept) :
    backtrackFrom trace (d + 1) x y = List.replicate kept .keep ++
      (if 0 < d then [if down then .add else .remove] else []) ++
      backtrackFrom trace d previousX previousY := by
  have diagonal : (x - y : ℤ) = k := by omega
  rw [backtrackFrom]
  simp only [diagonal,decided,← came,read,← prev,run,Int.toNat_natCast]

theorem backtrackFrom_aligned {k : ℤ} {x y : Nat}
    (supported : Supported a b (frontierAt trace) d k x) (pos : (y : ℤ) = x - k)
    (oldInside : x ≤ a.length) (newInside : y ≤ b.length) :
    Aligned (backtrackFrom trace (d + 1) x y).reverse (a.take x) (b.take y) := by
  induction d generalizing k x y with
  | zero =>
    obtain ⟨rfl,start,snake⟩ := supported
    have came : (1 : ℤ) = if true then 0 + 1 else 0 - 1 := rfl
    have prev : (-1 : ℤ) = (0 : Nat) - 1 := rfl
    have walked : backtrackFrom trace 1 x y = replicate (x - 0) .keep ++ [] ++ [] :=
      backtrackFrom_succ pos (movesDown_iff.mpr (.inl rfl)) came start prev (by omega)
    have origin : Aligned [] (a.take 0) (b.take 0) := .nil
    have whole := origin.snake snake rfl
    have ends : 0 + (x - 0) = y := by omega
    rw [ends] at whole
    simpa [walked] using whole
  | succ d ih =>
    obtain ⟨on,snake,pre⟩ := supported
    by_cases down : MovesDown (d + 1) k (frontierAt trace (d + 1) (k - 1)) (frontierAt trace (d + 1) (k + 1))
    · rw [entry,if_pos down] at snake
      rw [if_pos down] at pre
      obtain ⟨previousX,read⟩ : ∃ previousX, frontierAt trace (d + 1) (k + 1) = previousX := ⟨_,rfl⟩
      rw [read] at snake pre
      have lower := pre.diagonal_le
      have le := snake.le
      obtain ⟨previousY,prev⟩ : ∃ previousY : Nat, (previousY : ℤ) = previousX - (k + 1) :=
        ⟨(previousX - (k + 1) : ℤ).toNat,by omega⟩
      have walked : backtrackFrom trace (d + 1 + 1) x y = replicate (x - previousX) .keep ++ [.add] ++
            backtrackFrom trace (d + 1) previousX previousY :=
        backtrackFrom_succ pos (movesDown_iff.mpr down) rfl read prev (by omega)
      have early := ih pre prev (by omega) (by omega)
      have whole := (early.adds (by omega)).snake snake (by omega)
      have ends : previousY + 1 + (x - previousX) = y := by omega
      rw [ends] at whole
      rw [walked]
      simpa using whole
    · rw [entry,if_neg down] at snake
      rw [if_neg down] at pre
      obtain ⟨previousX,read⟩ : ∃ previousX, frontierAt trace (d + 1) (k - 1) = previousX := ⟨_,rfl⟩
      rw [read] at snake pre
      have lower := pre.diagonal_le
      have le := snake.le
      obtain ⟨previousY,prev⟩ : ∃ previousY : Nat, (previousY : ℤ) = previousX - (k - 1) :=
        ⟨(previousX - (k - 1) : ℤ).toNat,by omega⟩
      have notDown : movesDown k (d + 1) (frontierAt trace (d + 1) (k - 1))
          (frontierAt trace (d + 1) (k + 1)) = false :=
        Bool.eq_false_iff.mpr fun decided => down (movesDown_iff.mp decided)
      have walked : backtrackFrom trace (d + 1 + 1) x y = replicate (x - (previousX + 1)) .keep ++ [.remove] ++
            backtrackFrom trace (d + 1) previousX previousY :=
        backtrackFrom_succ pos notDown rfl read prev (by omega)
      have early := ih pre prev (by omega) (by omega)
      have whole := (early.removes (by omega)).snake snake (by omega)
      have ends : previousY + (x - (previousX + 1)) = y := by omega
      rw [ends] at whole
      rw [walked]
      simpa using whole

theorem backtrackEdits_aligned {maxDistance : Nat} (hit : forwardTrace a b maxDistance = .ok trace) :
    Aligned (backtrackEdits trace a.length b.length).reverse a b := by
  obtain ⟨last,length,supported,_⟩ := forwardTrace_supported hit
  have whole := backtrackFrom_aligned supported (y := b.length) (by omega) (Nat.le_refl _) (Nat.le_refl _)
  rw [take_length,take_length] at whole
  rwa [backtrackEdits,length]

end Backtrack

end Keiko.LineDiff
