import Mathlib.Data.List.Basic
import Mathlib.Data.Int.Notation
import Mathlib.Tactic.Common

/-! Scripts that turn one sequence into another by keeping, removing and adding items, and the
greedy search for one: on every diagonal the furthest position reached with a number of edits,
extended over equal items. A position past either end is never where the search ends. -/
namespace Keiko.Library
open List

universe u v

inductive EditMove where
  | keep
  | remove
  | add
  deriving DecidableEq, Repr

section Scripts

variable {α : Type u} {β : Type v}

inductive Aligned : List EditMove → List α → List α → Prop where
  | nil : Aligned [] [] []
  | keep {moves : List EditMove} {old new : List α} (item : α) (rest : Aligned moves old new) :
      Aligned (.keep :: moves) (item :: old) (item :: new)
  | remove {moves : List EditMove} {old new : List α} (item : α) (rest : Aligned moves old new) :
      Aligned (.remove :: moves) (item :: old) new
  | add {moves : List EditMove} {old new : List α} (item : α) (rest : Aligned moves old new) :
      Aligned (.add :: moves) old (item :: new)

variable {first second : List EditMove} {old new oldRest newRest : List α}

theorem Aligned.append (start : Aligned first old new) (rest : Aligned second oldRest newRest) :
    Aligned (first ++ second) (old ++ oldRest) (new ++ newRest) := by
  induction start with
  | nil => exact rest
  | keep item _ ih => exact .keep item ih
  | remove item _ ih => exact .remove item ih
  | add item _ ih => exact .add item ih

theorem Aligned.map (f : α → β) (aligned : Aligned first old new) : Aligned first (old.map f) (new.map f) := by
  induction aligned with
  | nil => exact .nil
  | keep item _ ih => exact .keep (f item) ih
  | remove item _ ih => exact .remove (f item) ih
  | add item _ ih => exact .add (f item) ih

end Scripts

section Diagonals

structure OnDiagonal (d : Nat) (k : ℤ) : Prop where
  lower : -(d : ℤ) ≤ k
  upper : k ≤ d
  parity : (d + k) % 2 = 0

def MovesDown (d : Nat) (k : ℤ) (left right : Nat) : Prop := k = -d ∨ (k ≠ d ∧ left < right)

instance (d : Nat) (k : ℤ) (left right : Nat) : Decidable (MovesDown d k left right) :=
  inferInstanceAs (Decidable (_ ∨ _))

def entry (d : Nat) (k : ℤ) (left right : Nat) : Nat :=
  if MovesDown d k left right then right else left + 1

variable {d : Nat} {k : ℤ} (left right : Nat)

theorem left_lt_entry (mem : k ≠ -d) : left + 1 ≤ entry d k left right := by
  unfold entry
  split
  next down =>
    obtain same | ⟨_,less⟩ := down
    · exact absurd same mem
    · exact less
  next => exact Nat.le_refl _

theorem right_le_entry (mem : k ≠ d) : right ≤ entry d k left right := by
  unfold entry
  split
  next => exact Nat.le_refl _
  next notDown =>
    have notLess : ¬ left < right := fun less => notDown (.inr ⟨mem,less⟩)
    omega

variable {left right}

theorem OnDiagonal.below (on : OnDiagonal (d + 1) k) (down : MovesDown (d + 1) k left right) :
    OnDiagonal d (k + 1) := by
  obtain ⟨lower,upper,parity⟩ := on
  have mem : k ≠ (d + 1 : Nat) := by
    obtain same | ⟨mem,_⟩ := down
    · omega
    · exact mem
  exact ⟨by omega,by omega,by omega⟩

theorem OnDiagonal.above (on : OnDiagonal (d + 1) k) (notDown : ¬ MovesDown (d + 1) k left right) :
    OnDiagonal d (k - 1) := by
  obtain ⟨lower,upper,parity⟩ := on
  have mem : k ≠ -(d + 1 : Nat) := fun same => notDown (.inl same)
  exact ⟨by omega,by omega,by omega⟩

end Diagonals

section Search

variable {α : Type u} (a b : List α)

def SameAt (x : Nat) (y : ℤ) : Prop := ∃ (j : Nat) (item : α), y = j ∧ a[x]? = some item ∧ b[j]? = some item

structure Snake (k : ℤ) (start stop : Nat) : Prop where
  le : start ≤ stop
  same : ∀ x, start ≤ x → x < stop → SameAt a b x (x - k)

structure FullSnake (k : ℤ) (start stop : Nat) : Prop extends Snake a b k start stop where
  stuck : ¬ SameAt a b stop (stop - k)

inductive Reaches : Nat → Nat → Nat → Prop where
  | start : Reaches 0 0 0
  | keep {d x y : Nat} (before : Reaches d x y) (same : SameAt a b x y) : Reaches d (x + 1) (y + 1)
  | remove {d x y : Nat} (before : Reaches d x y) : Reaches (d + 1) (x + 1) y
  | add {d x y : Nat} (before : Reaches d x y) : Reaches (d + 1) x (y + 1)

theorem Snake.inside {k : ℤ} {start stop : Nat} (snake : Snake a b k start stop) :
    stop = start ∨ (stop ≤ a.length ∧ (stop : ℤ) - k ≤ b.length) := by
  obtain ⟨le,same⟩ := snake
  by_cases moved : start < stop
  · obtain ⟨j,item,pos,inOld,inNew⟩ := same (stop - 1) (by omega) (by omega)
    obtain ⟨oldBound,_⟩ := List.getElem?_eq_some_iff.mp inOld
    obtain ⟨newBound,_⟩ := List.getElem?_eq_some_iff.mp inNew
    exact .inr ⟨by omega,by omega⟩
  · exact .inl (by omega)

/-- A position is reached with so many edits, by way of the positions noted before each step. -/
def Supported (noted : Nat → ℤ → Nat) : Nat → ℤ → Nat → Prop
  | 0, k, x => k = 0 ∧ noted 0 1 = 0 ∧ Snake a b 0 0 x
  | d + 1, k, x =>
    OnDiagonal (d + 1) k ∧ Snake a b k (entry (d + 1) k (noted (d + 1) (k - 1)) (noted (d + 1) (k + 1))) x ∧
      if MovesDown (d + 1) k (noted (d + 1) (k - 1)) (noted (d + 1) (k + 1)) then
        Supported noted d (k + 1) (noted (d + 1) (k + 1))
      else Supported noted d (k - 1) (noted (d + 1) (k - 1))

/-- What a step of the search leaves behind: supported positions, none of them past both ends, and
on every diagonal the furthest one. A position past one end has a neighbour that is hardly less
far, so that the search would have ended there first. -/
structure Level (noted : Nat → ℤ → Nat) (d : Nat) (reached : ℤ → Nat) : Prop where
  supported : ∀ k, OnDiagonal d k → Supported a b noted d k (reached k)
  unfinished : ∀ k, OnDiagonal d k → ¬ (a.length ≤ reached k ∧ (b.length : ℤ) ≤ reached k - k)
  low : ∀ k, OnDiagonal d k → (b.length : ℤ) < reached k - k → OnDiagonal d (k + 2) ∧ reached k + 1 ≤ reached (k + 2)
  high : ∀ k, OnDiagonal d k → a.length < reached k → OnDiagonal d (k - 2) ∧ reached k ≤ reached (k - 2) + 1
  furthest : ∀ x y : Nat, Reaches a b d x y → x ≤ reached (x - y)

variable {a b} {noted : Nat → ℤ → Nat} {d : Nat} {k : ℤ} {x : Nat} {reached next : ℤ → Nat}

theorem Reaches.onDiagonal {y : Nat} (reaches : Reaches a b d x y) : OnDiagonal d (x - y) := by
  induction reaches with
  | start => exact ⟨by omega,by omega,by omega⟩
  | keep _ _ ih =>
    obtain ⟨lower,upper,parity⟩ := ih
    exact ⟨by omega,by omega,by omega⟩
  | remove _ ih =>
    obtain ⟨lower,upper,parity⟩ := ih
    exact ⟨by omega,by omega,by omega⟩
  | add _ ih =>
    obtain ⟨lower,upper,parity⟩ := ih
    exact ⟨by omega,by omega,by omega⟩

theorem FullSnake.keep {start stop y : Nat} (snake : FullSnake a b k start stop)
    (diagonal : (x : ℤ) - y = k) (same : SameAt a b x y) (le : x ≤ stop) : x + 1 ≤ stop := by
  by_contra past
  obtain rfl : x = stop := by omega
  have pos : (x : ℤ) - k = y := by omega
  exact snake.stuck (pos ▸ same)

theorem Supported.diagonal_le (supported : Supported a b noted d k x) : k ≤ x := by
  induction d generalizing k x with
  | zero =>
    obtain ⟨rfl,_⟩ := supported
    omega
  | succ d ih =>
    obtain ⟨_,⟨le,_⟩,pre⟩ := supported
    unfold entry at le
    split at pre
    next down =>
      rw [if_pos down] at le
      have early := ih pre
      omega
    next notDown =>
      rw [if_neg notDown] at le
      have early := ih pre
      omega

theorem Level.entered_low (level : Level a b noted d reached) (on : OnDiagonal (d + 1) k)
    (past : (b.length : ℤ) < entry (d + 1) k (reached (k - 1)) (reached (k + 1)) - k) :
    MovesDown (d + 1) k (reached (k - 1)) (reached (k + 1)) := by
  by_contra notDown
  rw [entry,if_neg notDown] at past
  obtain ⟨onNext,further⟩ := level.low (k - 1) (on.above notDown) (by omega)
  have shifted : k - 1 + 2 = k + 1 := by omega
  rw [shifted] at onNext further
  have upper := onNext.upper
  have mem : k ≠ (d + 1 : Nat) := by omega
  exact notDown (.inr ⟨mem,further⟩)

theorem Level.finish (level : Level a b noted d reached) (on : OnDiagonal (d + 1) k)
    (snake : Snake a b k (entry (d + 1) k (reached (k - 1)) (reached (k + 1))) x)
    (oldEnd : a.length ≤ x) (newEnd : (b.length : ℤ) ≤ x - k) :
    x = a.length ∧ (x : ℤ) - k = b.length := by
  obtain still | ⟨oldInside,newInside⟩ := snake.inside
  · by_cases down : MovesDown (d + 1) k (reached (k - 1)) (reached (k + 1))
    · have entered : x = reached (k + 1) := by rw [still,entry,if_pos down]
      have onNext := on.below down
      have unended := level.unfinished (k + 1) onNext
      have oldInside : ¬ a.length < x := by
        intro past
        obtain ⟨onLower,near⟩ := level.high (k + 1) onNext (by omega)
        have shifted : k + 1 - 2 = k - 1 := by omega
        rw [shifted] at onLower near
        exact level.unfinished (k - 1) onLower ⟨by omega,by omega⟩
      by_contra differ
      exact unended ⟨by omega,by omega⟩
    · have entered : x = reached (k - 1) + 1 := by rw [still,entry,if_neg down]
      have notLow : ¬ (b.length : ℤ) < x - k := by
        intro past
        rw [still] at past
        exact down (level.entered_low on past)
      by_contra differ
      exact level.unfinished (k - 1) (on.above down) ⟨by omega,by omega⟩
  · exact ⟨by omega,by omega⟩

theorem Level.support (level : Level a b noted d reached)
    (read : ∀ k, -(d + 2 : ℤ) ≤ k → k ≤ d + 2 → noted (d + 1) k = reached k)
    (on : OnDiagonal (d + 1) k)
    (snake : Snake a b k (entry (d + 1) k (reached (k - 1)) (reached (k + 1))) x) :
    Supported a b noted (d + 1) k x := by
  have lower := on.lower
  have upper := on.upper
  rw [Supported,read (k - 1) (by omega) (by omega),read (k + 1) (by omega) (by omega)]
  refine ⟨on,snake,?_⟩
  split
  next down => exact level.supported (k + 1) (on.below down)
  next notDown => exact level.supported (k - 1) (on.above notDown)

theorem Level.extend (level : Level a b noted d reached) (moved : ∀ k, OnDiagonal (d + 1) k →
      FullSnake a b k (entry (d + 1) k (reached (k - 1)) (reached (k + 1))) (next k)) :
    ∀ x y : Nat, Reaches a b (d + 1) x y → x ≤ next (x - y) := by
  intro x y reaches
  generalize edits : d + 1 = e at reaches
  induction reaches with
  | start => exact absurd edits (Nat.succ_ne_zero d)
  | @keep e x y pre same ih =>
    subst edits
    have on := pre.onDiagonal
    have diagonal : ((x + 1 : Nat) : ℤ) - (y + 1 : Nat) = x - y := by omega
    rw [diagonal]
    exact (moved _ on).keep rfl same (ih rfl)
  | @remove e x y pre ih =>
    obtain rfl := Nat.succ.inj edits
    have on := pre.remove.onDiagonal
    have lower := pre.onDiagonal.lower
    have came : ((x + 1 : Nat) : ℤ) - y - 1 = x - y := by omega
    have further := level.furthest x y pre
    have entered := left_lt_entry (d := d + 1) (k := (x + 1 : Nat) - y)
      (reached ((x + 1 : Nat) - y - 1)) (reached ((x + 1 : Nat) - y + 1)) (by omega)
    rw [came] at entered
    have le := (moved _ on).le
    rw [came] at le
    omega
  | @add e x y pre ih =>
    obtain rfl := Nat.succ.inj edits
    have on := pre.add.onDiagonal
    have upper := pre.onDiagonal.upper
    have came : (x : ℤ) - (y + 1 : Nat) + 1 = x - y := by omega
    have further := level.furthest x y pre
    have entered := right_le_entry (d := d + 1) (k := x - (y + 1 : Nat))
      (reached (x - (y + 1 : Nat) - 1)) (reached (x - (y + 1 : Nat) + 1)) (by omega)
    rw [came] at entered
    have le := (moved _ on).le
    rw [came] at le
    omega

theorem Level.not_reaches (level : Level a b noted d reached) : ¬ Reaches a b d a.length b.length := by
  intro reaches
  have far := level.furthest _ _ reaches
  exact level.unfinished _ reaches.onDiagonal ⟨far,by omega⟩

theorem Level.advance (level : Level a b noted d reached)
    (read : ∀ k, -(d + 2 : ℤ) ≤ k → k ≤ d + 2 → noted (d + 1) k = reached k)
    (moved : ∀ k, OnDiagonal (d + 1) k → FullSnake a b k (entry (d + 1) k (reached (k - 1)) (reached (k + 1))) (next k))
    (unfinished : ∀ k, OnDiagonal (d + 1) k → ¬ (a.length ≤ next k ∧ (b.length : ℤ) ≤ next k - k)) :
    Level a b noted (d + 1) next := by
  refine ⟨?_,unfinished,?_,?_,level.extend moved⟩
  · intro k on
    exact level.support read on (moved k on).toSnake
  · intro k on past
    have still : next k = entry (d + 1) k (reached (k - 1)) (reached (k + 1)) := by
      obtain still | ⟨_,inside⟩ := (moved k on).inside
      · exact still
      · omega
    rw [still] at past
    have down := level.entered_low on past
    have onBelow := on.below down
    have entered : next k = reached (k + 1) := by rw [still,entry,if_pos down]
    obtain ⟨lower,upper,parity⟩ := on
    obtain ⟨lowerBelow,upperBelow,parityBelow⟩ := onBelow
    have onNext : OnDiagonal (d + 1) (k + 2) := ⟨by omega,by omega,by omega⟩
    refine ⟨onNext,?_⟩
    have further := (moved (k + 2) onNext).le
    have shifted : k + 2 - 1 = k + 1 := by omega
    rw [shifted] at further
    rw [entered]
    exact Nat.le_trans (left_lt_entry _ _ (by omega)) further
  · have reaches (k : ℤ) (onNext : OnDiagonal (d + 1) (k - 2)) (inside : k - 2 ≠ (d + 1 : Nat)) :
        reached (k - 1) ≤ next (k - 2) := by
      have further := (moved (k - 2) onNext).le
      have shifted : k - 2 + 1 = k - 1 := by omega
      rw [shifted] at further
      exact Nat.le_trans (right_le_entry _ _ inside) further
    intro k on past
    have still : next k = entry (d + 1) k (reached (k - 1)) (reached (k + 1)) := by
      obtain still | ⟨inside,_⟩ := (moved k on).inside
      · exact still
      · omega
    by_cases down : MovesDown (d + 1) k (reached (k - 1)) (reached (k + 1))
    · have entered : next k = reached (k + 1) := by rw [still,entry,if_pos down]
      rw [entered] at past ⊢
      obtain ⟨onLower,near⟩ := level.high (k + 1) (on.below down) past
      have shifted : k + 1 - 2 = k - 1 := by omega
      rw [shifted] at onLower near
      obtain ⟨lower,upper,parity⟩ := on
      obtain ⟨lowerLower,upperLower,parityLower⟩ := onLower
      have onNext : OnDiagonal (d + 1) (k - 2) := ⟨by omega,by omega,by omega⟩
      have far := reaches k onNext (by omega)
      exact ⟨onNext,by omega⟩
    · have entered : next k = reached (k - 1) + 1 := by rw [still,entry,if_neg down]
      have onAbove := on.above down
      rw [entered]
      obtain ⟨lower,upper,parity⟩ := on
      obtain ⟨lowerAbove,upperAbove,parityAbove⟩ := onAbove
      have onNext : OnDiagonal (d + 1) (k - 2) := ⟨by omega,by omega,by omega⟩
      have far := reaches k onNext (by omega)
      exact ⟨onNext,by omega⟩

theorem Level.begin (start : noted 0 1 = 0) (moved : FullSnake a b 0 0 (reached 0))
    (unfinished : ¬ (a.length ≤ reached 0 ∧ (b.length : ℤ) ≤ reached 0)) :
    Level a b noted 0 reached := by
  have only {k : ℤ} (on : OnDiagonal 0 k) : k = 0 := by
    obtain ⟨lower,upper,_⟩ := on
    omega
  refine ⟨?_,?_,?_,?_,?_⟩
  · intro k on
    obtain rfl := only on
    exact ⟨rfl,start,moved.toSnake⟩
  · intro k on
    obtain rfl := only on
    simpa using unfinished
  · intro k on past
    obtain rfl := only on
    obtain still | ⟨_,mem⟩ := moved.inside <;> omega
  · intro k on past
    obtain rfl := only on
    obtain still | ⟨mem,_⟩ := moved.inside <;> omega
  · intro x y reaches
    rw [only reaches.onDiagonal]
    generalize edits : 0 = e at reaches
    induction reaches with
    | start => exact Nat.zero_le _
    | @keep e x y pre same ih =>
      subst edits
      exact moved.keep (only pre.onDiagonal) same (ih rfl)
    | remove => exact absurd edits.symm (Nat.succ_ne_zero _)
    | add => exact absurd edits.symm (Nat.succ_ne_zero _)

section Walk

variable {moves : List EditMove} {y : Nat}

theorem Aligned.removes (aligned : Aligned moves (a.take x) (b.take y)) (mem : x < a.length) :
    Aligned (moves ++ [.remove]) (a.take (x + 1)) (b.take y) := by
  have step := aligned.append (.remove a[x] .nil)
  rwa [append_nil,← take_succ_eq_append_getElem mem] at step

theorem Aligned.adds (aligned : Aligned moves (a.take x) (b.take y)) (mem : y < b.length) :
    Aligned (moves ++ [.add]) (a.take x) (b.take (y + 1)) := by
  have step := aligned.append (.add b[y] .nil)
  rwa [append_nil,← take_succ_eq_append_getElem mem] at step

theorem Aligned.keeps (aligned : Aligned moves (a.take x) (b.take y)) (same : SameAt a b x y) :
    Aligned (moves ++ [.keep]) (a.take (x + 1)) (b.take (y + 1)) := by
  obtain ⟨j,item,pos,inOld,inNew⟩ := same
  obtain rfl : y = j := Int.ofNat_inj.mp pos
  obtain ⟨oldInside,old⟩ := List.getElem?_eq_some_iff.mp inOld
  obtain ⟨newInside,new⟩ := List.getElem?_eq_some_iff.mp inNew
  have step := aligned.append (.keep item .nil)
  rw [take_succ_eq_append_getElem oldInside,take_succ_eq_append_getElem newInside,old,new]
  exact step

theorem Aligned.snake {start stop : Nat} (aligned : Aligned moves (a.take start) (b.take y))
    (snake : Snake a b k start stop) (pos : (y : ℤ) = start - k) :
    Aligned (moves ++ List.replicate (stop - start) .keep) (a.take stop) (b.take (y + (stop - start))) := by
  obtain ⟨le,same⟩ := snake
  obtain ⟨more,rfl⟩ := Nat.exists_eq_add_of_le le
  rw [Nat.add_sub_cancel_left]
  clear le
  induction more with
  | zero => simpa using aligned
  | succ more ih =>
    have here := same (start + more) (by omega) (by omega)
    have shifted : ((start + more : Nat) : ℤ) - k = (y + more : Nat) := by omega
    rw [shifted] at here
    have step := (ih fun x above below => same x above (by omega)).keeps here
    rwa [append_assoc,← replicate_succ'] at step

end Walk

end Search

end Keiko.Library
