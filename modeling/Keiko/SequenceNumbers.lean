import Keiko.Library.Distinct
import Keiko.Library.Number
import Mathlib.Data.List.Perm.Basic
import Mathlib.Tactic.Ring

/-! The sequence numbers that one process has written. The run that starts at the first safe value
is kept as its two bounds; every other value is held by itself until the run reaches it. What the
set answers is what a plain set of the same values answers. -/
namespace Keiko.SequenceNumbers
open Keiko.Library List

section Values

def maxSafeInteger : ℤ := 2 ^ 53 - 1

/-- The value of a number for which `Number.isSafeInteger` holds. -/
def safeInteger : Number → Option ℤ
  | .finite value => if value.den = 1 ∧ |value.num| ≤ maxSafeInteger then some value.num else none
  | _ => none

def ofInteger (n : ℤ) : Number := .finite n

variable {n m : ℤ} {value : Number}

@[simp] theorem ofInteger_inj : ofInteger n = ofInteger m ↔ n = m := by
  simp [ofInteger]

theorem safeInteger_eq_some : safeInteger value = some n ↔ value = ofInteger n ∧ |n| ≤ maxSafeInteger := by
  cases value with
  | finite value =>
    rw [safeInteger,ofInteger,Number.finite.injEq]
    constructor
    · intro hit
      split at hit
      next safe =>
        cases hit
        exact ⟨((Rat.den_eq_one_iff value).mp safe.1).symm,safe.2⟩
      next => cases hit
    · intro ⟨same,bound⟩
      subst same
      exact if_pos ⟨Rat.den_intCast n,bound⟩
  | infinity => simp [safeInteger,ofInteger]
  | negInfinity => simp [safeInteger,ofInteger]
  | nan => simp [safeInteger,ofInteger]

end Values

section Runs

structure Run where
  low : ℤ
  high : ℤ
  ordered : low ≤ high
  safeLow : -maxSafeInteger ≤ low
  safeHigh : high ≤ maxSafeInteger

def Run.Covers (run : Run) (value : Number) : Prop :=
  ∃ n : ℤ, value = ofInteger n ∧ run.low ≤ n ∧ n ≤ run.high

def inRun : Option Run → Number → Bool
  | some run, .finite value => decide (value.den = 1 ∧ (run.low : ℚ) ≤ value ∧ value ≤ run.high)
  | _, _ => false

variable {run : Run} {value : Number} {n : ℤ}

theorem inRun_iff : inRun (some run) value = true ↔ run.Covers value := by
  cases value with
  | finite value =>
    rw [inRun,decide_eq_true_iff]
    constructor
    · intro ⟨whole,low,high⟩
      rw [← (Rat.den_eq_one_iff value).mp whole] at low high
      refine ⟨value.num,?_,by exact_mod_cast low,by exact_mod_cast high⟩
      rw [ofInteger,(Rat.den_eq_one_iff value).mp whole]
    · intro ⟨n,same,low,high⟩
      cases same
      exact ⟨Rat.den_intCast n,by exact_mod_cast low,by exact_mod_cast high⟩
  | infinity => simp [inRun,Run.Covers,ofInteger]
  | negInfinity => simp [inRun,Run.Covers,ofInteger]
  | nan => simp [inRun,Run.Covers,ofInteger]

theorem covers_ofInteger : run.Covers (ofInteger n) ↔ run.low ≤ n ∧ n ≤ run.high := by
  constructor
  · intro ⟨m,same,bounds⟩
    rw [ofInteger_inj] at same
    subst same
    exact bounds
  · intro bounds
    exact ⟨n,rfl,bounds⟩

def absorb (high : ℤ) (outside : List Number) : ℤ × List Number :=
  if high < maxSafeInteger ∧ ofInteger (high + 1) ∈ outside then
    absorb (high + 1) (outside.erase (ofInteger (high + 1)))
  else (high,outside)
termination_by outside.length
decreasing_by
  rename_i next
  have smaller := List.length_erase_of_mem next.2
  have some_held := List.length_pos_of_mem next.2
  omega

/-- What is absorbed is what the run gains. -/
structure Absorbs (high : ℤ) (outside : List Number) (result : ℤ × List Number) : Prop where
  grows : high ≤ result.1
  safe : high ≤ maxSafeInteger → result.1 ≤ maxSafeInteger
  once : result.2.Nodup
  mem : ∀ value, value ∈ outside ↔ value ∈ result.2 ∨ ∃ n, value = ofInteger n ∧ high < n ∧ n ≤ result.1
  apart : ∀ n, ofInteger n ∈ result.2 → ¬ (high < n ∧ n ≤ result.1)

theorem absorb_absorbs (high : ℤ) {outside : List Number} (once : outside.Nodup) :
    Absorbs high outside (absorb high outside) := by
  induction high, outside using absorb.induct with
  | case1 high outside next ih =>
    obtain ⟨grows,safe,nodup,mem,apart⟩ := ih (once.erase _)
    rw [absorb,if_pos next]
    refine ⟨by omega,fun _ => safe (by omega),nodup,?_,?_⟩
    · intro value
      have erased := once.mem_erase_iff (a := value) (b := ofInteger (high + 1))
      constructor
      · intro member
        by_cases same : value = ofInteger (high + 1)
        · exact .inr ⟨high + 1,same,by omega,grows⟩
        · obtain kept | ⟨n,rfl,above,below⟩ := (mem value).mp (erased.mpr ⟨same,member⟩)
          · exact .inl kept
          · exact .inr ⟨n,rfl,by omega,below⟩
      · intro gained
        obtain kept | ⟨n,rfl,above,below⟩ := gained
        · exact (erased.mp ((mem value).mpr (.inl kept))).2
        · by_cases first : n = high + 1
          · rw [first]
            exact next.2
          · exact (erased.mp ((mem _).mpr (.inr ⟨n,rfl,by omega,below⟩))).2
    · intro n held ⟨above,below⟩
      by_cases first : n = high + 1
      · subst first
        exact (once.mem_erase_iff.mp ((mem _).mpr (.inl held))).1 rfl
      · exact apart n held ⟨by omega,below⟩
  | case2 high outside stop =>
    rw [absorb,if_neg stop]
    refine ⟨le_refl high,id,once,?_,by omega⟩
    intro value
    constructor
    · exact .inl
    · intro held
      obtain held | ⟨n,_,above,below⟩ := held
      · exact held
      · omega

end Runs

structure SequenceNumberSet where
  run : Option Run
  outside : List Number
  once : outside.Nodup
  apart : ∀ value ∈ outside, inRun run value = false

namespace SequenceNumberSet

def empty : SequenceNumberSet := ⟨none,[],List.nodup_nil,fun _ member => by cases member⟩

variable (set : SequenceNumberSet) (value : Number)

def has : Bool := inRun set.run value || decide (value ∈ set.outside)

def outsideRunCount : Nat := set.outside.length

def hold (fresh : set.has value = false) : SequenceNumberSet where
  run := set.run
  outside := set.outside ++ [value]
  once := by
    rw [has,Bool.or_eq_false_iff,decide_eq_false_iff_not] at fresh
    exact set.once.append (List.nodup_singleton value) (by simpa using fresh.2)
  apart := by
    intro other member
    rw [has,Bool.or_eq_false_iff] at fresh
    rcases List.mem_append.mp member with old | new
    · exact set.apart other old
    · rw [List.mem_singleton.mp new]
      exact fresh.1

def startRun (n : ℤ) (safe : |n| ≤ maxSafeInteger) (fresh : set.has (ofInteger n) = false) : SequenceNumberSet where
  run := some ⟨n,n,le_refl n,(abs_le.mp safe).1,(abs_le.mp safe).2⟩
  outside := set.outside
  once := set.once
  apart := by
    intro other member
    rw [Bool.eq_false_iff,Ne,inRun_iff]
    intro ⟨m,same,low,high⟩
    rw [has,Bool.or_eq_false_iff,decide_eq_false_iff_not] at fresh
    obtain rfl := le_antisymm high low
    exact fresh.2 (same ▸ member)

def extendRun (run : Run) (current : set.run = some run) (room : run.high + 1 ≤ maxSafeInteger)
    (fresh : set.has (ofInteger (run.high + 1)) = false) : SequenceNumberSet where
  run := some ⟨run.low,(absorb (run.high + 1) set.outside).1,by
      have grows := (absorb_absorbs (run.high + 1) set.once).grows
      have ordered := run.ordered
      omega,run.safeLow,(absorb_absorbs _ set.once).safe room⟩
  outside := (absorb (run.high + 1) set.outside).2
  once := (absorb_absorbs _ set.once).once
  apart := by
    obtain ⟨grows,_,_,mem,apart⟩ := absorb_absorbs (run.high + 1) set.once
    intro other member
    rw [Bool.eq_false_iff,Ne,inRun_iff]
    intro ⟨n,same,low,high⟩
    subst same
    rw [has,Bool.or_eq_false_iff,decide_eq_false_iff_not] at fresh
    have held := (mem _).mpr (Or.inl member)
    rcases lt_trichotomy n (run.high + 1) with below | next | above
    · have free := set.apart _ held
      rw [current,Bool.eq_false_iff,Ne,inRun_iff,covers_ofInteger] at free
      exact free ⟨low,by omega⟩
    · rw [next] at held
      exact fresh.2 held
    · exact apart n member ⟨above,high⟩

def add : SequenceNumberSet :=
  if known : set.has value = true then set
  else
    have fresh : set.has value = false := Bool.eq_false_iff.mpr known
    match integer : safeInteger value with
    | none => set.hold value fresh
    | some n =>
      have same := (safeInteger_eq_some.mp integer).1
      have safe := (safeInteger_eq_some.mp integer).2
      match current : set.run with
      | none => set.startRun n safe (same ▸ fresh)
      | some run =>
        if next : n = run.high + 1 then set.extendRun run current (next ▸ (abs_le.mp safe).2) (next ▸ same ▸ fresh)
        else set.hold value fresh

def addAll (values : List Number) : SequenceNumberSet := values.foldl add empty

variable {set : SequenceNumberSet} {value other : Number}

theorem has_iff : set.has value = true ↔ (∃ run, set.run = some run ∧ run.Covers value) ∨ value ∈ set.outside := by
  rw [has,Bool.or_eq_true,decide_eq_true_iff]
  apply or_congr_left
  cases set.run with
  | none => simp [inRun]
  | some run => simp [inRun_iff]

theorem has_hold (fresh : set.has value = false) :
    (set.hold value fresh).has other = true ↔ set.has other = true ∨ other = value := by
  rw [has_iff,has_iff,or_assoc]
  apply or_congr_right
  change other ∈ set.outside ++ [value] ↔ _
  rw [mem_append,mem_singleton]

theorem has_startRun {n : ℤ} (safe : |n| ≤ maxSafeInteger) (fresh : set.has (ofInteger n) = false)
    (a : set.run = none) :
    (set.startRun n safe fresh).has other = true ↔ set.has other = true ∨ other = ofInteger n := by
  have covers : (∃ run, (set.startRun n safe fresh).run = some run ∧ run.Covers other) ↔ other = ofInteger n := by
    constructor
    · intro ⟨run,same,m,named,low,high⟩
      cases same
      rw [named,le_antisymm high low]
    · intro same
      exact ⟨_,rfl,n,same,le_refl n,le_refl n⟩
  have outside : (set.startRun n safe fresh).outside = set.outside := rfl
  rw [has_iff,has_iff,covers,a,outside]
  simp [or_comm]

theorem has_extendRun {run : Run} (cur : set.run = some run)
    (room : run.high + 1 ≤ maxSafeInteger) (fresh : set.has (ofInteger (run.high + 1)) = false) :
    (set.extendRun run cur room fresh).has other = true ↔
      set.has other = true ∨ other = ofInteger (run.high + 1) := by
  obtain ⟨grows,_,_,mem,_⟩ := absorb_absorbs (run.high + 1) set.once
  rw [has_iff,has_iff]
  constructor
  · intro held
    obtain ⟨next,same,n,rfl,low,high⟩ | held := held
    · cases same
      rcases lt_trichotomy n (run.high + 1) with below | reached | above
      · exact .inl (.inl ⟨run,cur,n,rfl,low,by omega⟩)
      · rw [reached]
        exact .inr rfl
      · exact .inl (.inr ((mem _).mpr (.inr ⟨n,rfl,above,high⟩)))
    · exact .inl (.inr ((mem other).mpr (.inl held)))
  · intro held
    obtain (⟨old,same,n,rfl,low,high⟩ | held) | rfl := held
    · rw [cur] at same
      cases same
      exact .inl ⟨_,rfl,n,rfl,low,le_trans high (by change run.high ≤ (absorb _ _).1; omega)⟩
    · obtain kept | ⟨n,rfl,above,high⟩ := (mem other).mp held
      · exact .inr kept
      · refine .inl ⟨_,rfl,n,rfl,?_,high⟩
        change run.low ≤ n
        have ordered := run.ordered
        omega
    · refine .inl ⟨_,rfl,run.high + 1,rfl,?_,grows⟩
      change run.low ≤ run.high + 1
      have ordered := run.ordered
      omega

theorem has_add : (set.add value).has other = true ↔ set.has other = true ∨ other = value := by
  unfold add
  split
  next known =>
    constructor
    · exact .inl
    · intro held
      obtain held | rfl := held
      · exact held
      · exact known
  next fresh =>
    simp only
    split
    · exact has_hold _
    next n integer =>
      obtain ⟨rfl,safe⟩ := safeInteger_eq_some.mp integer
      split
      next first => exact has_startRun _ _ first
      next run cur =>
        split
        next reached =>
          subst reached
          exact has_extendRun cur _ _
        next => exact has_hold _

end SequenceNumberSet

open SequenceNumberSet

/-- A plain `Set` that is given the values. -/
def plainSet (values : List Number) : List Number := Distinct.collect (fun _ => true) [] values

theorem has_addAll (values : List Number) (value : Number) :
    (addAll values).has value = decide (value ∈ plainSet values) := by
  rw [Bool.eq_iff_iff,decide_eq_true_iff,plainSet,Distinct.mem_collect]
  induction values using reverseRecOn with
  | nil => simp [addAll,has,inRun,SequenceNumberSet.empty]
  | append_singleton values last ih =>
    have step : addAll (values ++ [last]) = (addAll values).add last := by
      rw [addAll,foldl_append]
      rfl
    rw [step,has_add,ih,mem_append,mem_singleton]
    simp

def consecutive (first : ℤ) (count : Nat) : List Number :=
  (List.range count).map fun i : Nat => ofInteger (first + i)

theorem consecutive_succ (a : ℤ) (count : Nat) :
    consecutive a (count + 1) = consecutive a count ++ [ofInteger (a + count)] := by
  rw [consecutive,range_succ,map_append]
  rfl

def SequenceNumberSet.IsRun (set : SequenceNumberSet) (low high : ℤ) : Prop :=
  set.outside = [] ∧ ∃ run, set.run = some run ∧ run.low = low ∧ run.high = high

theorem isRun_first {a : ℤ} (safe : |a| ≤ maxSafeInteger) :
    (SequenceNumberSet.empty.add (ofInteger a)).IsRun a a := by
  have integer : safeInteger (ofInteger a) = some a := safeInteger_eq_some.mpr ⟨rfl,safe⟩
  have fresh : SequenceNumberSet.empty.has (ofInteger a) = false := rfl
  unfold add
  rw [dif_neg (by rw [fresh]; exact Bool.false_ne_true)]
  simp only
  split
  next none_safe =>
    rw [integer] at none_safe
    cases none_safe
  next n hit =>
    rw [integer] at hit
    cases hit
    split
    next => exact ⟨rfl,_,rfl,rfl,rfl⟩
    next run cur => cases cur

theorem isRun_next {set : SequenceNumberSet} {low high : ℤ} (held : set.IsRun low high)
    (safe : |high + 1| ≤ maxSafeInteger) : (set.add (ofInteger (high + 1))).IsRun low (high + 1) := by
  obtain ⟨none_outside,run,cur,rfl,rfl⟩ := held
  have integer : safeInteger (ofInteger (run.high + 1)) = some (run.high + 1) :=
    safeInteger_eq_some.mpr ⟨rfl,safe⟩
  have fresh : ¬ set.has (ofInteger (run.high + 1)) = true := by
    rw [has_iff,none_outside]
    intro known
    obtain ⟨other,same,covers⟩ | mem := known
    · rw [cur] at same
      cases same
      have bounds := covers_ofInteger.mp covers
      omega
    · cases mem
  have stops : absorb (run.high + 1) set.outside = (run.high + 1,[]) := by
    rw [none_outside,absorb,if_neg]
    intro ⟨_,mem⟩
    cases mem
  unfold add
  rw [dif_neg fresh]
  simp only
  split
  next none_safe =>
    rw [integer] at none_safe
    cases none_safe
  next n hit =>
    rw [integer] at hit
    cases hit
    split
    next first =>
      rw [cur] at first
      cases first
    next other same =>
      rw [cur] at same
      cases same
      rw [dif_pos rfl]
      refine ⟨congrArg Prod.snd stops,_,rfl,rfl,congrArg Prod.fst stops⟩

theorem addAll_consecutive {a : ℤ} {count : Nat} (low : -maxSafeInteger ≤ a)
    (high : a + count ≤ maxSafeInteger) :
    (addAll (consecutive a (count + 1))).IsRun a (a + count) := by
  induction count with
  | zero =>
    simp only [Nat.cast_zero,add_zero] at high ⊢
    rw [consecutive_succ]
    have one := isRun_first (abs_le.mpr ⟨low,high⟩)
    simpa [consecutive,addAll] using one
  | succ count ih =>
    push_cast at high ⊢
    have pre := ih (by omega)
    have next := isRun_next pre (abs_le.mpr ⟨by omega,by omega⟩)
    rw [consecutive_succ,addAll,foldl_append]
    push_cast
    rw [← add_assoc]
    exact next

/-- The set answers as a plain set does, holds by themselves only values outside its run, and none
of values that follow one another. -/
theorem sequenceNumberSet_agrees (values : List Number) :
    (∀ value, (addAll values).has value = decide (value ∈ plainSet values)) ∧
      (∀ value ∈ (addAll values).outside, inRun (addAll values).run value = false) ∧
      ∀ (first : ℤ) (count : Nat), values = consecutive first count → -maxSafeInteger ≤ first →
        first + count ≤ maxSafeInteger + 1 → (addAll values).outsideRunCount = 0 := by
  refine ⟨has_addAll values,(addAll values).apart,?_⟩
  intro first count same low high
  subst same
  cases count with
  | zero => rfl
  | succ count =>
    push_cast at high
    rw [outsideRunCount,(addAll_consecutive low (by omega)).1]
    rfl

/-- The three values before and at the end of the safe range. -/
theorem sequenceNumberSet_agrees_sample :
    (addAll (consecutive (maxSafeInteger - 2) 3)).outsideRunCount = 0 :=
  (sequenceNumberSet_agrees _).2.2 (maxSafeInteger - 2) 3 rfl (by decide) (by decide)

end Keiko.SequenceNumbers
