import Keiko.Library.Machine
import Mathlib.Algebra.Order.Group.Defs
import Mathlib.Algebra.Order.Group.Int
import Mathlib.Algebra.Order.Group.Unbundled.Basic

/-! The rolling-window throttle of the editor's process restarts. It counts the attempts that are
not older than the window, and its two semantics differ in what becomes of a denied attempt: it is
forgotten, or it fills the window as a permitted one does. -/
namespace Keiko.RollingWindow
open Keiko.Library List

inductive DenySemantics where
  | dropOnDeny
  | retainOnDeny
  deriving DecidableEq

structure Limits (τ : Type*) where
  windowMs : τ
  maxInWindow : ℕ

section Throttle

variable {τ : Type*} [AddCommGroup τ] [LinearOrder τ]

def trim (limits : Limits τ) (nowMs : τ) (timestamps : List τ) : List τ :=
  timestamps.filter fun timestamp => decide (nowMs - limits.windowMs < timestamp)

def attemptDropOnDeny (limits : Limits τ) (timestamps : List τ) (nowMs : τ) : Bool × List τ :=
  let timestamps := trim limits nowMs timestamps
  if limits.maxInWindow ≤ timestamps.length then (false,timestamps)
  else (true,timestamps ++ [nowMs])

def attemptRetainOnDeny (limits : Limits τ) (timestamps : List τ) (nowMs : τ) : Bool × List τ :=
  let timestamps := trim limits nowMs (timestamps ++ [nowMs])
  (decide (timestamps.length ≤ limits.maxInWindow),timestamps)

def attempt : DenySemantics → Limits τ → List τ → τ → Bool × List τ
  | .dropOnDeny => attemptDropOnDeny
  | .retainOnDeny => attemptRetainOnDeny

def throttle (semantics : DenySemantics) (limits : Limits τ) : Machine (List τ) τ τ where
  start := []
  step timestamps nowMs := (attempt semantics limits timestamps nowMs).2
  notes timestamps nowMs :=
    if (attempt semantics limits timestamps nowMs).1 then [nowMs] else []

def permitted (semantics : DenySemantics) (limits : Limits τ) (times : List τ) : List τ :=
  (throttle semantics limits).noted times

def permits (semantics : DenySemantics) (limits : Limits τ) (earlier : List τ) (nowMs : τ) : Bool :=
  (attempt semantics limits ((throttle semantics limits).run earlier) nowMs).1

def trailing (limits : Limits τ) (nowMs : τ) (times : List τ) : List τ :=
  times.filter fun time => decide (nowMs - limits.windowMs < time ∧ time ≤ nowMs)

end Throttle

section Runs

variable {τ : Type*} [AddCommGroup τ] [LinearOrder τ] {semantics : DenySemantics}
  {limits : Limits τ} {times earlier : List τ} {nowMs : τ}

theorem permitted_snoc (early : List τ) (nowMs : τ) :
    permitted semantics limits (early ++ [nowMs]) = permitted semantics limits early ++
      if permits semantics limits early nowMs then [nowMs] else [] :=
  Machine.noted_snoc _ early nowMs

theorem permitted_sublist (times : List τ) : (permitted semantics limits times).Sublist times := by
  induction times using reverseRecOn with
  | nil => exact List.Sublist.refl []
  | append_singleton early nowMs ih =>
    rw [permitted_snoc]
    apply ih.append
    split
    · exact List.Sublist.refl [nowMs]
    · exact nil_sublist [nowMs]

theorem trim_append (nowMs : τ) (a b : List τ) :
    trim limits nowMs (a ++ b) = trim limits nowMs a ++ trim limits nowMs b :=
  filter_append a b

theorem trailing_append (nowMs : τ) (a b : List τ) : trailing limits nowMs (a ++ b) =
      trailing limits nowMs a ++ trailing limits nowMs b :=
  filter_append a b

theorem permits_drop_iff : permits .dropOnDeny limits early nowMs = true ↔
    (trim limits nowMs ((throttle .dropOnDeny limits).run early)).length < limits.maxInWindow := by
  unfold permits attempt attemptDropOnDeny
  dsimp only
  split
  case isTrue full => simpa using full
  case isFalse room => simpa using room

theorem permits_retain_iff : permits .retainOnDeny limits early nowMs = true ↔
    (trim limits nowMs ((throttle .retainOnDeny limits).run early ++ [nowMs])).length ≤
      limits.maxInWindow := by
  unfold permits attempt attemptRetainOnDeny
  rw [decide_eq_true_eq]

theorem run_drop_snoc (early : List τ) (last : τ) : (throttle .dropOnDeny limits).run (early ++ [last]) =
      trim limits last ((throttle .dropOnDeny limits).run early) ++
        if permits .dropOnDeny limits early last then [last] else [] := by
  rw [Machine.run_snoc]
  change (attemptDropOnDeny limits _ last).2 = _ ++ if (attemptDropOnDeny limits _ last).1 then [last] else []
  unfold attemptDropOnDeny
  dsimp only
  split
  case isTrue => exact (append_nil _).symm
  case isFalse => rfl

theorem trailing_eq_trim (old : ∀ time ∈ times, time ≤ nowMs) :
    trailing limits nowMs times = trim limits nowMs times := by
  apply filter_congr
  intro time mem
  rw [decide_eq_decide]
  exact and_iff_left (old time mem)

omit [AddCommGroup τ] in
theorem earlier_le (ordered : (early ++ [nowMs]).Pairwise (· ≤ ·)) : ∀ time ∈ early, time ≤ nowMs := by
  intro time mem
  exact (pairwise_append.mp ordered).2.2 time mem nowMs (by simp)

variable [IsOrderedAddMonoid τ]

theorem trim_trim {last : τ} (order : last ≤ nowMs) (timestamps : List τ) :
    trim limits nowMs (trim limits last timestamps) = trim limits nowMs timestamps := by
  unfold trim
  rw [filter_filter]
  congr 1
  ext time
  rw [Bool.and_eq_left_iff_imp]
  intro young
  rw [decide_eq_true_eq] at young ⊢
  exact (sub_le_sub_right order _).trans_lt young

theorem trim_run_drop (ordered : (early ++ [nowMs]).Pairwise (· ≤ ·)) :
    trim limits nowMs ((throttle .dropOnDeny limits).run early) =
      trim limits nowMs (permitted .dropOnDeny limits early) := by
  induction early using reverseRecOn with
  | nil => rfl
  | append_singleton early last ih =>
    have order : last ≤ nowMs := (pairwise_append.mp ordered).2.2 last (by simp) nowMs (by simp)
    have pre : (early ++ [nowMs]).Pairwise (· ≤ ·) :=
      ordered.sublist ((sublist_append_left early [last]).append_right [nowMs])
    rw [run_drop_snoc,permitted_snoc,trim_append,trim_append,trim_trim order,ih pre]

theorem trim_run_retain (ordered : (early ++ [nowMs]).Pairwise (· ≤ ·)) :
    trim limits nowMs ((throttle .retainOnDeny limits).run early) = trim limits nowMs early := by
  induction early using reverseRecOn with
  | nil => rfl
  | append_singleton early last ih =>
    have order : last ≤ nowMs := (pairwise_append.mp ordered).2.2 last (by simp) nowMs (by simp)
    have pre : (early ++ [nowMs]).Pairwise (· ≤ ·) :=
      ordered.sublist ((sublist_append_left early [last]).append_right [nowMs])
    rw [Machine.run_snoc]
    change trim limits nowMs (trim limits last (_ ++ [last])) = _
    rw [trim_trim order,trim_append,trim_append,ih pre]

theorem trim_of_old (old : ∀ time ∈ times, time ≤ nowMs) (short : limits.windowMs ≤ 0) :
    trim limits nowMs times = [] := by
  apply filter_eq_nil_iff.mpr
  intro time mem young
  rw [decide_eq_true_eq] at young
  have late : nowMs ≤ nowMs - limits.windowMs := le_sub_self_iff nowMs |>.mpr short
  exact absurd (late.trans_lt young) (not_lt.mpr (old time mem))

theorem trim_now (long : 0 < limits.windowMs) : trim limits nowMs [nowMs] = [nowMs] := by
  apply filter_eq_self.mpr
  intro time mem
  rw [mem_singleton.mp mem,decide_eq_true_eq]
  exact sub_lt_self nowMs long

theorem permits_drop_of_room (some_window : 0 < limits.windowMs ∨ 0 < limits.maxInWindow)
    (ordered : (early ++ [nowMs]).Pairwise (· ≤ ·)) {counted : List τ}
    (kept : (permitted .dropOnDeny limits early).Sublist counted)
    (old : ∀ time ∈ counted, time ≤ nowMs)
    (room : (trim limits nowMs (counted ++ [nowMs])).length ≤ limits.maxInWindow) :
    permits .dropOnDeny limits early nowMs = true := by
  rw [permits_drop_iff,trim_run_drop ordered]
  have fewer : (trim limits nowMs (permitted .dropOnDeny limits early)).length ≤
      (trim limits nowMs counted).length := (kept.filter _).length_le
  rw [trim_append,length_append] at room
  rcases lt_or_ge 0 limits.windowMs with long | short
  · rw [trim_now long,length_singleton] at room
    omega
  · have nothing := trim_of_old old short
    rw [nothing,length_nil] at fewer
    exact fewer.trans_lt (some_window.resolve_left (not_lt.mpr short))

theorem permits_drop_of_permits_retain (some_window : 0 < limits.windowMs ∨ 0 < limits.maxInWindow)
    (ordered : (early ++ [nowMs]).Pairwise (· ≤ ·))
    (allowed : permits .retainOnDeny limits early nowMs = true) :
    permits .dropOnDeny limits early nowMs = true := by
  apply permits_drop_of_room some_window ordered (permitted_sublist early) (earlier_le ordered)
  rw [permits_retain_iff,trim_append,trim_run_retain ordered,← trim_append] at allowed
  exact allowed

theorem permitted_retain_sublist (some_window : 0 < limits.windowMs ∨ 0 < limits.maxInWindow)
    (ordered : times.Pairwise (· ≤ ·)) :
    (permitted .retainOnDeny limits times).Sublist (permitted .dropOnDeny limits times) := by
  induction times using reverseRecOn with
  | nil => exact List.Sublist.refl []
  | append_singleton early nowMs ih =>
    rw [permitted_snoc,permitted_snoc]
    apply (ih (ordered.sublist (sublist_append_left early [nowMs]))).append
    split
    case isTrue allowed =>
      rw [permits_drop_of_permits_retain some_window ordered allowed]
      exact List.Sublist.refl [nowMs]
    case isFalse => exact nil_sublist _

theorem trailing_drop (ordered : times.Pairwise (· ≤ ·)) (instant : τ) :
    (trailing limits instant (permitted .dropOnDeny limits times)).length ≤ limits.maxInWindow := by
  induction times using reverseRecOn with
  | nil => exact Nat.zero_le _
  | append_singleton early nowMs ih =>
    have fits := ih (ordered.sublist (sublist_append_left early [nowMs]))
    rw [permitted_snoc,trailing_append]
    split
    case isFalse => simpa [trailing] using fits
    case isTrue allowed =>
      rw [length_append]
      by_cases late : nowMs ≤ instant
      · -- all of the window but the attempt itself was counted at the attempt
        rw [permits_drop_iff,trim_run_drop ordered] at allowed
        have counted : (trailing limits instant (permitted .dropOnDeny limits early)).length ≤
            (trim limits nowMs (permitted .dropOnDeny limits early)).length := by
          rw [trailing,trim,← countP_eq_length_filter,← countP_eq_length_filter]
          apply countP_mono_left
          intro time _ inside
          rw [decide_eq_true_eq] at inside ⊢
          exact (sub_le_sub_right late _).trans_lt inside.1
        have one : (trailing limits instant [nowMs]).length ≤ 1 := length_filter_le _ [nowMs]
        omega
      · have absent : trailing limits instant [nowMs] = [] := by
          apply filter_eq_nil_iff.mpr
          intro time mem inside
          rw [decide_eq_true_eq,mem_singleton.mp mem] at inside
          exact late inside.2
        rw [absent]
        exact fits

/-- What the two semantics permit, for attempts in the order of their times. -/
theorem rollingWindow_permits (limits : Limits τ)
    (some_window : 0 < limits.windowMs ∨ 0 < limits.maxInWindow) (times : List τ)
    (ordered : times.Pairwise (· ≤ ·)) :
    (∀ semantics instant, (trailing limits instant (permitted semantics limits times)).length ≤
        limits.maxInWindow) ∧
      ∀ earlier nowMs later, times = earlier ++ nowMs :: later →
        (permits .retainOnDeny limits earlier nowMs = true →
          permits .dropOnDeny limits earlier nowMs = true) ∧
        ((trailing limits nowMs (permitted .dropOnDeny limits earlier ++ [nowMs])).length ≤
            limits.maxInWindow →
          permits .dropOnDeny limits earlier nowMs = true) := by
  constructor
  · intro semantics instant
    cases semantics with
    | dropOnDeny => exact trailing_drop ordered instant
    | retainOnDeny =>
      have fewer := (permitted_retain_sublist some_window ordered).filter fun time =>
        decide (instant - limits.windowMs < time ∧ time ≤ instant)
      exact fewer.length_le.trans (trailing_drop ordered instant)
  · intro earlier nowMs later same
    have start : (earlier ++ [nowMs]).Pairwise (· ≤ ·) := by
      rw [same,← singleton_append,← append_assoc] at ordered
      exact ordered.sublist (sublist_append_left _ later)
    have old : ∀ time ∈ permitted .dropOnDeny limits earlier, time ≤ nowMs := fun time member =>
      earlier_le start time ((permitted_sublist earlier).subset member)
    constructor
    · exact permits_drop_of_permits_retain some_window start
    · intro room
      apply permits_drop_of_room some_window start (List.Sublist.refl _) old
      rwa [trailing_eq_trim] at room
      intro time member
      rcases mem_append.mp member with inside | now
      · exact old time inside
      · exact (mem_singleton.mp now).le

/-- The limits of the debugger, for three launches within a second. -/
theorem rollingWindow_permits_restarts :
    (trailing ⟨60000,2⟩ 500 (permitted .dropOnDeny (⟨60000,2⟩ : Limits ℤ) [0,250,500])).length ≤ 2 :=
  (rollingWindow_permits (⟨60000,2⟩ : Limits ℤ) (.inr (by decide)) [0,250,500] (by decide)).1
    .dropOnDeny 500

end Runs
end Keiko.RollingWindow
