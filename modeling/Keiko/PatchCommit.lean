import Keiko.Library.Except
import Keiko.Library.Store
import Keiko.PatchContent

/-! The write phase of an apply: the planned files are written one after another, and the
first failure writes back what the finished ones held. How a call of the guard or of the
writer ends is read from a stream, so a failure can strike between any two effects; a call
that fails has no effect, and the restoring calls do not fail. -/
namespace Keiko.Patch
open Keiko.Library Keiko.UnifiedDiff

abbrev Workspace := Text → Option Text

section Commit

structure PlannedWrite where
  path : Text
  absolute : Text
  kind : PatchChangeKind
  newContent : Option Text
  original : Option Text
  deriving DecidableEq, Repr

def PlannedWrite.planned (plan : PlannedWrite) : Option Text :=
  if plan.kind = .delete then none else some (plan.newContent.getD [])

inductive Failure where
  | cancelled (message : String)
  | thrown (message : String)
  deriving DecidableEq, Repr

inductive ApplyError where
  | cancelled (message : String)
  | failed (message : String) (path : Text)
  deriving DecidableEq, Repr

abbrev Outcomes := Nat → Option Failure

structure Run where
  workspace : Workspace
  calls : Nat

variable (outcomes : Outcomes)

def attempt (effect : Workspace → Workspace) (run : Run) : Except (Failure × Run) Run :=
  match outcomes run.calls with
  | some failure => .error (failure,run)
  | none => .ok ⟨effect run.workspace,run.calls + 1⟩

def requireEffect (run : Run) : Except (Failure × Run) Run :=
  attempt outcomes id run

def remove (absolute : Text) (workspace : Workspace) : Workspace :=
  Function.update workspace absolute none

def writeFileUtf8 (absolute content : Text) (workspace : Workspace) : Workspace :=
  Function.update workspace absolute (some content)

def mkdirp (workspace : Workspace) : Workspace := workspace

def applyOne (plan : PlannedWrite) (run : Run) : Except (Failure × Run) Run := do
  let run ← requireEffect outcomes run
  if plan.kind = .delete then attempt outcomes (remove plan.absolute) run
  else
    let run ← attempt outcomes mkdirp run
    let run ← requireEffect outcomes run
    attempt outcomes (writeFileUtf8 plan.absolute (plan.newContent.getD [])) run

def rollback (workspace : Workspace) (done : List PlannedWrite) : Workspace :=
  done.foldl (fun workspace plan =>
    match plan.original with
    | none => remove plan.absolute workspace
    | some content => writeFileUtf8 plan.absolute content workspace) workspace

def applyError (failure : Failure) (plan : PlannedWrite) : ApplyError :=
  match failure with
  | .cancelled message => .cancelled message
  | .thrown message => .failed ("apply failed, rolled back: " ++ message) plan.path

def commitFrom (outcomes : Outcomes) (done : List PlannedWrite) (run : Run) :
    List PlannedWrite → Except (ApplyError × Workspace) Workspace
  | [] => .ok run.workspace
  | plan :: plans =>
    match applyOne outcomes plan run with
    | .error (failure,stopped) =>
      .error (applyError failure plan,rollback stopped.workspace done)
    | .ok applied =>
      match requireEffect outcomes applied with
      | .error (failure,stopped) =>
        .error (applyError failure plan,rollback stopped.workspace (done ++ [plan]))
      | .ok run => commitFrom outcomes (done ++ [plan]) run plans

def commit (workspace : Workspace) (plans : List PlannedWrite) :
    Except (ApplyError × Workspace) Workspace :=
  commitFrom outcomes [] ⟨workspace,0⟩ plans

end Commit

section Effects

variable {outcomes : Outcomes} {ws after : Workspace} {run next stopped : Run}
  {plan : PlannedWrite} {plans done : List PlannedWrite} {failure : Failure}
  {effect : Workspace → Workspace}

theorem attempt_ok (attempted : attempt outcomes effect run = .ok next) :
    next.workspace = effect run.workspace := by
  unfold attempt at attempted
  split at attempted
  · contradiction
  · cases attempted
    rfl

theorem attempt_error (attempted : attempt outcomes effect run = .error (failure,stopped)) :
    stopped.workspace = run.workspace := by
  unfold attempt at attempted
  split at attempted
  · cases attempted
    rfl
  · contradiction

theorem applyOne_ok (applied : applyOne outcomes plan run = .ok next) :
    next.workspace = Function.update run.workspace plan.absolute plan.planned := by
  unfold applyOne at applied
  obtain ⟨guarded,required,applied⟩ := bind_eq_ok.mp applied
  have kept : guarded.workspace = run.workspace := attempt_ok required
  split at applied
  case isTrue deleted =>
    rw [attempt_ok applied,kept,PlannedWrite.planned,if_pos deleted]
    rfl
  case isFalse written =>
    obtain ⟨made,directory,applied⟩ := bind_eq_ok.mp applied
    obtain ⟨again,required,applied⟩ := bind_eq_ok.mp applied
    have keptMade : made.workspace = guarded.workspace := attempt_ok directory
    have keptAgain : again.workspace = made.workspace := attempt_ok required
    rw [attempt_ok applied,keptAgain,keptMade,kept,PlannedWrite.planned,if_neg written]
    rfl

theorem applyOne_error (applied : applyOne outcomes plan run = .error (failure,stopped)) :
    stopped.workspace = run.workspace := by
  unfold applyOne at applied
  rcases bind_eq_error.mp applied with required | ⟨guarded,required,applied⟩
  · exact attempt_error required
  have kept : guarded.workspace = run.workspace := attempt_ok required
  split at applied
  · rw [attempt_error applied,kept]
  rcases bind_eq_error.mp applied with directory | ⟨made,directory,applied⟩
  · rw [attempt_error directory,kept]
  have keptMade : made.workspace = guarded.workspace := attempt_ok directory
  rcases bind_eq_error.mp applied with required | ⟨again,required,applied⟩
  · rw [attempt_error required,keptMade,kept]
  have keptAgain : again.workspace = made.workspace := attempt_ok required
  rw [attempt_error applied,keptAgain,keptMade,kept]

theorem rollback_eq (ws : Workspace) (done : List PlannedWrite) : rollback ws done =
      Store.writeAll PlannedWrite.absolute PlannedWrite.original ws done := by
  unfold rollback Store.writeAll
  congr 1
  funext ws plan
  cases plan.original <;> rfl

theorem commitFrom_cases (held : ∀ plan ∈ done ++ plans, plan.original = ws plan.absolute)
    (written : run.workspace = Store.writeAll PlannedWrite.absolute PlannedWrite.planned ws done) :
    (∃ error, commitFrom outcomes done run plans = .error (error,ws)) ∨
      commitFrom outcomes done run plans = .ok (Store.writeAll PlannedWrite.absolute
        PlannedWrite.planned ws (done ++ plans)) := by
  induction plans generalizing done run with
  | nil =>
    apply Or.inr
    rw [List.append_nil,← written]
    rfl
  | cons plan plans ih =>
    have restored : ∀ touched, (∀ plan ∈ touched, plan.original = ws plan.absolute) →
        rollback (Store.writeAll PlannedWrite.absolute PlannedWrite.planned ws touched) touched = ws := by
      intro touched held
      rw [rollback_eq,Store.writeAll_restore held]
    unfold commitFrom
    cases applied : applyOne outcomes plan run with
    | error failed =>
      obtain ⟨failure,stopped⟩ := failed
      dsimp only
      rw [applyOne_error applied,written,restored done fun plan mem => held plan (by simp [mem])]
      exact .inl ⟨_,rfl⟩
    | ok next =>
      have writtenNext : next.workspace = Store.writeAll PlannedWrite.absolute
          PlannedWrite.planned ws (done ++ [plan]) := by
        rw [applyOne_ok applied,written,Store.writeAll_snoc]
      dsimp only
      cases required : requireEffect outcomes next with
      | error failed =>
        obtain ⟨failure,stopped⟩ := failed
        dsimp only
        rw [attempt_error required,writtenNext,restored (done ++ [plan])]
        · exact .inl ⟨_,rfl⟩
        · intro other mem
          apply held
          rcases List.mem_append.mp mem with inside | last
          · exact List.mem_append_left _ inside
          · rw [List.mem_singleton.mp last]
            simp
      | ok again =>
        have kept : again.workspace = next.workspace := attempt_ok required
        have heldNext : ∀ other ∈ (done ++ [plan]) ++ plans,
            other.original = ws other.absolute := by simpa using held
        have rest := ih heldNext (kept.trans writtenNext)
        simpa using rest

end Effects

section Atomicity

variable {workspace : Workspace} {plans : List PlannedWrite}

theorem commit_cases (outcomes : Outcomes) (held : ∀ plan ∈ plans, plan.original = workspace plan.absolute) :
    (∃ error, commit outcomes workspace plans = .error (error,workspace)) ∨
      commit outcomes workspace plans = .ok (Store.writeAll PlannedWrite.absolute
        PlannedWrite.planned workspace plans) := commitFrom_cases held rfl

theorem commitFrom_undisturbed (plans done : List PlannedWrite) (run : Run) :
    ∃ after, commitFrom (fun _ => none) done run plans = .ok after := by
  induction plans generalizing done run with
  | nil => exact ⟨run.workspace,rfl⟩
  | cons plan plans ih =>
    have undisturbed : ∀ (effect : Workspace → Workspace) (run : Run),
        attempt (fun _ => none) effect run = .ok ⟨effect run.workspace,run.calls + 1⟩ :=
      fun _ _ => rfl
    have applied : ∃ next, applyOne (fun _ => none) plan run = .ok next := by
      unfold applyOne requireEffect
      rw [undisturbed]
      dsimp only [bind,Except.bind]
      split
      · exact ⟨_,rfl⟩
      · exact ⟨_,rfl⟩
    obtain ⟨next,applied⟩ := applied
    unfold commitFrom
    rw [applied]
    exact ih _ _

/-- All or nothing: a failed commit leaves every planned file as it was, a finished one
leaves every planned file as it was planned. -/
def Atomic (plans : List PlannedWrite) : Except (ApplyError × Workspace) Workspace → Prop
  | .error (_,after) => ∀ plan ∈ plans, after plan.absolute = plan.original
  | .ok after => ∀ plan ∈ plans, after plan.absolute = plan.planned

def Agreeing (plans : List PlannedWrite) : Prop :=
  ∀ first ∈ plans, ∀ second ∈ plans, first.absolute = second.absolute → first.planned = second.planned

theorem commit_atomic_iff (held : ∀ plan ∈ plans, plan.original = workspace plan.absolute) :
    (∀ outcomes, Atomic plans (commit outcomes workspace plans)) ↔ Agreeing plans := by
  constructor
  · intro atomic first inside second member same
    obtain ⟨after,finished⟩ := commitFrom_undisturbed plans [] ⟨workspace,0⟩
    have planned := atomic fun _ => none
    rw [commit,finished] at planned
    rw [← planned first inside,same,planned second member]
  · intro agreeing outcomes
    rcases commit_cases outcomes held with ⟨error,failed⟩ | finished
    · rw [failed]
      intro plan member
      exact (held plan member).symm
    · rw [finished]
      intro plan member
      apply Store.writeAll_of_agree member
      intro other inside same
      exact agreeing other inside plan member same

def threePlans : List PlannedWrite := [
  ⟨"x".toList,"/x".toList,.create,some "1".toList,none⟩,
  ⟨"y".toList,"/y".toList,.modify,some "2".toList,some "0".toList⟩,
  ⟨"z".toList,"/z".toList,.delete,none,some "0".toList⟩]

theorem commit_atomic_iff_threePlans :
    Agreeing threePlans ∧
      ∀ outcomes, Atomic threePlans (commit outcomes (Store.writeAll PlannedWrite.absolute
        PlannedWrite.original (fun _ => none) threePlans) threePlans) := by
  have agreeing : Agreeing threePlans := by
    unfold Agreeing
    decide
  refine ⟨agreeing,(commit_atomic_iff ?_).mpr agreeing⟩
  decide

/-- Two plans of one file: the first one is written over. -/
theorem commit_not_atomic :
    ¬ ∀ outcomes workspace plans,
      (∀ plan ∈ plans, plan.original = workspace plan.absolute) →
        Atomic plans (commit outcomes workspace plans) := by
  intro atomic
  have planned := atomic (fun _ => none) (fun _ => some "0".toList) [
    ⟨"y".toList,"/y".toList,.modify,some "1".toList,some "0".toList⟩,
    ⟨"y".toList,"/y".toList,.modify,some "2".toList,some "0".toList⟩] (by simp)
  have first := planned _ (List.mem_cons_self ..)
  exact absurd first (by decide)

end Atomicity

end Keiko.Patch
