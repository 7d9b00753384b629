import Mathlib.Data.List.Induction

/-! Machines that take one event after another and note what each event brought about.
What every step keeps, of the state together with the notes so far, holds at the end of
every run. -/
namespace Keiko.Library

universe u v w

structure Machine (σ : Type u) (ε : Type v) (ω : Type w) where
  start : σ
  step : σ → ε → σ
  notes : σ → ε → List ω

namespace Machine

variable {σ : Type u} {ε : Type v} {ω : Type w} (machine : Machine σ ε ω)

def run (events : List ε) : σ := events.foldl machine.step machine.start

def notesFrom : σ → List ε → List ω
  | _, [] => []
  | state, event :: events => machine.notes state event ++ notesFrom (machine.step state event) events

def noted (events : List ε) : List ω := machine.notesFrom machine.start events

@[simp] theorem run_nil : machine.run [] = machine.start := rfl

theorem run_append (a b : List ε) :
    machine.run (a ++ b) = b.foldl machine.step (machine.run a) :=
  List.foldl_append

@[simp] theorem run_snoc (evs : List ε) (ev : ε) :
    machine.run (evs ++ [ev]) = machine.step (machine.run evs) ev := by
  simp [run_append]

@[simp] theorem noted_nil : machine.noted [] = [] := rfl

theorem notesFrom_append (s : σ) (a b : List ε) : machine.notesFrom s (a ++ b) =
      machine.notesFrom s a ++ machine.notesFrom (a.foldl machine.step s) b := by
  induction a generalizing s with
  | nil => rfl
  | cons ev a ih => simp [notesFrom,ih]

theorem notesFrom_snoc (s : σ) (evs : List ε) (ev : ε) : machine.notesFrom s (evs ++ [ev]) =
      machine.notesFrom s evs ++ machine.notes (evs.foldl machine.step s) ev := by
  rw [notesFrom_append]
  simp [notesFrom]

theorem noted_append (a b : List ε) : machine.noted (a ++ b) =
    machine.noted a ++ machine.notesFrom (machine.run a) b :=
  machine.notesFrom_append machine.start a b

@[simp] theorem noted_snoc (evs : List ε) (ev : ε) : machine.noted (evs ++ [ev]) =
      machine.noted evs ++ machine.notes (machine.run evs) ev :=
  machine.notesFrom_snoc machine.start evs ev

variable {machine}

theorem holds_of_promised (promised : ε → Prop) (invariant : σ → List ω → Prop) (initially : invariant machine.start [])
    (kept : ∀ s notes ev, promised ev → invariant s notes →
      invariant (machine.step s ev) (notes ++ machine.notes s ev))
    (evs : List ε) (all : ∀ ev ∈ evs, promised ev) :
    invariant (machine.run evs) (machine.noted evs) := by
  induction evs using List.reverseRecOn with
  | nil => exact initially
  | append_singleton evs ev ih =>
    rw [run_snoc,noted_snoc]
    apply kept _ _ ev
    · exact all ev (List.mem_append_right _ List.mem_cons_self)
    · exact ih fun early mem => all early (List.mem_append_left _ mem)

theorem holds_of_step (invariant : σ → List ω → Prop) (initially : invariant machine.start [])
    (kept : ∀ s notes ev, invariant s notes →
      invariant (machine.step s ev) (notes ++ machine.notes s ev))
    (evs : List ε) : invariant (machine.run evs) (machine.noted evs) :=
  holds_of_promised (fun _ => True) invariant initially
    (fun s notes ev _ holds => kept s notes ev holds) evs fun _ _ => trivial

end Machine
end Keiko.Library
