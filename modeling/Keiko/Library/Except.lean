import Mathlib.Data.List.Basic

/-! Computations that end in a value or in an error: how an accepted sequence of steps
comes apart into its steps. -/
namespace Keiko.Library

universe u v
variable {ε : Type u} {α β : Type v} {next : α → Except ε β} {a : Except ε α} {failure : ε} {res : β}

theorem bind_eq_ok :
    (a >>= next) = .ok res ↔ ∃ v, a = .ok v ∧ next v = .ok res := by
  cases a with
  | error failure => simp [bind,Except.bind]
  | ok v => simp [bind,Except.bind]

theorem bind_eq_error : (a >>= next) = .error failure ↔
      a = .error failure ∨ ∃ v, a = .ok v ∧ next v = .error failure := by
  cases a with
  | error failure => simp [bind,Except.bind]
  | ok v => simp [bind,Except.bind]

theorem pure_eq_ok {v res : α} : (pure v : Except ε α) = .ok res ↔ v = res := by
  simp [pure,Except.pure]

theorem refuse_eq_ok {refused : Prop} [Decidable refused] {next : Except ε α} {res : α} :
    (if refused then .error failure else next) = .ok res ↔ ¬ refused ∧ next = .ok res := by
  by_cases holds : refused <;> simp [holds]

theorem map_eq_ok {f : α → β} :
    a.map f = .ok res ↔ ∃ v, a = .ok v ∧ f v = res := by
  cases a with
  | error failure => simp [Except.map]
  | ok v => simp [Except.map]

theorem mapM_eq_ok {γ : Type u} {f : γ → Except ε α} {g : γ → α} {xs : List γ}
    {results : List α} (known : ∀ item ∈ xs, ∀ res, f item = .ok res → res = g item)
    (looped : xs.mapM f = .ok results) : results = xs.map g := by
  induction xs generalizing results with
  | nil =>
    cases looped
    rfl
  | cons item xs ih =>
    rw [List.mapM_cons] at looped
    obtain ⟨a,hit,looped⟩ := bind_eq_ok.mp looped
    obtain ⟨rest,others,whole⟩ := bind_eq_ok.mp looped
    cases pure_eq_ok.mp whole
    rw [known item (by simp) a hit,ih (fun item mem => known item (by simp [mem])) others]
    rfl

end Keiko.Library
