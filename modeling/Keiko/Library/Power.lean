import Mathlib.Logic.Relation
import Mathlib.Order.Basic

/-! Powers of a relation: `Power r n` relates the ends of a chain of `n` steps. -/
namespace Keiko.Library

variable {α : Type*} {r s : α → α → Prop}

def Power (r : α → α → Prop) : Nat → α → α → Prop
  | 0 => Eq
  | count + 1 => Relation.Comp r (Power r count)

namespace Power

variable {n m : Nat} {a b c : α}

theorem add (first : Power r m a b) (second : Power r n b c) : Power r (m + n) a c := by
  induction m generalizing a with
  | zero =>
    cases first
    simpa using second
  | succ m ih =>
    obtain ⟨d,step,rest⟩ := first
    rw [Nat.add_right_comm]
    exact ⟨d,step,ih rest⟩

theorem split (chain : Power r (m + n) a c) : ∃ b, Power r m a b ∧ Power r n b c := by
  induction m generalizing a with
  | zero => exact ⟨a,rfl,by simpa using chain⟩
  | succ m ih =>
    rw [Nat.add_right_comm] at chain
    obtain ⟨d,step,rest⟩ := chain
    obtain ⟨b,first,second⟩ := ih rest
    exact ⟨b,⟨d,step,first⟩,second⟩

theorem mono (imp : ∀ a b, r a b → s a b) (chain : Power r n a b) : Power s n a b := by
  induction n generalizing a with
  | zero => exact chain
  | succ n ih =>
    obtain ⟨d,step,rest⟩ := chain
    exact ⟨d,imp _ _ step,ih rest⟩

theorem least (refl : ∀ a, s a a) (step : ∀ a b c, r a b → s b c → s a c)
    (chain : Power r n a b) : s a b := by
  induction n generalizing a with
  | zero => exact chain ▸ refl a
  | succ n ih =>
    obtain ⟨d,first,rest⟩ := chain
    exact step _ _ _ first (ih rest)

theorem le [Preorder α] (sub : ∀ a b, r a b → a ≤ b) (chain : Power r n a b) : a ≤ b :=
  chain.least le_refl (fun _ _ _ first rest => (sub _ _ first).trans rest)

end Power

end Keiko.Library
