import Mathlib.Data.List.Basic

/-! Bloom filters. A value sets the bits at its positions, and a filter has a value whose bits are all
set; so it has every value that was added to it, and may have others. -/
namespace Keiko.Library.Bloom

universe u v
variable {α : Type u} {β : Type v} [DecidableEq β] (positions : α → List β)

def add (bits : List β) (value : α) : List β := positions value ++ bits

def has (bits : List β) (value : α) : Bool := (positions value).all (bits.contains ·)

variable {positions} {bits : List β} {value other : α}

theorem has_iff : has positions bits value = true ↔ ∀ bit ∈ positions value, bit ∈ bits := by
  simp [has]

theorem has_add_self : has positions (add positions bits value) value = true := by
  rw [has_iff]
  intro bit mem
  exact List.mem_append_left _ mem

theorem has_add (held : has positions bits other = true) : has positions (add positions bits value) other = true := by
  rw [has_iff] at held ⊢
  intro bit mem
  exact List.mem_append_right _ (held bit mem)

end Keiko.Library.Bloom
