import Mathlib.Data.List.Basic

/-! Edits of a sequence: blocks that are replaced from left to right, everything between
them kept as it is. -/
namespace Keiko.Library

universe u
variable {α : Type u}

structure Edit (α : Type u) where
  start : Nat
  old : List α
  new : List α

/-- Edits applied to what a sequence holds from an index on: each replaces its block where it
says, gaps are copied, and the tail behind the last one is kept. -/
inductive Spliced : Nat → List α → List (Edit α) → List α → List α → Prop where
  | done {index : Nat} (tail : List α) : Spliced index tail [] tail tail
  | edit {index : Nat} {rest out tail : List α} {edits : List (Edit α)} (gap : List α)
      (edit : Edit α) (start : index + gap.length = edit.start)
      (spliced : Spliced (edit.start + edit.old.length) rest edits out tail) :
      Spliced index (gap ++ edit.old ++ rest) (edit :: edits) (gap ++ edit.new ++ out) tail

section Places

variable {index : Nat} {source out tail : List α} {edits : List (Edit α)}

def Edit.stop (edit : Edit α) : Nat := edit.start + edit.old.length

theorem Spliced.tail_le (spliced : Spliced index source edits out tail) : tail.length ≤ source.length := by
  induction spliced with
  | done => exact Nat.le_refl _
  | edit gap edit start spliced ih =>
    rw [List.length_append]
    exact Nat.le_add_left_of_le ih

theorem Spliced.inside (spliced : Spliced index source edits out tail) :
    ∀ edit ∈ edits, index ≤ edit.start ∧ edit.stop + tail.length ≤ index + source.length := by
  induction spliced with
  | done => simp
  | @edit index rest out tail edits gap a start spliced ih =>
    have whole : (gap ++ a.old ++ rest).length =
        gap.length + a.old.length + rest.length := by simp [Nat.add_assoc]
    have fits := spliced.tail_le
    intro edit mem
    rcases List.mem_cons.mp mem with rfl | post
    · rw [whole,Edit.stop]
      omega
    · obtain ⟨lower,upper⟩ := ih edit post
      rw [whole]
      omega

end Places

end Keiko.Library
