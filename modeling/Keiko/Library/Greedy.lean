import Mathlib.Algebra.Order.Monoid.Defs
import Mathlib.Algebra.BigOperators.Group.List.Basic
import Mathlib.Data.List.Perm.Basic

/-! Filling a budget greedily: each item in turn is admitted when its cost still fits.
What is admitted and what is rejected make up the items, each in their order, and the
admitted costs never exceed the budget. -/
namespace Keiko.Library.Greedy
open List

universe u v
variable {α : Type u} {M : Type v} [AddCommMonoid M] [LinearOrder M] (cost : α → M) (budget : M)

def admitted : M → List α → List α
  | _, [] => []
  | spent, item :: items =>
    if spent + cost item ≤ budget then item :: admitted (spent + cost item) items
    else admitted spent items

def rejected : M → List α → List α
  | _, [] => []
  | spent, item :: items =>
    if spent + cost item ≤ budget then rejected (spent + cost item) items
    else item :: rejected spent items

variable {cost budget} {items : List α} {spent : M}

theorem admitted_sublist : (admitted cost budget spent items).Sublist items := by
  induction items generalizing spent with
  | nil => exact List.Sublist.refl []
  | cons item items ih =>
    unfold admitted
    split
    · exact ih.cons_cons item
    · exact ih.cons item

theorem admitted_perm : (admitted cost budget spent items ++ rejected cost budget spent items).Perm items := by
  induction items generalizing spent with
  | nil => exact List.Perm.refl []
  | cons item items ih =>
    unfold admitted rejected
    split
    · exact ih.cons item
    · exact perm_middle.trans (ih.cons item)

theorem admitted_cost_le (within : spent ≤ budget) :
    spent + ((admitted cost budget spent items).map cost).sum ≤ budget := by
  induction items generalizing spent with
  | nil => simpa [admitted] using within
  | cons item items ih =>
    unfold admitted
    split
    · next fits =>
      rw [map_cons,sum_cons,← add_assoc]
      exact ih fits
    · exact ih within

theorem admitted_map {β : Type*} (f : β → α) (es : List β) : admitted cost budget spent (es.map f) =
      (admitted (fun e => cost (f e)) budget spent es).map f := by
  induction es generalizing spent with
  | nil => rfl
  | cons e es ih =>
    simp only [map_cons,admitted]
    split
    · rw [ih,map_cons]
    · exact ih

theorem filter_marked {β : Type*} [DecidableEq β] {f : α → β} {part : List α}
    (nodup : (items.map f).Nodup) (sublist : part.Sublist items) :
    items.filter (fun item => f item ∈ part.map f) = part := by
  induction sublist with
  | slnil => rfl
  | @cons part items item sublist ih =>
    obtain ⟨fresh,rest⟩ := nodup_cons.mp nodup
    have unmarked : f item ∉ part.map f := fun marked => fresh ((sublist.map f).subset marked)
    rw [filter_cons_of_neg (by simpa using unmarked)]
    exact ih rest
  | @cons_cons part items item sublist ih =>
    obtain ⟨fresh,rest⟩ := nodup_cons.mp nodup
    rw [filter_cons_of_pos (by simp)]
    congr 1
    rw [← ih rest]
    apply filter_congr
    intro other mem
    have differ : f other ≠ f item := fun same => fresh (same ▸ mem_map_of_mem mem)
    simp only [map_cons,mem_cons,differ,false_or]
    rw [ih rest]

end Keiko.Library.Greedy
