import Keiko.Library.EditGraph
import Mathlib.Order.Bounds.Defs
import Mathlib.Data.Int.Order.Basic

/-! The number of removed and added items of a script. Items that both sequences share in front
or at their ends cost nothing, so that a least script of the middles is a least script of the
whole sequences. -/
namespace Keiko.Library
open List

universe u v

variable (moves : List EditMove)

def edits : Nat := moves.countP (· ≠ .keep)

@[simp] theorem edits_nil : edits [] = 0 := rfl

@[simp] theorem edits_keep : edits (.keep :: moves) = edits moves := by
  simp [edits]

@[simp] theorem edits_remove : edits (.remove :: moves) = edits moves + 1 := by simp [edits]

@[simp] theorem edits_add : edits (.add :: moves) = edits moves + 1 := by
  simp [edits]

@[simp] theorem edits_append (first second : List EditMove) :
    edits (first ++ second) = edits first + edits second := countP_append

@[simp] theorem edits_reverse : edits moves.reverse = edits moves :=
  countP_reverse

@[simp] theorem edits_replicate (n : Nat) (move : EditMove) :
    edits (List.replicate n move) = if move = .keep then 0 else n := by
  simp [edits,countP_replicate]

section Scripts

variable {α : Type u} {β : Type v} {moves : List EditMove} {a b : List α} {item : α} {n : Nat}

def ScriptCost (a b : List α) (n : Nat) : Prop := ∃ moves, Aligned moves a b ∧ edits moves = n

theorem Aligned.kept (xs : List α) : Aligned (List.replicate xs.length .keep) xs xs := by
  induction xs with
  | nil => exact .nil
  | cons item xs ih => exact .keep item ih

theorem Aligned.removed (xs : List α) : Aligned (List.replicate xs.length .remove) xs [] := by
  induction xs with
  | nil => exact .nil
  | cons item xs ih => exact .remove item ih

theorem Aligned.added (xs : List α) : Aligned (List.replicate xs.length .add) [] xs := by
  induction xs with
  | nil => exact .nil
  | cons item xs ih => exact .add item ih

theorem Aligned.reverse (aligned : Aligned moves a b) : Aligned moves.reverse a.reverse b.reverse := by
  induction aligned with
  | nil => exact .nil
  | keep item _ ih =>
    simp only [reverse_cons]
    exact ih.append (.keep item .nil)
  | remove item _ ih =>
    simp only [reverse_cons]
    simpa using ih.append (.remove item .nil)
  | add item _ ih =>
    simp only [reverse_cons]
    simpa using ih.append (.add item .nil)

theorem Aligned.reaches (frontOld frontNew : List α) {d : Nat} (aligned : Aligned moves a b)
    (pre : Reaches (frontOld ++ a) (frontNew ++ b) d frontOld.length frontNew.length) :
    Reaches (frontOld ++ a) (frontNew ++ b) (d + edits moves) (frontOld ++ a).length (frontNew ++ b).length := by
  induction aligned generalizing frontOld frontNew d with
  | nil => simpa using pre
  | @keep moves a b item _ ih =>
    have same : SameAt (frontOld ++ item :: a) (frontNew ++ item :: b) frontOld.length
        frontNew.length := ⟨frontNew.length,item,rfl,by simp,by simp⟩
    have step := pre.keep same
    have whole := ih (frontOld ++ [item]) (frontNew ++ [item]) (by simpa using step)
    simpa using whole
  | @remove moves a b item _ ih =>
    have whole := ih (frontOld ++ [item]) frontNew (by simpa using pre.remove)
    rw [edits_remove,Nat.add_comm (edits moves),← Nat.add_assoc]
    simpa using whole
  | @add moves a b item _ ih =>
    have whole := ih frontOld (frontNew ++ [item]) (by simpa using pre.add)
    rw [edits_add,Nat.add_comm (edits moves),← Nat.add_assoc]
    simpa using whole

theorem ScriptCost.reaches (cost : ScriptCost a b n) : Reaches a b n a.length b.length := by
  obtain ⟨moves,aligned,rfl⟩ := cost
  have whole := aligned.reaches [] [] .start
  simpa using whole

theorem Aligned.dropNew (aligned : Aligned moves a (item :: b)) : ∃ n, ScriptCost a b n ∧ n ≤ edits moves + 1 := by
  generalize whole : item :: b = new at aligned
  induction aligned with
  | nil => cases whole
  | @keep moves old new first rest =>
    cases whole
    exact ⟨_,⟨.remove :: moves,rest.remove item,rfl⟩,by simp⟩
  | @remove moves old new first rest ih =>
    obtain ⟨n,⟨others,script,cost⟩,le⟩ := ih whole
    exact ⟨_,⟨_,script.remove first,rfl⟩,by simpa [cost] using le⟩
  | @add moves old new first rest =>
    cases whole
    exact ⟨_,⟨_,rest,rfl⟩,by rw [edits_add]; omega⟩

theorem Aligned.dropOld (aligned : Aligned moves (item :: a) b) : ∃ n, ScriptCost a b n ∧ n ≤ edits moves + 1 := by
  generalize whole : item :: a = old at aligned
  induction aligned with
  | nil => cases whole
  | @keep moves old new first rest =>
    cases whole
    exact ⟨_,⟨.add :: moves,rest.add item,rfl⟩,by simp⟩
  | @remove moves old new first rest =>
    cases whole
    exact ⟨_,⟨_,rest,rfl⟩,by rw [edits_remove]; omega⟩
  | @add moves old new first rest ih =>
    obtain ⟨n,⟨others,script,cost⟩,le⟩ := ih whole
    exact ⟨_,⟨_,script.add first,rfl⟩,by simpa [cost] using le⟩

theorem ScriptCost.tail (cost : ScriptCost (item :: a) (item :: b) n) :
    ∃ least, ScriptCost a b least ∧ least ≤ n := by
  obtain ⟨moves,aligned,rfl⟩ := cost
  cases aligned with
  | keep _ rest => exact ⟨_,⟨_,rest,rfl⟩,by simp⟩
  | remove _ rest => simpa using rest.dropNew
  | add _ rest => simpa using rest.dropOld

theorem ScriptCost.dropStart (start : List α) (cost : ScriptCost (start ++ a) (start ++ b) n) :
    ∃ least, ScriptCost a b least ∧ least ≤ n := by
  induction start generalizing n with
  | nil => exact ⟨n,cost,Nat.le_refl n⟩
  | cons item start ih =>
    obtain ⟨fewer,rest,le⟩ := cost.tail
    obtain ⟨least,script,further⟩ := ih rest
    exact ⟨least,script,Nat.le_trans further le⟩

theorem ScriptCost.reverse (cost : ScriptCost a b n) : ScriptCost a.reverse b.reverse n := by
  obtain ⟨moves,aligned,same⟩ := cost
  exact ⟨moves.reverse,aligned.reverse,by simpa using same⟩

theorem ScriptCost.dropEnd (tail : List α) (cost : ScriptCost (a ++ tail) (b ++ tail) n) :
    ∃ least, ScriptCost a b least ∧ least ≤ n := by
  have turned := cost.reverse
  rw [reverse_append,reverse_append] at turned
  obtain ⟨least,script,le⟩ := turned.dropStart
  have back := script.reverse
  rw [reverse_reverse,reverse_reverse] at back
  exact ⟨least,back,le⟩

theorem ScriptCost.surround (start tail : List α) (cost : ScriptCost a b n) :
    ScriptCost (start ++ a ++ tail) (start ++ b ++ tail) n := by
  obtain ⟨moves,aligned,same⟩ := cost
  refine ⟨_,((Aligned.kept start).append aligned).append (Aligned.kept tail),?_⟩
  simpa using same

theorem isLeast_surround (start tail : List α) (least : IsLeast { n | ScriptCost a b n } n) :
    IsLeast { n | ScriptCost (start ++ a ++ tail) (start ++ b ++ tail) n } n := by
  refine ⟨least.1.surround start tail,?_⟩
  intro other cost
  obtain ⟨first,inner,le⟩ := ScriptCost.dropEnd tail cost
  obtain ⟨second,middle,further⟩ := inner.dropStart
  exact Nat.le_trans (least.2 middle) (Nat.le_trans further le)

theorem ScriptCost.map (f : α → β) (cost : ScriptCost a b n) : ScriptCost (a.map f) (b.map f) n := by
  obtain ⟨moves,aligned,same⟩ := cost
  exact ⟨moves,aligned.map f,same⟩

theorem isLeast_map {f : α → β} {g : β → α} (oldBack : (a.map f).map g = a) (newBack : (b.map f).map g = b) :
    IsLeast { n | ScriptCost (a.map f) (b.map f) n } n ↔ IsLeast { n | ScriptCost a b n } n := by
  have same : { n | ScriptCost (a.map f) (b.map f) n } = { n | ScriptCost a b n } := by
    ext m
    constructor
    · intro cost
      have mapped := ScriptCost.map g cost
      rwa [oldBack,newBack] at mapped
    · exact ScriptCost.map f
  rw [same]

theorem isLeast_removed (xs : List α) : IsLeast { n | ScriptCost xs [] n } xs.length := by
  refine ⟨⟨_,Aligned.removed xs,by simp⟩,?_⟩
  intro n cost
  have upper := (ScriptCost.reaches cost).onDiagonal.upper
  rw [length_nil] at upper
  omega

theorem isLeast_added (xs : List α) : IsLeast { n | ScriptCost [] xs n } xs.length := by
  refine ⟨⟨_,Aligned.added xs,by simp⟩,?_⟩
  intro n cost
  have lower := (ScriptCost.reaches cost).onDiagonal.lower
  rw [length_nil] at lower
  omega

end Scripts

end Keiko.Library
