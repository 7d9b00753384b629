import Mathlib.Data.List.Perm.Subperm
import Mathlib.Data.Multiset.UnionInter
import Mathlib.Order.Bounds.Basic

/-! Pairing items of two lists that carry the same label, each item in one pair at most. There are
at most as many pairs as the two lists share labels, counted with their repetitions, and there is a
pairing of that many. -/
namespace Keiko.Library.Pairing
open List
open List

variable {α β γ : Type*}

structure IsPairing (left : List α) (right : List β) (f : α → γ) (g : β → γ)
    (pairs : List (α × β)) : Prop where
  onceLeft : (pairs.map Prod.fst).Nodup
  onceRight : (pairs.map Prod.snd).Nodup
  inside : ∀ pair ∈ pairs, pair.1 ∈ left ∧ pair.2 ∈ right
  same : ∀ pair ∈ pairs, f pair.1 = g pair.2

def IsMaximum (left : List α) (right : List β) (f : α → γ) (g : β → γ) (size : Nat) : Prop :=
  IsGreatest {n | ∃ pairs, IsPairing left right f g pairs ∧ pairs.length = n} size

variable {left : List α} {right : List β} {f : α → γ} {g : β → γ}

section Shared
variable [DecidableEq γ] {a b : List γ} {label : γ}

def shared (first second : List γ) : Nat := Multiset.card ((first : Multiset γ) ∩ second)

theorem shared_perm {first' second' : List γ} (one : a.Perm first')
    (two : b.Perm second') : shared a b = shared first' second' := by
  rw [shared,shared,Multiset.coe_eq_coe.mpr one,Multiset.coe_eq_coe.mpr two]

@[simp] theorem shared_nil (a : List γ) : shared a [] = 0 := by
  simp [shared]

theorem shared_cons_of_mem (mem : label ∈ a) :
    shared a (label :: b) = shared (a.erase label) b + 1 := by
  rw [shared,shared,Multiset.inter_comm,← Multiset.cons_coe,
    Multiset.cons_inter_of_pos _ (by simpa using mem),Multiset.card_cons,Multiset.inter_comm,
    ← Multiset.coe_erase]

theorem shared_cons_of_not_mem (absent : label ∉ a) :
    shared a (label :: b) = shared a b := by
  rw [shared,shared,Multiset.inter_comm,← Multiset.cons_coe,
    Multiset.cons_inter_of_neg _ (by simpa using absent),Multiset.inter_comm]

theorem shared_le_left (a b : List γ) : shared a b ≤ a.length :=
  Multiset.card_le_card Multiset.inter_le_left

theorem shared_le_right (a b : List γ) : shared a b ≤ b.length :=
  Multiset.card_le_card Multiset.inter_le_right

theorem IsPairing.length_le {pairs : List (α × β)} (pairing : IsPairing left right f g pairs) :
    pairs.length ≤ shared (left.map f) (right.map g) := by
  obtain ⟨onceLeft,onceRight,inside,same⟩ := pairing
  have one : pairs.map Prod.fst <+~ left := by
    apply subperm_of_subset onceLeft
    intro item mem
    obtain ⟨pair,here,rfl⟩ := mem_map.mp mem
    exact (inside pair here).1
  have two : pairs.map Prod.snd <+~ right := by
    apply subperm_of_subset onceRight
    intro item mem
    obtain ⟨pair,here,rfl⟩ := mem_map.mp mem
    exact (inside pair here).2
  have labels : (pairs.map Prod.fst).map f = (pairs.map Prod.snd).map g := by
    rw [map_map,map_map]
    exact map_congr_left same
  have a : ((pairs.map Prod.fst).map f : Multiset γ) ≤ left.map f :=
    Multiset.map_le_map (Multiset.coe_le.mpr one)
  have b : ((pairs.map Prod.fst).map f : Multiset γ) ≤ right.map g := by
    rw [labels]
    exact Multiset.map_le_map (Multiset.coe_le.mpr two)
  have both := Multiset.le_inter a b
  have size := Multiset.card_le_card both
  rwa [Multiset.coe_card,length_map,length_map] at size

theorem exists_pairing (onceLeft : left.Nodup) (onceRight : right.Nodup) : ∃ pairs, IsPairing left right f g pairs ∧
      pairs.length = shared (left.map f) (right.map g) := by
  induction right generalizing left with
  | nil => exact ⟨[],⟨nodup_nil,nodup_nil,by simp,by simp⟩,by simp⟩
  | cons item right ih =>
    obtain ⟨fresh,nodup⟩ := nodup_cons.mp onceRight
    rw [map_cons]
    by_cases free : g item ∈ left.map f
    · obtain ⟨other,mem,label⟩ := mem_map.mp free
      obtain ⟨pre,after,rfl⟩ := append_of_mem mem
      have moved : (pre ++ other :: after).Perm (other :: (pre ++ after)) :=
        perm_middle
      obtain ⟨unused,rest⟩ := nodup_cons.mp (moved.nodup_iff.mp onceLeft)
      obtain ⟨pairs,⟨a,b,inside,same⟩,size⟩ := ih rest nodup
      refine ⟨(other,item) :: pairs,⟨?_,?_,?_,?_⟩,?_⟩
      · refine nodup_cons.mpr ⟨?_,a⟩
        intro taken
        obtain ⟨pair,here,same⟩ := mem_map.mp taken
        have used := (inside pair here).1
        rw [same] at used
        exact unused used
      · refine nodup_cons.mpr ⟨?_,b⟩
        intro taken
        obtain ⟨pair,here,same⟩ := mem_map.mp taken
        have used := (inside pair here).2
        rw [same] at used
        exact fresh used
      · intro pair here
        rcases mem_cons.mp here with rfl | post
        · exact ⟨mem,mem_cons_self⟩
        · exact ⟨moved.symm.subset (mem_cons_of_mem other (inside pair post).1),
            mem_cons_of_mem item (inside pair post).2⟩
      · intro pair here
        rcases mem_cons.mp here with rfl | post
        · exact label
        · exact same pair post
      · have erased : ((pre ++ other :: after).map f).erase (g item) ~ (pre ++ after).map f := by
          have labels := moved.map f
          rw [map_cons,label] at labels
          exact (labels.erase (g item)).trans (by rw [erase_cons_head])
        rw [length_cons,size,shared_cons_of_mem free,shared_perm erased (List.Perm.refl _)]
    · obtain ⟨pairs,⟨a,b,inside,same⟩,size⟩ := ih onceLeft nodup
      refine ⟨pairs,⟨a,b,?_,same⟩,?_⟩
      · intro pair here
        exact ⟨(inside pair here).1,mem_cons_of_mem item (inside pair here).2⟩
      · rw [size,shared_cons_of_not_mem free]

theorem isMaximum_shared (onceLeft : left.Nodup) (onceRight : right.Nodup) :
    IsMaximum left right f g (shared (left.map f) (right.map g)) := by
  refine ⟨exists_pairing onceLeft onceRight,?_⟩
  intro size ⟨pairs,pairing,same⟩
  rw [← same]
  exact pairing.length_le

end Shared

end Keiko.Library.Pairing
