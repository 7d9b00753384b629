import Keiko.Library.OrderedMap

/-! Maps of maps, none of which is kept when it is empty. What is removed under two keys leaves the
others as they are, and takes its weight off the sum over all of them. -/
namespace Keiko.Library
open List OrderedMap

universe u v w

abbrev NestedMap (κ : Type u) (ι : Type v) (α : Type w) := OrderedMap κ (OrderedMap ι α)

namespace NestedMap

variable {κ : Type u} {ι : Type v} {α : Type w} [DecidableEq κ] [DecidableEq ι]

section Operations

variable (map : NestedMap κ ι α)

def inner (outer : κ) : OrderedMap ι α := (map.get? outer).getD .empty

def find? (outer : κ) (key : ι) : Option α := (inner map outer).get? key

def insert (outer : κ) (key : ι) (value : α) : NestedMap κ ι α :=
  map.set outer ((inner map outer).set key value)

def remove (outer : κ) (key : ι) : NestedMap κ ι α :=
  let rest := (inner map outer).delete key
  if rest.size = 0 then map.delete outer else map.set outer rest

def items : List ((κ × ι) × α) :=
  map.entries.flatMap fun entry => entry.2.entries.map fun item => ((entry.1,item.1),item.2)

end Operations

section Lookup

variable {map : NestedMap κ ι α} {outer other : κ} {key : ι} {v : α}

theorem inner_insert (key : ι) (v : α) : inner (insert map outer key v) other =
    if other = outer then (inner map outer).set key v else inner map other := by
  rw [inner,insert,get?_set]
  split <;> rfl

omit [DecidableEq ι] in
theorem eq_empty_of_size {rest : OrderedMap ι α} (none_left : rest.size = 0) : rest = .empty := by
  apply OrderedMap.ext
  exact length_eq_zero_iff.mp none_left

theorem inner_remove (key : ι) : inner (remove map outer key) other =
    if other = outer then (inner map outer).delete key else inner map other := by
  rw [remove]
  split
  next none_left =>
    rw [inner,get?_delete,eq_empty_of_size none_left]
    split <;> rfl
  next =>
    rw [inner,get?_set]
    split <;> rfl

theorem find?_insert {other_key : ι} : find? (insert map outer key v) other other_key =
    if other = outer ∧ other_key = key then some v else find? map other other_key := by
  rw [find?,inner_insert]
  by_cases same : other = outer
  · subst same
    rw [if_pos rfl,get?_set]
    simp only [true_and]
    rfl
  · rw [if_neg same,if_neg (fun both => same both.1)]
    rfl

theorem find?_remove {other_key : ι} : find? (remove map outer key) other other_key =
    if other = outer ∧ other_key = key then none else find? map other other_key := by
  rw [find?,inner_remove]
  by_cases same : other = outer
  · subst same
    rw [if_pos rfl,get?_delete]
    simp only [true_and]
    rfl
  · rw [if_neg same,if_neg (fun both => same both.1)]
    rfl

theorem mem_items : ((outer,key),v) ∈ items map ↔ find? map outer key = some v := by
  rw [items,mem_flatMap]
  constructor
  · intro ⟨e,mem,inside⟩
    obtain ⟨item,listed,same⟩ := mem_map.mp inside
    cases same
    have held : map.get? e.1 = some e.2 := mem_entries.mp mem
    rw [find?,inner,held]
    exact mem_entries.mp listed
  · intro found
    rw [find?,inner] at found
    cases held : map.get? outer with
    | none =>
      rw [held] at found
      cases found
    | some rest =>
      rw [held] at found
      exact ⟨(outer,rest),mem_entries.mpr held,
        mem_map.mpr ⟨(key,v),mem_entries.mpr found,rfl⟩⟩

omit [DecidableEq κ] [DecidableEq ι] in
theorem nodup_items (map : NestedMap κ ι α) : ((items map).map Prod.fst).Nodup := by
  rw [items,map_flatMap,nodup_flatMap]
  constructor
  · intro e _
    have keys := e.2.distinct
    have pairs := keys.map (f := fun key => (e.1,key)) fun _ _ same => congrArg Prod.snd same
    rw [map_map] at pairs ⊢
    exact pairs
  · have outers : map.entries.Pairwise fun a b => a.1 ≠ b.1 :=
      pairwise_map.mp map.distinct
    apply outers.imp
    intro a b differ pair left right
    obtain ⟨_,one,inside⟩ := mem_map.mp left
    obtain ⟨_,_,rfl⟩ := mem_map.mp one
    obtain ⟨_,two,same⟩ := mem_map.mp right
    obtain ⟨_,_,rfl⟩ := mem_map.mp two
    exact differ (Prod.mk.inj (inside.trans same.symm)).1

end Lookup

section Total

variable (weigh : α → ℕ) {map : NestedMap κ ι α} {outer : κ} {key : ι} {value : α}

def innerTotal (map : NestedMap κ ι α) (outer : κ) : ℕ :=
  OrderedMap.total (fun _ value => weigh value) (inner map outer)

def total (map : NestedMap κ ι α) : ℕ :=
  OrderedMap.total (fun _ rest => OrderedMap.total (fun _ value => weigh value) rest) map

theorem innerTotal_insert (fresh : find? map outer key = none) : innerTotal weigh (insert map outer key value) outer =
      innerTotal weigh map outer + weigh value := by
  rw [innerTotal,inner_insert,if_pos rfl]
  exact total_set_of_none _ fresh value

theorem innerTotal_insert_of_ne {other : κ} (differ : other ≠ outer) :
    innerTotal weigh (insert map outer key value) other = innerTotal weigh map other := by
  rw [innerTotal,inner_insert,if_neg differ]
  rfl

omit [DecidableEq ι] in
theorem size_inner (map : NestedMap κ ι α) (outer : κ) :
    (inner map outer).size = innerTotal (fun _ => 1) map outer := by
  rw [innerTotal,OrderedMap.total,map_const',sum_replicate]
  exact (Nat.mul_one _).symm

theorem total_insert (fresh : find? map outer key = none) :
    total weigh (insert map outer key value) = total weigh map + weigh value := by
  have added : innerTotal weigh (insert map outer key value) outer = _ :=
    innerTotal_insert weigh fresh
  rw [innerTotal,inner_insert,if_pos rfl,innerTotal] at added
  cases held : map.get? outer with
  | none =>
    have empty : inner map outer = .empty := by
      rw [inner,held]
      rfl
    rw [insert,total,total_set_of_none _ held,added,empty,total_empty,zero_add]
    rfl
  | some rest =>
    have own : inner map outer = rest := by
      rw [inner,held]
      rfl
    have replaced := total_set_of_some
      (fun (_ : κ) (rest : OrderedMap ι α) => OrderedMap.total (fun _ value => weigh value) rest) held
      ((inner map outer).set key value)
    rw [added,own] at replaced
    rw [insert,own]
    change total weigh (map.set outer (rest.set key value)) + _ = total weigh map + _ at replaced
    omega

theorem innerTotal_remove (hit : find? map outer key = some value) :
    innerTotal weigh map outer = weigh value + innerTotal weigh (remove map outer key) outer := by
  rw [innerTotal,innerTotal,inner_remove,if_pos rfl]
  exact total_delete_of_some _ hit

theorem innerTotal_remove_le (hit : find? map outer key = some value) (other : κ) :
    innerTotal weigh (remove map outer key) other ≤ innerTotal weigh map other := by
  by_cases same : other = outer
  · rw [same,innerTotal_remove weigh hit]
    exact Nat.le_add_left _ _
  · apply Nat.le_of_eq
    rw [innerTotal,inner_remove,if_neg same]
    rfl

theorem total_remove (hit : find? map outer key = some value) :
    total weigh map = weigh value + total weigh (remove map outer key) := by
  have taken := innerTotal_remove weigh hit
  rw [innerTotal,innerTotal,inner_remove,if_pos rfl] at taken
  cases held : map.get? outer with
  | none =>
    rw [find?,inner,held] at hit
    cases hit
  | some rest =>
    have own : inner map outer = rest := by
      rw [inner,held]
      rfl
    rw [own] at taken
    rw [remove]
    split
    next none_left =>
      rw [own] at none_left
      rw [eq_empty_of_size none_left,total_empty,add_zero] at taken
      have split := total_delete_of_some
        (fun (_ : κ) (rest : OrderedMap ι α) => OrderedMap.total (fun _ value => weigh value) rest) held
      rw [taken] at split
      exact split
    next =>
      have replaced := total_set_of_some
        (fun (_ : κ) (rest : OrderedMap ι α) => OrderedMap.total (fun _ value => weigh value) rest) held
        ((inner map outer).delete key)
      rw [own,taken] at replaced
      rw [own]
      change total weigh (map.set outer (rest.delete key)) + _ = total weigh map + _ at replaced
      omega

end Total

end NestedMap
end Keiko.Library
