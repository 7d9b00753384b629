import Keiko.Library.OrderedMap
import Mathlib.Data.List.Induction

/-! Grouping of a list by a key: a map from each key to what the items of that key stand for, in the
order of the items. The keys stand in the order in which they first came. -/
namespace Keiko.Library.Grouping
open List Option
open OrderedMap hiding keys

variable {α β κ : Type*} [DecidableEq κ]

def push (map : OrderedMap κ (List α)) (key : κ) (entry : α) : OrderedMap κ (List α) :=
  match map.get? key with
  | none => map.set key [entry]
  | some bucket => map.set key (bucket ++ [entry])

def group (key : β → κ) (value : β → α) (items : List β) : OrderedMap κ (List α) :=
  items.foldl (fun map item => push map (key item) (value item)) OrderedMap.empty

section Push
variable (map : OrderedMap κ (List α)) (key : κ) (entry : α)

theorem get?_push_self : (push map key entry).get? key = some ((map.get? key).getD [] ++ [entry]) := by
  unfold push
  split
  next gone => rw [get?_set_self,gone,getD_none,nil_append]
  next bucket hit => rw [get?_set_self,hit,getD_some]

theorem get?_push_of_ne {other : κ} (differ : other ≠ key) : (push map key entry).get? other = map.get? other := by
  unfold push
  split
  next => exact get?_set_of_ne _ differ
  next => exact get?_set_of_ne _ differ

end Push

section Group
variable (key : β → κ) (value : β → α) (items : List β)

theorem group_append (item : β) :
    group key value (items ++ [item]) = push (group key value items) (key item) (value item) := by
  rw [group,foldl_append]
  rfl

def bucket (k : κ) : List α := (items.filter fun item => key item = k).map value

variable {key value items}

@[simp] theorem mem_bucket {k : κ} {entry : α} :
    entry ∈ bucket key value items k ↔ ∃ item ∈ items, key item = k ∧ value item = entry := by
  simp [bucket,and_assoc]

theorem bucket_append (item : β) (k : κ) : bucket key value (items ++ [item]) k =
    bucket key value items k ++ if key item = k then [value item] else [] := by
  rw [bucket,filter_append,map_append,← bucket]
  congr 1
  by_cases same : key item = k
  · simp [same]
  · simp [same]

theorem get?_group (k : κ) : (group key value items).get? k =
    if bucket key value items k = [] then none else some (bucket key value items k) := by
  induction items using reverseRecOn with
  | nil => rfl
  | append_singleton items item ih =>
    rw [group_append,bucket_append]
    by_cases same : key item = k
    · have pre : ((group key value items).get? k).getD [] = bucket key value items k := by
        rw [ih]
        split
        next empty => exact empty.symm
        next => rfl
      rw [if_pos same,if_neg (append_ne_nil_of_right_ne_nil _ (cons_ne_nil _ _)),same,get?_push_self,pre]
    · rw [get?_push_of_ne _ _ _ (Ne.symm same),ih,if_neg same,append_nil]

theorem getD_group (k : κ) : ((group key value items).get? k).getD [] = bucket key value items k := by
  rw [get?_group]
  split
  next empty => exact empty.symm
  next => rfl

theorem mem_group {k : κ} {es : List α} : (k,es) ∈ (group key value items).entries ↔
    es = bucket key value items k ∧ es ≠ [] := by
  rw [mem_entries,get?_group]
  split
  next empty =>
    constructor
    · intro absent
      cases absent
    · intro both
      exact absurd (both.1.trans empty) both.2
  next full =>
    rw [some.injEq]
    constructor
    · intro same
      exact ⟨same.symm,same ▸ full⟩
    · intro both
      exact both.1.symm

theorem mem_values {es : List α} : es ∈ (group key value items).values ↔
    ∃ k, es = bucket key value items k ∧ es ≠ [] := by
  rw [values,List.mem_map]
  constructor
  · intro mem
    obtain ⟨⟨k,_⟩,inside,rfl⟩ := mem
    exact ⟨k,mem_group.mp inside⟩
  · intro mem
    obtain ⟨k,both⟩ := mem
    exact ⟨(k,es),mem_group.mpr both,rfl⟩

end Group

end Keiko.Library.Grouping
