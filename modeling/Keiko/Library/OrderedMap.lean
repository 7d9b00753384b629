import Mathlib.Algebra.BigOperators.Group.List.Basic
import Mathlib.Data.List.Nodup

/-! Maps that remember in which order their keys came. A key that is set again keeps its place, and
a key that is deleted and set again comes last. What is summed over the entries of a map changes by
what the entry at the changed key counts. -/
namespace Keiko.Library
open List

universe u v w

@[ext]
structure OrderedMap (κ : Type u) (α : Type v) where
  entries : List (κ × α)
  distinct : (entries.map Prod.fst).Nodup
  deriving DecidableEq

namespace OrderedMap

variable {κ : Type u} {α : Type v} [DecidableEq κ]

section Operations

def empty : OrderedMap κ α := ⟨[],List.nodup_nil⟩

variable (map : OrderedMap κ α)

def keys : List κ := map.entries.map Prod.fst

def values : List α := map.entries.map Prod.snd

def size : Nat := map.entries.length

def get? (key : κ) : Option α :=
  (map.entries.find? (·.1 == key)).map Prod.snd

def has (key : κ) : Bool := (map.get? key).isSome

def replaceEntry (key : κ) (value : α) (entry : κ × α) : κ × α :=
  if entry.1 = key then (entry.1,value) else entry

theorem keys_replaceEntry (key : κ) (value : α) (es : List (κ × α)) :
    (es.map (replaceEntry key value)).map Prod.fst = es.map Prod.fst := by
  rw [map_map]
  apply map_congr_left
  intro e _
  simp only [Function.comp_apply,replaceEntry]
  split <;> rfl

def set (key : κ) (value : α) : OrderedMap κ α :=
  if present : key ∈ map.entries.map Prod.fst then ⟨map.entries.map (replaceEntry key value),by
      rw [keys_replaceEntry]
      exact map.distinct⟩
  else ⟨map.entries ++ [(key,value)],by
      rw [List.map_append,List.map_singleton,List.nodup_append_comm,List.singleton_append]
      exact List.nodup_cons.mpr ⟨present,map.distinct⟩⟩

def filter (keep : κ → α → Bool) (map : OrderedMap κ α) : OrderedMap κ α :=
  ⟨map.entries.filter fun entry => keep entry.1 entry.2,map.distinct.sublist (List.filter_sublist.map Prod.fst)⟩

def mapValues {β : Type w} (f : α → β) (map : OrderedMap κ α) : OrderedMap κ β :=
  ⟨map.entries.map fun entry => (entry.1,f entry.2),by
    rw [List.map_map]
    exact map.distinct⟩

def delete (key : κ) : OrderedMap κ α :=
  map.filter fun other _ => other != key

end Operations

section Lookup

variable {map : OrderedMap κ α} {key other : κ} {v : α} {β σ : Type w} {s : σ}

theorem mem_entries : (key,v) ∈ map.entries ↔ map.get? key = some v := by
  rw [get?]
  constructor
  · intro mem
    cases hit : map.entries.find? (·.1 == key) with
    | none =>
      have gone := find?_eq_none.mp hit _ mem
      simp at gone
    | some e =>
      have inside := mem_of_find?_eq_some hit
      have same : e.1 = key := by
        simpa using find?_some hit
      rw [inj_on_of_nodup_map map.distinct inside mem same]
      rfl
  · intro hit
    obtain ⟨e,first,rfl⟩ := Option.map_eq_some_iff.mp hit
    have same : e.1 = key := by
      simpa using find?_some first
    subst same
    exact mem_of_find?_eq_some first

theorem mem_keys : key ∈ map.keys ↔ ∃ v, map.get? key = some v := by
  rw [keys,mem_map]
  constructor
  · intro ⟨e,mem,same⟩
    subst same
    exact ⟨e.2,mem_entries.mp mem⟩
  · intro ⟨v,hit⟩
    exact ⟨_,mem_entries.mpr hit,rfl⟩

theorem not_mem_keys : key ∉ map.keys ↔ map.get? key = none := by
  rw [mem_keys,Option.eq_none_iff_forall_not_mem]
  simp

theorem has_iff : map.has key = true ↔ ∃ v, map.get? key = some v := by
  rw [has,Option.isSome_iff_exists]

theorem has_eq_false : map.has key = false ↔ map.get? key = none := by
  rw [has,Option.isSome_eq_false_iff,Option.isNone_iff_eq_none]

@[simp] theorem get?_empty : (empty : OrderedMap κ α).get? key = none := rfl

theorem get?_filter (keep : κ → α → Bool) : (map.filter keep).get? key = (map.get? key).filter (keep key) := by
  apply Option.ext
  intro v
  rw [← mem_entries,Option.filter_eq_some_iff,← mem_entries]
  exact mem_filter

theorem get?_mapValues (f : α → β) : (map.mapValues f).get? key = (map.get? key).map f := by
  apply Option.ext
  intro v
  rw [← mem_entries,Option.map_eq_some_iff]
  simp only [← mem_entries]
  change (key,v) ∈ map.entries.map _ ↔ _
  rw [mem_map]
  constructor
  · intro ⟨e,mem,same⟩
    cases same
    exact ⟨e.2,mem,rfl⟩
  · intro ⟨old,mem,same⟩
    exact ⟨(key,old),mem,by rw [same]⟩

theorem get?_delete : (map.delete key).get? other = if other = key then none else map.get? other := by
  rw [delete,get?_filter]
  split
  next same =>
    subst same
    rw [Option.filter_eq_none_iff]
    simp
  next differ =>
    have kept : (other != key) = true := bne_iff_ne.mpr differ
    cases map.get? other with
    | none => rfl
    | some v => exact Option.filter_some_pos kept

@[simp] theorem get?_delete_self : (map.delete key).get? key = none := by
  rw [get?_delete,if_pos rfl]

theorem get?_delete_of_ne (differ : other ≠ key) : (map.delete key).get? other = map.get? other := by
  rw [get?_delete,if_neg differ]

theorem get?_set (v : α) : (map.set key v).get? other = if other = key then some v else map.get? other := by
  apply Option.ext
  intro hit
  rw [← mem_entries,set]
  split
  next here =>
    obtain ⟨old,held⟩ := mem_keys.mp here
    rw [mem_map]
    split
    next same =>
      subst same
      constructor
      · intro ⟨e,_,replaced⟩
        simp only [replaceEntry] at replaced
        split at replaced
        · cases replaced
          rfl
        next differ =>
          subst replaced
          exact absurd rfl differ
      · intro same
        cases same
        exact ⟨_,mem_entries.mpr held,by simp [replaceEntry]⟩
    next differ =>
      rw [← mem_entries]
      constructor
      · intro ⟨e,mem,replaced⟩
        simp only [replaceEntry] at replaced
        split at replaced
        next same =>
          cases replaced
          exact absurd same differ
        · subst replaced
          exact mem
      · intro mem
        exact ⟨_,mem,by simp [replaceEntry,differ]⟩
  next gone =>
    rw [mem_append,mem_singleton,mem_entries]
    split
    next same =>
      subst same
      rw [not_mem_keys.mp gone]
      simp [eq_comm]
    next differ => simp [differ]

@[simp] theorem get?_set_self (v : α) : (map.set key v).get? key = some v := by
  rw [get?_set,if_pos rfl]

theorem get?_set_of_ne (v : α) (differ : other ≠ key) : (map.set key v).get? other = map.get? other := by
  rw [get?_set,if_neg differ]

theorem filter_set (keep : κ → Bool) (kept : keep key = true) (v : α) :
    (map.set key v).filter (fun key _ => keep key) = (map.filter fun key _ => keep key).set key v := by
  have same : key ∈ (map.filter fun key _ => keep key).entries.map Prod.fst ↔ key ∈ map.entries.map Prod.fst := by
    change key ∈ (map.filter fun key _ => keep key).keys ↔ key ∈ map.keys
    rw [mem_keys,mem_keys,get?_filter]
    simp [kept]
  apply OrderedMap.ext
  by_cases here : key ∈ map.entries.map Prod.fst
  · rw [set,dif_pos here,set,dif_pos (same.mpr here)]
    change (map.entries.map (replaceEntry key v)).filter (fun e => keep e.1) =
      (map.entries.filter fun e => keep e.1).map (replaceEntry key v)
    rw [filter_map]
    congr 1
    apply filter_congr
    intro e _
    simp only [Function.comp_apply,replaceEntry]
    split <;> rfl
  · rw [set,dif_neg here,set,dif_neg (mt same.mp here)]
    change (map.entries ++ [(key,v)]).filter (fun e => keep e.1) =
      map.entries.filter (fun e => keep e.1) ++ [(key,v)]
    rw [filter_append,filter_cons_of_pos (by exact kept),filter_nil]

omit [DecidableEq κ] in
theorem filter_filter (a b : κ → α → Bool) :
    (map.filter a).filter b = map.filter fun key v => a key v && b key v := by
  apply OrderedMap.ext
  change (map.entries.filter _).filter _ = map.entries.filter _
  rw [List.filter_filter]
  apply filter_congr
  intro e _
  exact Bool.and_comm _ _

theorem filter_congr {a b : κ → α → Bool}
    (same : ∀ key v, map.get? key = some v → a key v = b key v) :
    map.filter a = map.filter b := by
  apply OrderedMap.ext
  apply List.filter_congr
  intro e mem
  exact same e.1 e.2 (mem_entries.mp mem)

def without (map : OrderedMap κ α) (gone : List κ) : OrderedMap κ α :=
  map.filter fun key _ => decide (key ∉ gone)

theorem entries_without (gone : List κ) [∀ key, Decidable (key ∈ gone)] :
    (map.without gone).entries = map.entries.filter fun e => decide (e.1 ∉ gone) := by
  change map.entries.filter _ = _
  apply List.filter_congr
  intro e _
  exact decide_eq_decide.mpr Iff.rfl

@[simp] theorem without_nil : map.without [] = map := by
  apply OrderedMap.ext
  exact filter_eq_self.mpr fun e _ => by simp

theorem without_without (a b : List κ) :
    (map.without a).without b = map.without (a ++ b) := by
  rw [without,without,filter_filter,without]
  congr 1
  funext key _
  simp [mem_append,not_or]

theorem delete_eq_without : map.delete key = map.without [key] := by
  rw [delete,without]
  congr 1
  funext other _
  rw [Bool.eq_iff_iff]
  simp

theorem get?_without (gone : List κ) : (map.without gone).get? key = if key ∈ gone then none else map.get? key := by
  rw [without,get?_filter]
  split
  next dropped =>
    rw [Option.filter_eq_none_iff]
    simp [dropped]
  next kept =>
    cases map.get? key with
    | none => rfl
    | some v => exact Option.filter_some_pos (by simpa using kept)

theorem without_set {gone : List κ} (kept : key ∉ gone) (v : α) :
    (map.set key v).without gone = (map.without gone).set key v :=
  filter_set (fun key => decide (key ∉ gone)) (by simpa using kept) v

theorem delete_of_none (gone : map.get? key = none) : map.delete key = map := by
  apply OrderedMap.ext
  change map.entries.filter (fun e => e.1 != key) = map.entries
  rw [filter_eq_self]
  intro e mem
  rw [bne_iff_ne]
  intro same
  subst same
  rw [mem_entries.mp mem] at gone
  cases gone

theorem entries_set_of_mem (here : key ∈ map.keys) (v : α) :
    (map.set key v).entries = map.entries.map (replaceEntry key v) := by
  rw [set,dif_pos (show key ∈ map.entries.map Prod.fst from here)]

theorem entries_set_of_not_mem (gone : key ∉ map.keys) (v : α) :
    (map.set key v).entries = map.entries ++ [(key,v)] := by
  rw [set,dif_neg (show key ∉ map.entries.map Prod.fst from gone)]

theorem keys_set (v : α) : (map.set key v).keys = if key ∈ map.keys then map.keys else map.keys ++ [key] := by
  unfold keys
  split
  next here => rw [entries_set_of_mem here,keys_replaceEntry]
  next gone => rw [entries_set_of_not_mem gone,map_append,map_singleton]

theorem filter_entries_set {keep : κ × α → Bool} (ignored : ∀ v, keep (key,v) = false)
    (v : α) : (map.set key v).entries.filter keep = map.entries.filter keep := by
  by_cases here : key ∈ map.keys
  · rw [entries_set_of_mem here]
    induction map.entries with
    | nil => rfl
    | cons e es ih =>
      obtain ⟨other,old⟩ := e
      by_cases same : other = key
      · simp [replaceEntry,same,ignored,ih]
      · simp [replaceEntry,same,ih,filter_cons]
  · rw [entries_set_of_not_mem here,filter_append]
    simp [ignored]

theorem set_of_some (hit : map.get? key = some v) : map.set key v = map := by
  apply OrderedMap.ext
  rw [entries_set_of_mem (mem_keys.mpr ⟨v,hit⟩)]
  have same : map.entries.map (replaceEntry key v) = map.entries.map id := by
    apply map_congr_left
    intro e mem
    rw [replaceEntry]
    split
    next here =>
      obtain ⟨other,held⟩ := e
      subst here
      rw [Option.some.inj ((mem_entries.mp mem).symm.trans hit)]
      rfl
    next => rfl
  exact same.trans (map_id _)

theorem entries_foldl_set (f : β → α) (xs : List (κ × β))
    (nodup : (map.entries.map Prod.fst ++ xs.map Prod.fst).Nodup) :
    (xs.foldl (fun map item => map.set item.1 (f item.2)) map).entries =
      map.entries ++ xs.map fun item => (item.1,f item.2) := by
  induction xs generalizing map with
  | nil => simp
  | cons item xs ih =>
    have fresh : item.1 ∉ map.entries.map Prod.fst := by
      intro here
      exact (disjoint_of_nodup_append nodup) here (by simp)
    have added : (map.set item.1 (f item.2)).entries = map.entries ++ [(item.1,f item.2)] :=
      entries_set_of_not_mem fresh _
    rw [foldl_cons,ih]
    · rw [added]
      simp
    · rw [added]
      simpa using nodup

omit [DecidableEq κ] in
theorem foldl_entries (map : OrderedMap κ α) {f : σ → κ × α → σ}
    {holding : List (κ × α) → σ → Prop} (initially : holding map.entries s)
    (each : ∀ item xs s, item.1 ∉ xs.map Prod.fst → holding (item :: xs) s →
      holding xs (f s item)) : holding [] (map.entries.foldl f s) := by
  have loop : ∀ xs : List (κ × α), (xs.map Prod.fst).Nodup → ∀ s, holding xs s →
      holding [] (xs.foldl f s) := by
    intro xs
    induction xs with
    | nil =>
      intro _ s holds
      exact holds
    | cons item xs ih =>
      intro nodup s holds
      rw [map_cons,nodup_cons] at nodup
      exact ih nodup.2 _ (each item xs s nodup.1 holds)
  exact loop map.entries map.distinct s initially

theorem foldl_drop (read : σ → OrderedMap κ α) (drops : κ → α → Bool)
    (drop : σ → κ × α → σ) (invariant : σ → Prop) (initially : invariant s)
    (each : ∀ s item, invariant s → (read s).get? item.1 = some item.2 →
      invariant (drop s item) ∧ read (drop s item) = (read s).delete item.1) :
    invariant ((read s).entries.foldl (fun s item =>
        if drops item.1 item.2 then drop s item else s) s) ∧
      ∀ key, (read ((read s).entries.foldl (fun s item =>
          if drops item.1 item.2 then drop s item else s) s)).get? key =
        ((read s).get? key).filter fun v => !drops key v := by
  let holding (xs : List (κ × α)) (cur : σ) : Prop :=
    invariant cur ∧ (∀ item ∈ xs, (read s).get? item.1 = some item.2 ∧
        (read cur).get? item.1 = some item.2) ∧
      ∀ key, key ∉ xs.map Prod.fst → (read cur).get? key =
        ((read s).get? key).filter fun v => !drops key v
  have loop : holding [] ((read s).entries.foldl (fun s item =>
      if drops item.1 item.2 then drop s item else s) s) := by
    apply (read s).foldl_entries
    · refine ⟨initially,fun item mem => ⟨mem_entries.mp mem,mem_entries.mp mem⟩,?_⟩
      intro key absent
      rw [not_mem_keys.mp absent]
      rfl
    · intro item xs cur fresh holds
      obtain ⟨kept,still,done⟩ := holds
      obtain ⟨a,hit⟩ := still item mem_cons_self
      have others : ∀ other ∈ xs, other.1 ≠ item.1 := by
        intro other mem same
        exact fresh (mem_map.mpr ⟨other,mem,same⟩)
      split
      next dropped =>
        obtain ⟨kept,deleted⟩ := each cur item kept hit
        refine ⟨kept,?_,?_⟩
        · intro other mem
          rw [deleted,get?_delete_of_ne (others other mem)]
          exact still other (mem_cons_of_mem _ mem)
        · intro key absent
          rw [deleted,get?_delete]
          split
          next same =>
            rw [same,a,Option.filter_some_neg]
            rw [dropped]
            rfl
          next differ =>
            apply done
            rw [map_cons,mem_cons,not_or]
            exact ⟨differ,absent⟩
      next undropped =>
        refine ⟨kept,fun other mem => still other (mem_cons_of_mem _ mem),?_⟩
        intro key absent
        by_cases same : key = item.1
        · rw [same,hit,a,Option.filter_some_pos]
          simpa using undropped
        · apply done
          rw [map_cons,mem_cons,not_or]
          exact ⟨same,absent⟩
  exact ⟨loop.1,fun key => loop.2.2 key not_mem_nil⟩

end Lookup

section Total

variable {M : Type w} [AddCommMonoid M] (weigh : κ → α → M) {map : OrderedMap κ α} {key : κ} {v : α}

def total (map : OrderedMap κ α) : M := (map.entries.map fun entry => weigh entry.1 entry.2).sum

omit [DecidableEq κ] in
@[simp] theorem total_empty : total weigh (empty : OrderedMap κ α) = 0 := rfl

omit [DecidableEq κ] in
theorem total_filter (keep : κ → α → Bool) : total weigh (map.filter keep) =
    total (fun key v => if keep key v then weigh key v else 0) map := by
  rw [total,total,filter]
  simp only
  induction map.entries with
  | nil => rfl
  | cons e es ih =>
    cases kept : keep e.1 e.2 with
    | true => simp [kept,ih]
    | false => simp [kept,ih]

theorem total_set_of_none (gone : map.get? key = none) (v : α) :
    total weigh (map.set key v) = total weigh map + weigh key v := by
  have absent : key ∉ map.entries.map Prod.fst := not_mem_keys.mpr gone
  rw [total,total,set,dif_neg absent,map_append,sum_append]
  simp

theorem sum_split_of_mem {es : List (κ × α)} (nodup : (es.map Prod.fst).Nodup)
    (mem : (key,v) ∈ es) :
    (es.map fun e => weigh e.1 e.2).sum = weigh key v +
      ((es.filter fun e => e.1 != key).map fun e => weigh e.1 e.2).sum := by
  induction es with
  | nil => cases mem
  | cons e es ih =>
    rw [map_cons,nodup_cons] at nodup
    rcases mem_cons.mp mem with rfl | inside
    · have others : (es.filter fun e => e.1 != key) = es := by
        rw [filter_eq_self]
        intro other inside
        rw [bne_iff_ne]
        intro same
        exact nodup.1 (mem_map.mpr ⟨other,inside,same⟩)
      rw [filter_cons_of_neg (by simp),others,map_cons,sum_cons]
    · have differ : e.1 ≠ key := by
        intro same
        exact nodup.1 (mem_map.mpr ⟨_,inside,same.symm⟩)
      rw [filter_cons_of_pos (by simpa using differ),map_cons,map_cons,sum_cons,sum_cons,ih nodup.2 inside]
      exact add_left_comm _ _ _

theorem total_delete_of_some (hit : map.get? key = some v) :
    total weigh map = weigh key v + total weigh (map.delete key) :=
  sum_split_of_mem weigh map.distinct (mem_entries.mpr hit)

theorem delete_set_of_some (hit : map.get? key = some v) (next : α) :
    ((map.set key next).delete key).entries = (map.delete key).entries := by
  have here : key ∈ map.entries.map Prod.fst := mem_keys.mpr ⟨v,hit⟩
  change ((map.set key next).entries.filter fun e => e.1 != key) =
    map.entries.filter fun e => e.1 != key
  rw [set,dif_pos here]
  simp only
  generalize map.entries = es
  induction es with
  | nil => rfl
  | cons e es ih =>
    by_cases same : e.1 = key
    · simp [replaceEntry,same,ih]
    · simp [replaceEntry,same,ih]

theorem total_set_of_some (hit : map.get? key = some v) (next : α) :
    total weigh (map.set key next) + weigh key v = total weigh map + weigh key next := by
  have pre := total_delete_of_some weigh hit
  have after : total weigh (map.set key next) = weigh key next + total weigh ((map.set key next).delete key) :=
    total_delete_of_some weigh (get?_set_self next)
  have rest : total weigh ((map.set key next).delete key) = total weigh (map.delete key) := by
    rw [total,total,delete_set_of_some hit]
  rw [after,pre,rest,add_right_comm,add_assoc _ _ (weigh key next),add_comm _ (weigh key next),
    ← add_assoc,add_comm (weigh key v)]

end Total

end OrderedMap
end Keiko.Library
