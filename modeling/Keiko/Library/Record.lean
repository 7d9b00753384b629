import Keiko.Library.Text
import Mathlib.Data.List.Nodup
import Mathlib.Data.List.Perm.Basic

/-! Records of a JavaScript program: own keys with their values in the order in
which the language enumerates them, array indices ascending before every other
key in the order of insertion. A record carries both facts about its keys. -/
namespace Keiko.Library
open List

def arrayIndex (key : Text) : Option Nat :=
  let canonical := key.all Text.isDigit ∧ key ≠ [] ∧ (key.head? = some '0' → key = ['0'])
  if canonical ∧ Text.decimal key < 2 ^ 32 - 1 then some (Text.decimal key) else none

def precedes (left right : Text) : Bool :=
  match arrayIndex left, arrayIndex right with
  | some i, some j => i < j
  | some _, none => true
  | none, _ => false

theorem precedes_trans {a b c : Text} (first : precedes a b = true) (second : precedes b c = true) :
    precedes a c = true := by
  unfold precedes at *
  cases left : arrayIndex a <;> cases middle : arrayIndex b <;> cases right : arrayIndex c <;>
    simp_all
  omega

theorem precedes_asymm {a b : Text} (first : precedes a b = true) : precedes b a = false := by
  unfold precedes at *
  cases left : arrayIndex a <;> cases right : arrayIndex b <;> simp_all
  omega

structure Record (α : Type*) where
  entries : List (Text × α)
  distinct : (entries.map Prod.fst).Nodup
  ordered : (entries.map Prod.fst).Pairwise fun left right => precedes right left = false

namespace Record

variable {α : Type*}

theorem ext_entries {left right : Record α} (same : left.entries = right.entries) : left = right := by
  cases left
  cases right
  simpa using same

def empty : Record α := ⟨[],List.nodup_nil,List.Pairwise.nil⟩

def keys (record : Record α) : List Text := record.entries.map Prod.fst

@[simp] theorem keys_empty : (empty : Record α).keys = [] := rfl

def values (record : Record α) : List α := record.entries.map Prod.snd

def get? (record : Record α) (key : Text) : Option α :=
  (record.entries.find? fun entry => entry.1 = key).map Prod.snd

theorem get?_eq_some (r : Record α) (key : Text) (v : α) :
    r.get? key = some v ↔ (key,v) ∈ r.entries := by
  constructor
  · intro hit
    obtain ⟨⟨key',value'⟩,e,rfl⟩ := Option.map_eq_some_iff.mp hit
    have named : key' = key := by simpa using find?_some e
    subst named
    exact mem_of_find?_eq_some e
  · intro mem
    have some_entry : (r.entries.find? fun e => e.1 = key).isSome = true := by
      simpa using ⟨v,mem⟩
    obtain ⟨⟨key',value'⟩,e⟩ := Option.isSome_iff_exists.mp some_entry
    have named : key' = key := by simpa using find?_some e
    subst named
    have same := inj_on_of_nodup_map r.distinct (mem_of_find?_eq_some e) mem rfl
    simp only [get?,e,Option.map_some]
    exact congrArg (fun e => some e.2) same

theorem mem_keys (r : Record α) (key : Text) : key ∈ r.keys ↔ ∃ v, r.get? key = some v := by
  simp [keys,get?_eq_some]

theorem get?_eq_none (r : Record α) (key : Text) : r.get? key = none ↔ key ∉ r.keys := by
  rw [mem_keys]
  cases r.get? key <;> simp

section Set

def replaceEntry (key : Text) (value : α) (entries : List (Text × α)) : List (Text × α) :=
  entries.map fun entry => if entry.1 = key then (key,value) else entry

def insertEntry (key : Text) (value : α) : List (Text × α) → List (Text × α)
  | [] => [(key,value)]
  | entry :: entries =>
    if precedes key entry.1 then (key,value) :: entry :: entries
    else entry :: insertEntry key value entries

theorem keys_replaceEntry (key : Text) (v : α) (es : List (Text × α)) :
    (replaceEntry key v es).map Prod.fst = es.map Prod.fst := by
  simp only [replaceEntry,map_map]
  apply map_congr_left
  intro e _
  dsimp only [Function.comp_apply]
  split
  case isTrue same => exact same.symm
  case isFalse => rfl

theorem insertEntry_perm (key : Text) (v : α) (es : List (Text × α)) :
    (insertEntry key v es).Perm ((key,v) :: es) := by
  induction es with
  | nil => exact List.Perm.refl _
  | cons e es ih =>
    rw [insertEntry]
    split
    · exact List.Perm.refl _
    · exact (ih.cons e).trans (List.Perm.swap _ _ _)

theorem insertEntry_ordered {key : Text} {v : α} {es : List (Text × α)}
    (ordered : (es.map Prod.fst).Pairwise fun left right => precedes right left = false) :
    ((insertEntry key v es).map Prod.fst).Pairwise fun left right => precedes right left = false := by
  induction es with
  | nil => simp [insertEntry]
  | cons e es ih =>
    simp only [map_cons,pairwise_cons] at ordered
    rw [insertEntry]
    split
    case isTrue first =>
      simp only [map_cons,pairwise_cons]
      refine ⟨?_,ordered⟩
      intro post mem
      obtain rfl | inside := mem_cons.mp mem
      · exact precedes_asymm first
      · by_contra pre
        have contrary := precedes_trans (by simpa using pre) first
        simp [ordered.1 post inside] at contrary
    case isFalse notFirst =>
      simp only [map_cons,pairwise_cons]
      refine ⟨?_,ih ordered.2⟩
      intro post mem
      have member' := ((insertEntry_perm key v es).map Prod.fst).mem_iff.mp mem
      obtain rfl | inside := mem_cons.mp member'
      · simpa using notFirst
      · exact ordered.1 post inside

def set (record : Record α) (key : Text) (value : α) : Record α :=
  if owned : key ∈ record.keys then ⟨replaceEntry key value record.entries,
      by rw [keys_replaceEntry]; exact record.distinct,
      by rw [keys_replaceEntry]; exact record.ordered⟩
  else ⟨insertEntry key value record.entries,((insertEntry_perm key value record.entries).map Prod.fst).nodup_iff.mpr
        (List.nodup_cons.mpr ⟨owned,record.distinct⟩),
      insertEntry_ordered record.ordered⟩

theorem mem_entries_set (r : Record α) (key : Text) (v : α) (e : Text × α) :
    e ∈ (r.set key v).entries ↔ e = (key,v) ∨ (e.1 ≠ key ∧ e ∈ r.entries) := by
  unfold set
  split
  case isTrue owned =>
    simp only [replaceEntry,mem_map]
    constructor
    · intro image
      obtain ⟨original,mem,rfl⟩ := image
      split
      case isTrue => exact .inl rfl
      case isFalse other => exact .inr ⟨other,mem⟩
    · intro either
      obtain rfl | ⟨other,mem⟩ := either
      · obtain ⟨original,mem,same⟩ := mem_map.mp owned
        exact ⟨original,mem,if_pos same⟩
      · exact ⟨e,mem,if_neg other⟩
  case isFalse fresh =>
    rw [(insertEntry_perm key v r.entries).mem_iff,mem_cons]
    apply or_congr_right
    constructor
    · intro mem
      refine ⟨?_,mem⟩
      intro same
      exact fresh (mem_map.mpr ⟨e,mem,same⟩)
    · exact And.right

theorem get?_set (r : Record α) (key key' : Text) (v : α) :
    (r.set key v).get? key' = if key' = key then some v else r.get? key' := by
  apply Option.ext
  intro hit
  rw [get?_eq_some,mem_entries_set]
  split
  case isTrue same => simp [same,eq_comm]
  case isFalse other => simp [other,get?_eq_some]

@[simp] theorem mem_keys_set (r : Record α) (key key' : Text) (v : α) :
    key' ∈ (r.set key v).keys ↔ key' = key ∨ key' ∈ r.keys := by
  rw [mem_keys,mem_keys,get?_set]
  split
  case isTrue same => simp [same]
  case isFalse other => simp [other]

theorem set_get? {r : Record α} {key : Text} {v : α}
    (hit : r.get? key = some v) : r.set key v = r := by
  have owned : key ∈ r.keys := (mem_keys r key).mpr ⟨v,hit⟩
  apply ext_entries
  rw [set,dif_pos owned]
  have unchanged : ∀ e ∈ r.entries, (if e.1 = key then (key,v) else e) = id e := by
    intro e mem
    dsimp only [id]
    split
    case isTrue same =>
      subst same
      exact inj_on_of_nodup_map r.distinct ((get?_eq_some _ _ _).mp hit) mem rfl
    case isFalse => rfl
  exact (map_congr_left unchanged).trans (map_id _)

end Set

section Assign

/-- `Object.assign(target, source)` on the enumerated entries of the source. -/
def assign (target : Record α) (entries : List (Text × α)) : Record α :=
  entries.foldl (fun record entry => record.set entry.1 entry.2) target

def fromEntries (entries : List (Text × α)) : Record α := assign empty entries

@[simp] theorem assign_nil (tgt : Record α) : tgt.assign [] = tgt := rfl

@[simp] theorem assign_cons (tgt : Record α) (e : Text × α) (es : List (Text × α)) :
    tgt.assign (e :: es) = (tgt.set e.1 e.2).assign es := rfl

theorem mem_entries_assign (tgt : Record α) {es : List (Text × α)}
    (nodup : (es.map Prod.fst).Nodup) (e : Text × α) :
    e ∈ (tgt.assign es).entries ↔
      e ∈ es ∨ (e.1 ∉ es.map Prod.fst ∧ e ∈ tgt.entries) := by
  induction es generalizing tgt with
  | nil => simp
  | cons a es ih =>
    obtain ⟨fresh,nodup⟩ := nodup_cons.mp nodup
    rw [assign_cons,ih (tgt.set a.1 a.2) nodup,mem_entries_set]
    simp only [mem_cons,map_cons]
    constructor
    · intro either
      obtain mem | ⟨absent,rfl | ⟨other,mem⟩⟩ := either
      · exact .inl (.inr mem)
      · exact .inl (.inl rfl)
      · exact .inr ⟨fun hit => hit.elim other absent,mem⟩
    · intro either
      obtain (rfl | mem) | ⟨absent,mem⟩ := either
      · exact .inr ⟨fresh,.inl rfl⟩
      · exact .inl mem
      · exact .inr ⟨fun hit => absent (.inr hit),.inr ⟨fun same => absent (.inl same),mem⟩⟩

theorem of_mem_assign {tgt : Record α} {es : List (Text × α)} {e : Text × α}
    (mem : e ∈ (tgt.assign es).entries) : e ∈ es ∨ e ∈ tgt.entries := by
  induction es generalizing tgt with
  | nil => exact .inr mem
  | cons a es ih =>
    obtain post | set := ih mem
    · exact .inl (mem_cons_of_mem _ post)
    · obtain rfl | ⟨-,old⟩ := (mem_entries_set _ _ _ _).mp set
      · exact .inl (by simp)
      · exact .inr old

theorem of_mem_fromEntries {es : List (Text × α)} {e : Text × α}
    (mem : e ∈ (fromEntries es).entries) : e ∈ es :=
  (of_mem_assign mem).resolve_right (by simp [empty])

theorem mem_entries_fromEntries {es : List (Text × α)}
    (nodup : (es.map Prod.fst).Nodup) (e : Text × α) :
    e ∈ (fromEntries es).entries ↔ e ∈ es := by
  rw [fromEntries,mem_entries_assign empty nodup]
  simp [empty]

theorem fromEntries_perm {es : List (Text × α)} (nodup : (es.map Prod.fst).Nodup) :
    (fromEntries es).entries.Perm es := by
  rw [perm_ext_iff_of_nodup (fromEntries es).distinct.of_map nodup.of_map]
  exact fun e => mem_entries_fromEntries nodup e

theorem get?_fromEntries {es : List (Text × α)}
    (nodup : (es.map Prod.fst).Nodup) (key : Text) (v : α) :
    (fromEntries es).get? key = some v ↔ (key,v) ∈ es := by
  rw [get?_eq_some,mem_entries_fromEntries nodup]

private theorem insertEntry_last {key : Text} {v : α} {es : List (Text × α)}
    (last : ∀ e ∈ es, precedes key e.1 = false) :
    insertEntry key v es = es ++ [(key,v)] := by
  induction es with
  | nil => rfl
  | cons e es ih =>
    rw [insertEntry,if_neg (by simp [last e]),ih (fun x mem => last x (by simp [mem]))]
    rfl

private theorem entries_assign_append {tgt : Record α} {es : List (Text × α)}
    (nodup : ((tgt.entries ++ es).map Prod.fst).Nodup)
    (ordered : ((tgt.entries ++ es).map Prod.fst).Pairwise fun left right => precedes right left = false) :
    (tgt.assign es).entries = tgt.entries ++ es := by
  induction es generalizing tgt with
  | nil => simp
  | cons a es ih =>
    have fresh : a.1 ∉ tgt.keys := by
      rw [map_append,nodup_append] at nodup
      intro owned
      exact nodup.2.2 a.1 owned a.1 (by simp) rfl
    have last : ∀ e ∈ tgt.entries, precedes a.1 e.1 = false := by
      rw [map_append,pairwise_append] at ordered
      intro e mem
      exact ordered.2.2 e.1 (mem_map_of_mem mem) a.1 (by simp)
    have placed : (tgt.set a.1 a.2).entries = tgt.entries ++ [a] := by
      rw [set,dif_neg fresh]
      exact insertEntry_last last
    rw [assign_cons,ih (by simpa [placed] using nodup) (by simpa [placed] using ordered),placed]
    simp

@[simp] theorem fromEntries_entries (r : Record α) : fromEntries r.entries = r := by
  apply ext_entries
  have copied := entries_assign_append (by simpa [empty] using r.distinct :
    (((empty : Record α).entries ++ r.entries).map Prod.fst).Nodup)
    (by simpa [empty] using r.ordered)
  simpa [fromEntries,empty] using copied

end Assign

end Record

end Keiko.Library
