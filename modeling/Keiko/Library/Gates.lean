import Keiko.Library.OrderedMap

/-! Gates that stand under keys. Who comes finds, under each of his keys, the gate of the last who
came for it, and puts his own in its place; who leaves opens his gate and takes it away where it still
stands. Whoever leaves only behind open gates leaves the keys in the order in which they were asked
for. -/
namespace Keiko.Library
open List Option
open OrderedMap hiding keys

universe u

structure Gate (κ : Type u) where
  keys : List κ
  predecessors : List ℕ
  opened : Bool
  deriving DecidableEq

namespace Gates

variable {κ : Type u} [DecidableEq κ]

section Table

def enter (number : ℕ) : List κ → OrderedMap κ ℕ → List ℕ × OrderedMap κ ℕ
  | [], tails => ([],tails)
  | key :: keys, tails =>
    let rest := enter number keys (tails.set key number)
    ((tails.get? key).toList ++ rest.1,rest.2)

def leave (number : ℕ) : List κ → OrderedMap κ ℕ → OrderedMap κ ℕ
  | [], tails => tails
  | key :: keys, tails =>
    leave number keys (if tails.get? key = some number then tails.delete key else tails)

variable {number predecessor : ℕ} {keys : List κ} {key : κ} {tails : OrderedMap κ ℕ}

theorem get?_enter : (enter number keys tails).2.get? key = if key ∈ keys then some number else tails.get? key := by
  induction keys generalizing tails with
  | nil => rfl
  | cons first keys ih =>
    rw [enter,ih,get?_set]
    by_cases post : key ∈ keys
    · rw [if_pos post,if_pos (mem_cons_of_mem _ post)]
    · rw [if_neg post]
      by_cases same : key = first
      · rw [if_pos same,if_pos (mem_cons.mpr (.inl same))]
      · rw [if_neg same,if_neg]
        intro mem
        rcases mem_cons.mp mem with here | there
        · exact same here
        · exact post there

theorem mem_enter (nodup : keys.Nodup) : predecessor ∈ (enter number keys tails).1 ↔
    ∃ key ∈ keys, tails.get? key = some predecessor := by
  induction keys generalizing tails with
  | nil =>
    constructor
    · exact nofun
    · intro ⟨_,absent,_⟩
      cases absent
  | cons a keys ih =>
    obtain ⟨fresh,nodup⟩ := nodup_cons.mp nodup
    have others : (∃ key ∈ keys, (tails.set a number).get? key = some predecessor) ↔
        ∃ key ∈ keys, tails.get? key = some predecessor := by
      apply exists_congr
      intro key
      apply and_congr_right
      intro mem
      rw [get?_set_of_ne]
      exact fun same => fresh (same ▸ mem)
    rw [enter,mem_append,ih nodup,others,mem_toList,exists_mem_cons_iff]

theorem get?_leave : (leave number keys tails).get? key =
    if key ∈ keys ∧ tails.get? key = some number then none else tails.get? key := by
  induction keys generalizing tails with
  | nil =>
    rw [leave,if_neg]
    exact fun mem => absurd mem.1 not_mem_nil
  | cons first keys ih =>
    rw [leave,ih]
    by_cases same : key = first
    · subst same
      by_cases stands : tails.get? key = some number
      · rw [if_pos stands,get?_delete_self,if_neg (fun held => nomatch held.2),if_pos ⟨mem_cons_self,stands⟩]
      · rw [if_neg stands,if_neg (fun held => stands held.2),if_neg (fun held => stands held.2)]
    · have kept : (if tails.get? first = some number then tails.delete first else tails).get? key = tails.get? key := by
        split
        · exact get?_delete_of_ne same
        · rfl
      have mem : key ∈ first :: keys ↔ key ∈ keys := by
        rw [mem_cons]
        exact or_iff_right same
      simp only [kept,mem]

end Table

section Order

variable {tails : OrderedMap κ ℕ} {gates : List (Gate κ)} {gate : Gate κ} {number : ℕ} {key : κ}

def Opened (gates : List (Gate κ)) (number : ℕ) : Prop :=
  ∃ gate, gates[number]? = some gate ∧ gate.opened = true

structure Ordered (tails : OrderedMap κ ℕ) (gates : List (Gate κ)) : Prop where
  last : ∀ key number, tails.get? key = some number → ∃ gate, gates[number]? = some gate ∧
    key ∈ gate.keys ∧ gate.opened = false ∧
      ∀ (later : ℕ) other, gates[later]? = some other → key ∈ other.keys → later ≤ number
  drained : ∀ key, tails.get? key = none → ∀ (number : ℕ) gate, gates[number]? = some gate →
    key ∈ gate.keys → gate.opened = true
  earlier : ∀ (number : ℕ) gate, gates[number]? = some gate → ∀ predecessor ∈ gate.predecessors, predecessor < number
  behind : ∀ (number : ℕ) gate, gates[number]? = some gate → ∀ key ∈ gate.keys,
    ∀ (first : ℕ) other, first < number → gates[first]? = some other → key ∈ other.keys →
      other.opened = true ∨ ∃ predecessor ∈ gate.predecessors, first ≤ predecessor ∧
        ∃ before, gates[predecessor]? = some before ∧ key ∈ before.keys
  order : ∀ (number : ℕ) gate, gates[number]? = some gate → gate.opened = true →
    ∀ predecessor ∈ gate.predecessors, Opened gates predecessor

theorem Ordered.start : Ordered (.empty : OrderedMap κ ℕ) [] := by
  refine ⟨?_,?_,?_,?_,?_⟩
  · intro key number stands
    cases stands
  all_goals
    intros
    simp_all

theorem Ordered.turn (ordered : Ordered tails gates) (hit : gates[number]? = some gate)
    (free : ∀ predecessor ∈ gate.predecessors, Opened gates predecessor) (mem : key ∈ gate.keys)
    {a : ℕ} {other : Gate κ} (pre : a < number) (here : gates[a]? = some other)
    (shared : key ∈ other.keys) : other.opened = true := by
  induction number using Nat.strongRecOn generalizing gate with
  | ind number ih =>
    rcases ordered.behind number gate hit key mem a other pre here shared with
      opened | ⟨predecessor,captured,post,between,standing,common⟩
    · exact opened
    · obtain ⟨same,stood,opened⟩ := free predecessor captured
      rw [standing] at stood
      cases stood
      rcases Nat.lt_or_eq_of_le post with strictly | equal
      · exact ih predecessor (ordered.earlier number gate hit predecessor captured) standing
          (ordered.order predecessor between standing opened) common strictly
      · subst equal
        rw [here] at standing
        cases standing
        exact opened

theorem Ordered.enter (ordered : Ordered tails gates) {keys : List κ} (nodup : keys.Nodup) :
    Ordered (Gates.enter gates.length keys tails).2
      (gates ++ [⟨keys,(Gates.enter gates.length keys tails).1,false⟩]) := by
  have captured : ∀ predecessor ∈ (Gates.enter gates.length keys tails).1,
      ∃ key ∈ keys, tails.get? key = some predecessor := fun _ => (mem_enter nodup).mp
  have old {number : ℕ} {gate : Gate κ} (hit : gates[number]? = some gate) :
      (gates ++ [⟨keys,(Gates.enter gates.length keys tails).1,false⟩])[number]? = some gate := by
    rw [List.getElem?_append_left (List.getElem?_eq_some_iff.mp hit).1]
    exact hit
  have split {number : ℕ} {gate : Gate κ} (hit : (gates ++
      [⟨keys,(Gates.enter gates.length keys tails).1,false⟩])[number]? = some gate) :
      gates[number]? = some gate ∨ number = gates.length ∧
        gate = ⟨keys,(Gates.enter gates.length keys tails).1,false⟩ := by
    rcases Nat.lt_trichotomy number gates.length with pre | here | beyond
    · rw [getElem?_append_left pre] at hit
      exact .inl hit
    · subst here
      rw [getElem?_concat_length] at hit
      exact .inr ⟨rfl,(some.inj hit).symm⟩
    · rw [getElem?_eq_none (by simp; omega)] at hit
      cases hit
  refine ⟨?_,?_,?_,?_,?_⟩
  · intro key number stands
    rw [get?_enter] at stands
    split at stands
    next mem =>
      cases stands
      refine ⟨_,getElem?_concat_length ..,mem,rfl,?_⟩
      intro post other present _
      have bound := (List.getElem?_eq_some_iff.mp present).1
      rw [length_append,length_singleton] at bound
      omega
    next foreign =>
      obtain ⟨gate,hit,mem,closed,greatest⟩ := ordered.last key number stands
      refine ⟨gate,old hit,mem,closed,?_⟩
      intro post other present shared
      rcases split present with early | ⟨_,rfl⟩
      · exact greatest post other early shared
      · exact absurd shared foreign
  · intro key drained number gate hit mem
    rw [get?_enter] at drained
    split at drained
    · cases drained
    next foreign =>
      rcases split hit with early | ⟨_,rfl⟩
      · exact ordered.drained key drained number gate early mem
      · exact absurd mem foreign
  · intro number gate hit predecessor mem
    rcases split hit with early | ⟨rfl,rfl⟩
    · exact ordered.earlier number gate early predecessor mem
    · obtain ⟨key,_,stands⟩ := captured predecessor mem
      obtain ⟨pre,present,_⟩ := ordered.last key predecessor stands
      exact (List.getElem?_eq_some_iff.mp present).1
  · intro number gate hit key mem a other pre present shared
    rcases split hit with early | ⟨rfl,rfl⟩
    · have bound := (List.getElem?_eq_some_iff.mp early).1
      rw [getElem?_append_left (by omega)] at present
      rcases ordered.behind number gate early key mem a other pre present shared with
        opened | ⟨predecessor,captured,post,between,standing,common⟩
      · exact .inl opened
      · exact .inr ⟨predecessor,captured,post,between,old standing,common⟩
    · rw [getElem?_append_left pre] at present
      cases stands : tails.get? key with
      | none => exact .inl (ordered.drained key stands a other present shared)
      | some predecessor =>
        obtain ⟨between,standing,common,_,greatest⟩ := ordered.last key predecessor stands
        refine .inr ⟨predecessor,(mem_enter nodup).mpr ⟨key,mem,stands⟩,
          greatest a other present shared,between,old standing,common⟩
  · intro number gate hit opened predecessor mem
    rcases split hit with early | ⟨_,rfl⟩
    · obtain ⟨pre,present,open_before⟩ := ordered.order number gate early opened predecessor mem
      exact ⟨pre,old present,open_before⟩
    · cases opened

def openGate (gate : Gate κ) : Gate κ := { gate with opened := true }

theorem Ordered.leave (ordered : Ordered tails gates) (hit : gates[number]? = some gate)
    (free : ∀ predecessor ∈ gate.predecessors, Opened gates predecessor) :
    Ordered (Gates.leave number gate.keys tails) (gates.modify number openGate) := by
  have read {i : ℕ} {other : Gate κ} (present : (gates.modify number openGate)[i]? = some other) :
      ∃ pre, gates[i]? = some pre ∧ other.keys = pre.keys ∧
        other.predecessors = pre.predecessors ∧ (pre.opened = true → other.opened = true) ∧
          (number ≠ i → other = pre) := by
    rw [getElem?_modify] at present
    obtain ⟨pre,stood,same⟩ := map_eq_some_iff.mp present
    refine ⟨pre,stood,?_⟩
    split at same
    next here =>
      rw [← same]
      exact ⟨rfl,rfl,fun _ => rfl,fun differ => absurd here differ⟩
    next =>
      rw [← same]
      exact ⟨rfl,rfl,id,fun _ => rfl⟩
  have write {i : ℕ} {pre : Gate κ} (stood : gates[i]? = some pre) :
      ∃ other, (gates.modify number openGate)[i]? = some other ∧ other.keys = pre.keys ∧
        (pre.opened = true → other.opened = true) ∧ (number = i → other.opened = true) ∧
          (number ≠ i → other = pre) := by
    rw [getElem?_modify,stood]
    refine ⟨_,rfl,?_⟩
    split
    next here => exact ⟨rfl,fun _ => rfl,fun _ => rfl,fun differ => absurd here differ⟩
    next elsewhere => exact ⟨rfl,id,fun here => absurd here elsewhere,fun _ => rfl⟩
  have still {i : ℕ} (opened : Opened gates i) : Opened (gates.modify number openGate) i := by
    obtain ⟨pre,stood,open_before⟩ := opened
    obtain ⟨other,present,_,opens,_⟩ := write stood
    exact ⟨other,present,opens open_before⟩
  refine ⟨?_,?_,?_,?_,?_⟩
  · intro key i stands
    rw [get?_leave] at stands
    split at stands
    · cases stands
    next elsewhere =>
      obtain ⟨pre,stood,mem,closed,greatest⟩ := ordered.last key i stands
      have differ : number ≠ i := by
        intro here
        subst here
        rw [hit] at stood
        cases stood
        exact elsewhere ⟨mem,stands⟩
      obtain ⟨other,present,_,_,_,same⟩ := write stood
      have unchanged := same differ
      subst unchanged
      refine ⟨other,present,mem,closed,?_⟩
      intro post another inside shared
      obtain ⟨early,was,keys,_⟩ := read inside
      rw [keys] at shared
      exact greatest post early was shared
  · intro key drained i other present mem
    obtain ⟨pre,stood,keys,_,opens,_⟩ := read present
    rw [keys] at mem
    rw [get?_leave] at drained
    split at drained
    next held =>
      rcases Nat.lt_trichotomy i number with early | here | post
      · exact opens (ordered.turn hit free held.1 early stood mem)
      · subst here
        obtain ⟨written,inside,_,_,opened,_⟩ := write stood
        rw [present] at inside
        cases inside
        exact opened rfl
      · obtain ⟨_,_,_,_,greatest⟩ := ordered.last key number held.2
        have bound := greatest i pre stood mem
        omega
    next => exact opens (ordered.drained key drained i pre stood mem)
  · intro i other present predecessor mem
    obtain ⟨pre,stood,_,predecessors,_⟩ := read present
    rw [predecessors] at mem
    exact ordered.earlier i pre stood predecessor mem
  · intro i other present key mem a another pre inside shared
    obtain ⟨gate_before,stood,keys,predecessors,_⟩ := read present
    obtain ⟨first_before,was,first_keys,_,opens,_⟩ := read inside
    rw [keys] at mem
    rw [first_keys] at shared
    rw [predecessors]
    rcases ordered.behind i gate_before stood key mem a first_before pre was shared with
      opened | ⟨predecessor,captured,post,between,standing,common⟩
    · exact .inl (opens opened)
    · obtain ⟨written,there,same,_⟩ := write standing
      exact .inr ⟨predecessor,captured,post,written,there,by rw [same]; exact common⟩
  · intro i other present opened predecessor mem
    obtain ⟨pre,stood,_,predecessors,_,same⟩ := read present
    rw [predecessors] at mem
    by_cases here : number = i
    · subst here
      rw [hit] at stood
      cases stood
      exact still (free predecessor mem)
    · have unchanged := same here
      subst unchanged
      exact still (ordered.order i other stood opened predecessor mem)

end Order

end Gates
end Keiko.Library
