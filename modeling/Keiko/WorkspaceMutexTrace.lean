import Mathlib.Logic.Relation
import Keiko.WorkspaceMutex

/-! What holds in every run of the keyed mutex: sections under a common key follow one another in the
order of their calls, nobody waits in a circle, and what has ended leaves no key behind. -/
namespace Keiko.WorkspaceMutex
open Keiko.Library List Bool

section Serial

variable {reg : Registry} {notes : List Note} {called : Section} {n : ℕ} {phase : Phase} {other : Section}
  {i : ℕ}

def Section.gate (called : Section) : Gate Text :=
  ⟨called.keys,called.predecessors,decide (called.phase = .ended)⟩

structure Serial (reg : Registry) (notes : List Note) : Prop where
  ordered : Gates.Ordered reg.tails (reg.sections.map Section.gate)
  free : ∀ (n : ℕ) called, reg.sections[n]? = some called →
    called.phase ≠ .waiting → ∀ predecessor ∈ called.predecessors, reg.hasEnded predecessor = true
  called : ∀ n keys, .called n keys ∈ notes → ∃ called,
    reg.sections[n]? = some called ∧ ∀ key, key ∈ called.keys ↔ key ∈ keys
  ended : ∀ (n : ℕ) called, reg.sections[n]? = some called →
    called.phase = .ended → ∃ failed, .ended n failed ∈ notes

theorem hasEnded_iff : reg.hasEnded n = true ↔
    ∃ called, reg.sections[n]? = some called ∧ called.phase = .ended := by
  rw [Registry.hasEnded,Option.any_eq_true]
  simp only [decide_eq_true_eq]

theorem opened_iff : Gates.Opened (reg.sections.map Section.gate) n ↔ reg.hasEnded n = true := by
  rw [hasEnded_iff,Gates.Opened]
  simp only [getElem?_map,Option.map_eq_some_iff]
  constructor
  · intro ⟨_,⟨called,hit,rfl⟩,opened⟩
    exact ⟨called,hit,of_decide_eq_true opened⟩
  · intro ⟨called,hit,ended⟩
    exact ⟨called.gate,⟨called,hit,rfl⟩,decide_eq_true ended⟩

theorem Serial.start : Serial ⟨.empty,[]⟩ [] := by
  refine ⟨Gates.Ordered.start,?_,?_,?_⟩
  · intro n called hit
    cases hit
  · intro n keys mem
    cases mem
  · intro n called hit
    cases hit

theorem Serial.turn (serial : Serial reg notes) (hit : reg.sections[n]? = some called)
    (free : ∀ predecessor ∈ called.predecessors, reg.hasEnded predecessor = true)
    {a : ℕ} (pre : a < n)
    (here : reg.sections[a]? = some other) {key : Text} (mem : key ∈ called.keys)
    (shared : key ∈ other.keys) : other.phase = .ended := by
  have gate : (reg.sections.map Section.gate)[n]? = some called.gate := by
    rw [getElem?_map,hit]
    rfl
  have early : (reg.sections.map Section.gate)[a]? = some other.gate := by
    rw [getElem?_map,here]
    rfl
  have opened := serial.ordered.turn gate (fun predecessor inside => opened_iff.mpr
    (free predecessor inside)) mem pre early shared
  exact of_decide_eq_true opened

theorem Serial.call (serial : Serial reg notes) (keys : List Text) :
    Serial (call keys reg).1 (notes ++ (call keys reg).2) := by
  have captured := serial.ordered.enter (nodup_orderedKeys keys)
  rw [length_map] at captured
  have keeps {i : ℕ} (ended : reg.hasEnded i = true) :
      (WorkspaceMutex.call keys reg).1.hasEnded i = true := by
    obtain ⟨other,hit,phase⟩ := hasEnded_iff.mp ended
    apply hasEnded_iff.mpr
    refine ⟨other,?_,phase⟩
    exact (List.getElem?_append_left (List.getElem?_eq_some_iff.mp hit).1).trans hit
  have split {i : ℕ} {other : Section}
      (hit : (WorkspaceMutex.call keys reg).1.sections[i]? = some other) :
      reg.sections[i]? = some other ∨ other.phase = .waiting := by
    change (reg.sections ++ [_])[i]? = _ at hit
    rw [getElem?_append] at hit
    split at hit
    · exact .inl hit
    · have mem := mem_of_getElem? hit
      rw [mem_singleton] at mem
      rw [mem]
      exact .inr rfl
  refine ⟨?_,?_,?_,?_⟩
  · change Gates.Ordered _ ((reg.sections ++ [_]).map Section.gate)
    rw [map_append]
    exact captured
  · intro i other hit begun predecessor mem
    rcases split hit with early | waiting
    · exact keeps (serial.free i other early begun predecessor mem)
    · exact absurd waiting begun
  · intro i asked mem
    rcases mem_append.mp mem with old | new
    · obtain ⟨other,hit,same⟩ := serial.called i asked old
      refine ⟨other,?_,same⟩
      exact (List.getElem?_append_left (List.getElem?_eq_some_iff.mp hit).1).trans hit
    · rw [WorkspaceMutex.call,mem_singleton] at new
      cases new
      refine ⟨_,getElem?_concat_length ..,?_⟩
      intro key
      exact mem_orderedKeys
  · intro i other hit ended
    rcases split hit with early | waiting
    · obtain ⟨failed,mem⟩ := serial.ended i other early ended
      exact ⟨failed,mem_append_left _ mem⟩
    · rw [waiting] at ended
      cases ended

theorem sections_enter (hit : (reg.sections.modify n (·.enter phase))[i]? = some other) :
    ∃ pre, reg.sections[i]? = some pre ∧ other.keys = pre.keys ∧
      other.predecessors = pre.predecessors ∧ (n = i → other.phase = phase) ∧
        (n ≠ i → other = pre) := by
  rw [getElem?_modify] at hit
  obtain ⟨pre,stood,same⟩ := Option.map_eq_some_iff.mp hit
  refine ⟨pre,stood,?_⟩
  split at same
  next here =>
    rw [← same]
    exact ⟨rfl,rfl,fun _ => rfl,fun differ => absurd here differ⟩
  next elsewhere =>
    rw [← same]
    exact ⟨rfl,rfl,fun here => absurd here elsewhere,fun _ => rfl⟩

theorem enter_sections {pre : Section} (stood : reg.sections[i]? = some pre) :
    (reg.sections.modify n (·.enter phase))[i]? =
      some (if n = i then pre.enter phase else pre) := by
  rw [getElem?_modify,stood]
  rfl

theorem gates_running (hit : reg.sections[n]? = some called) (waiting : called.phase = .waiting) :
    (reg.sections.modify n (·.enter .running)).map Section.gate = reg.sections.map Section.gate := by
  apply ext_getElem?
  intro i
  rw [getElem?_map,getElem?_map,getElem?_modify]
  by_cases here : n = i
  · subst here
    rw [hit]
    simp [Section.gate,Section.enter,waiting]
  · simp only [if_neg here]
    cases reg.sections[i]? with
    | none => rfl
    | some other => rfl

theorem gates_ended : (reg.sections.modify n (·.enter .ended)).map Section.gate =
    (reg.sections.map Section.gate).modify n Gates.openGate := by
  apply ext_getElem?
  intro i
  rw [getElem?_map,getElem?_modify,getElem?_modify,getElem?_map]
  cases reg.sections[i]? with
  | none => rfl
  | some other =>
    split
    · rfl
    · rfl

theorem Serial.enter (serial : Serial reg notes) (hit : reg.sections[n]? = some called)
    (free : ∀ predecessor ∈ called.predecessors, reg.hasEnded predecessor = true)
    (onwards : called.phase = .ended → phase = .ended) {tails : OrderedMap Text ℕ}
    (ordered : Gates.Ordered tails ((reg.sections.modify n (·.enter phase)).map Section.gate))
    {more : List Note} (uncalled : ∀ i keys, .called i keys ∉ more)
    (ends : phase = .ended → ∃ failed, .ended n failed ∈ more) :
    Serial ⟨tails,reg.sections.modify n (·.enter phase)⟩ (notes ++ more) := by
  have keeps {i : ℕ} (ended : reg.hasEnded i = true) :
      Registry.hasEnded ⟨tails,reg.sections.modify n (·.enter phase)⟩ i = true := by
    obtain ⟨other,stood,pre⟩ := hasEnded_iff.mp ended
    apply hasEnded_iff.mpr
    refine ⟨_,enter_sections stood,?_⟩
    split
    next here =>
      subst here
      rw [hit] at stood
      cases stood
      exact onwards pre
    · exact pre
  refine ⟨ordered,?_,?_,?_⟩
  · intro i other present begun predecessor mem
    obtain ⟨pre,stood,_,predecessors,_,same⟩ := sections_enter present
    by_cases here : n = i
    · subst here
      rw [hit] at stood
      cases stood
      rw [predecessors] at mem
      exact keeps (free predecessor mem)
    · have unchanged := same here
      subst unchanged
      exact keeps (serial.free i other stood begun predecessor mem)
  · intro i asked mem
    rcases mem_append.mp mem with old | new
    · obtain ⟨other,stood,same⟩ := serial.called i asked old
      refine ⟨_,enter_sections stood,?_⟩
      split <;> exact same
    · exact absurd new (uncalled i asked)
  · intro i other present ended
    obtain ⟨pre,stood,_,_,own,same⟩ := sections_enter present
    by_cases here : n = i
    · subst here
      obtain ⟨failed,mem⟩ := ends ((own rfl).symm.trans ended)
      exact ⟨failed,mem_append_right _ mem⟩
    · have unchanged := same here
      subst unchanged
      obtain ⟨failed,mem⟩ := serial.ended i other stood ended
      exact ⟨failed,mem_append_left _ mem⟩

theorem Serial.resume (serial : Serial reg notes) (n : ℕ) :
    Serial (resume n reg).1 (notes ++ (resume n reg).2) := by
  rw [WorkspaceMutex.resume]
  split
  · rw [append_nil]
    exact serial
  next called hit =>
    split
    next ready =>
      rw [Registry.isReady,and_eq_true,decide_eq_true_eq,all_eq_true] at ready
      obtain ⟨waiting,free⟩ := ready
      apply serial.enter hit free
      · rw [waiting]
        exact nofun
      · rw [gates_running hit waiting]
        exact serial.ordered
      · simp
      · exact nofun
    · rw [append_nil]
      exact serial

theorem Serial.settle (serial : Serial reg notes) (n : ℕ) (failed : Bool) :
    Serial (settle n failed reg).1 (notes ++ (settle n failed reg).2) := by
  rw [WorkspaceMutex.settle]
  split
  · rw [append_nil]
    exact serial
  next called hit =>
    split
    next running =>
      have free := serial.free n called hit (by rw [running]; exact nofun)
      have gate : (reg.sections.map Section.gate)[n]? = some called.gate := by
        rw [getElem?_map,hit]
        rfl
      apply serial.enter hit free
      · exact fun _ => rfl
      · rw [gates_ended]
        exact serial.ordered.leave gate fun predecessor mem =>
          opened_iff.mpr (free predecessor mem)
      · simp
      · exact fun _ => ⟨failed,mem_singleton_self _⟩
    · rw [append_nil]
      exact serial

theorem machine_serial (evs : List Event) : Serial (machine.run evs) (machine.noted evs) := by
  apply Machine.holds_of_step Serial
  · exact Serial.start
  · intro reg notes ev serial
    cases ev with
    | call keys => exact serial.call keys
    | resume n => exact serial.resume n
    | settle n failed => exact serial.settle n failed

end Serial

section Exclusion

variable {registry : Registry} {notes : List Note} {called : Section} {number : ℕ}

def Shares (first second : Section) : Prop := ∃ key ∈ first.keys, key ∈ second.keys

def Waits (registry : Registry) (number predecessor : ℕ) : Prop :=
  ∃ called, registry.sections[number]? = some called ∧ called.phase = .waiting ∧
    predecessor ∈ called.predecessors ∧ registry.hasEnded predecessor = false

/-- Calls are numbered as they come, and one starts behind the ends of all earlier calls for a key of
its own. -/
def InTurn (before : List Note) : Note → Prop
  | .called number _ => ∀ first keys, .called first keys ∈ before → first < number
  | .started number => ∀ first keys other, .called number keys ∈ before → first < number →
      .called first other ∈ before → (∃ key ∈ keys, key ∈ other) → ∃ failed, .ended first failed ∈ before
  | .ended _ _ => True

theorem Serial.inTurn (serial : Serial registry notes) (ev : Event) :
    ∀ pre note after, (effect ev registry).2 = pre ++ note :: after → InTurn (notes ++ pre) note := by
  have single {one note : Note} {pre after : List Note} (same : [one] = pre ++ note :: after) :
      pre = [] ∧ one = note := by
    cases pre with
    | nil =>
      cases same
      exact ⟨rfl,rfl⟩
    | cons a pre =>
      rw [cons_append] at same
      have rest := (cons.inj same).2
      simp at rest
  intro pre note after same
  cases ev with
  | call keys =>
    obtain ⟨rfl,rfl⟩ := single same
    rw [append_nil]
    intro a other mem
    obtain ⟨called,hit,_⟩ := serial.called a other mem
    exact (List.getElem?_eq_some_iff.mp hit).1
  | resume number =>
    rw [effect,WorkspaceMutex.resume] at same
    split at same
    · simp at same
    next called hit =>
      split at same
      next ready =>
        obtain ⟨rfl,rfl⟩ := single same
        rw [append_nil]
        rw [Registry.isReady,and_eq_true,decide_eq_true_eq,all_eq_true] at ready
        intro a keys other asked early mem ⟨key,inside,shared⟩
        obtain ⟨own,stood,own_keys⟩ := serial.called number keys asked
        rw [hit] at stood
        cases stood
        obtain ⟨pre,here,keys_before⟩ := serial.called a other mem
        apply serial.ended a pre here
        exact serial.turn hit ready.2 early here ((own_keys key).mpr inside) ((keys_before key).mpr shared)
      · simp at same
  | settle number failed =>
    rw [effect,WorkspaceMutex.settle] at same
    split at same
    · simp at same
    · split at same
      · obtain ⟨rfl,rfl⟩ := single same
        trivial
      · simp at same

theorem machine_inTurn (evs : List Event) : Lawful InTurn (machine.noted evs) := by
  induction evs using reverseRecOn with
  | nil => exact Lawful.nil
  | append_singleton evs ev ih =>
    rw [Machine.noted_snoc]
    exact ih.append ((machine_serial evs).inTurn ev)

theorem Serial.waits_earlier (serial : Serial registry notes) {predecessor : ℕ}
    (waits : Waits registry number predecessor) : predecessor < number := by
  obtain ⟨called,hit,_,mem,_⟩ := waits
  apply serial.ordered.earlier number called.gate
  · rw [getElem?_map,hit]
    rfl
  · exact mem

theorem Serial.acyclic (serial : Serial registry notes) {last : ℕ}
    (path : Relation.TransGen (Waits registry) number last) : last < number := by
  induction path with
  | single waits => exact serial.waits_earlier waits
  | tail _ waits ih => exact (serial.waits_earlier waits).trans ih

/-- Where no section runs and none may start, every call has ended: the first that had not would have
nobody to wait for. -/
theorem Serial.drains (serial : Serial registry notes)
    (idle : ∀ called ∈ registry.sections, called.phase ≠ .running ∧ registry.isReady called = false)
    (number : ℕ) : ∀ called, registry.sections[number]? = some called → called.phase = .ended := by
  induction number using Nat.strongRecOn with
  | ind number ih =>
    intro called hit
    obtain ⟨quiet,stuck⟩ := idle called (mem_of_getElem? hit)
    cases phase : called.phase with
    | running => exact absurd phase quiet
    | ended => rfl
    | waiting =>
      have ready : registry.isReady called = true := by
        rw [Registry.isReady,phase,decide_eq_true rfl,Bool.true_and,all_eq_true]
        intro predecessor mem
        have gate : (registry.sections.map Section.gate)[number]? = some called.gate := by
          rw [getElem?_map,hit]
          rfl
        have early := serial.ordered.earlier number called.gate gate predecessor mem
        have bound := (List.getElem?_eq_some_iff.mp hit).1
        have here := getElem?_eq_getElem (show predecessor < registry.sections.length by omega)
        exact hasEnded_iff.mpr ⟨_,here,ih predecessor early _ here⟩
      rw [ready] at stuck
      cases stuck

theorem Serial.table_empty (serial : Serial registry notes)
    (ended : ∀ called ∈ registry.sections, called.phase = .ended) : registry.tails.entries = [] := by
  rw [eq_nil_iff_forall_not_mem]
  intro ⟨key,number⟩ mem
  obtain ⟨gate,hit,_,closed,_⟩ := serial.ordered.last key number (OrderedMap.mem_entries.mp mem)
  rw [getElem?_map] at hit
  obtain ⟨called,here,rfl⟩ := Option.map_eq_some_iff.mp hit
  have opened := decide_eq_true (ended called (mem_of_getElem? here))
  rw [Section.gate,opened] at closed
  cases closed

theorem resume_ready (hit : registry.sections[number]? = some called) (waiting : called.phase = .waiting)
    (free : ∀ predecessor ∈ called.predecessors, registry.hasEnded predecessor = true) :
    (resume number registry).1.sections[number]? = some (called.enter .running) := by
  have ready : registry.isReady called = true := by
    rw [Registry.isReady,waiting,decide_eq_true rfl,Bool.true_and,all_eq_true]
    exact free
  rw [resume,hit]
  simp only
  rw [if_pos ready,enter_sections hit,if_pos rfl]

theorem Serial.settle_releases (serial : Serial registry notes)
    (hit : registry.sections[number]? = some called) (running : called.phase = .running)
    (failed : Bool) : (WorkspaceMutex.settle number failed registry).1.hasEnded number = true ∧
      ∀ key, (WorkspaceMutex.settle number failed registry).1.tails.get? key ≠ some number := by
  rw [WorkspaceMutex.settle,hit]
  simp only
  rw [if_pos running]
  constructor
  · apply hasEnded_iff.mpr
    refine ⟨_,enter_sections hit,?_⟩
    rw [if_pos rfl]
    rfl
  · intro key stands
    rw [Gates.get?_leave] at stands
    split at stands
    · cases stands
    next foreign =>
      obtain ⟨gate,here,mem,_⟩ := serial.ordered.last key number stands
      rw [getElem?_map,hit] at here
      cases here
      exact foreign ⟨mem,stands⟩

/-- Sections that share a key run one at a time and in the order of their calls; nobody waits in a
circle, who waits for nobody starts, and what has ended holds no key. -/
theorem machine_mutex (events : List Event) :
    let registry := machine.run events
    (∀ (first second : ℕ) (a b : Section), first < second → registry.sections[first]? = some a →
      registry.sections[second]? = some b → Shares a b → b.phase ≠ .waiting → a.phase = .ended) ∧
    (∀ (first second : ℕ) (a b : Section), first ≠ second → registry.sections[first]? = some a →
      registry.sections[second]? = some b → a.phase = .running → b.phase = .running → ¬ Shares a b) ∧
    Lawful InTurn (machine.noted events) ∧
    (∀ number, ¬ Relation.TransGen (Waits registry) number number) ∧
    (∀ (number : ℕ) called, registry.sections[number]? = some called → called.phase = .waiting →
      (∀ predecessor ∈ called.predecessors, registry.hasEnded predecessor = true) →
        (machine.run (events ++ [.resume number])).sections[number]? =
          some (called.enter .running)) ∧
    ((∀ called ∈ registry.sections,
        called.phase ≠ .running ∧ registry.isReady called = false) →
      ∀ called ∈ registry.sections, called.phase = .ended) ∧
    (∀ (number : ℕ) called failed, registry.sections[number]? = some called →
      called.phase = .running →
        (machine.run (events ++ [.settle number failed])).hasEnded number = true ∧
          ∀ key, (machine.run (events ++ [.settle number failed])).tails.get? key ≠ some number) ∧
    ((∀ called ∈ registry.sections, called.phase = .ended) → registry.tails.entries = []) := by
  intro registry
  have serial := machine_serial events
  have inOrder {first second : ℕ} {a b : Section} (before : first < second)
      (left : registry.sections[first]? = some a) (right : registry.sections[second]? = some b)
      (shares : Shares a b) (begun : b.phase ≠ .waiting) : a.phase = .ended := by
    obtain ⟨key,shared,member⟩ := shares
    exact serial.turn right (serial.free second b right begun) before left member shared
  refine ⟨?_,?_,machine_inTurn events,?_,?_,?_,?_,?_⟩
  · intro first second a b before left right shares begun
    exact inOrder before left right shares begun
  · intro first second a b different left right running busy shares
    rcases Nat.lt_or_gt_of_ne different with before | after
    · have ended := inOrder before left right shares (by rw [busy]; exact nofun)
      rw [running] at ended
      cases ended
    · obtain ⟨key,member,shared⟩ := shares
      have ended := inOrder after right left ⟨key,shared,member⟩ (by rw [running]; exact nofun)
      rw [busy] at ended
      cases ended
  · intro number path
    exact lt_irrefl number (serial.acyclic path)
  · intro number called found waiting free
    rw [Machine.run_snoc]
    exact resume_ready found waiting free
  · intro idle called member
    obtain ⟨number,found⟩ := mem_iff_getElem?.mp member
    exact serial.drains idle number called found
  · intro number called failed found running
    rw [Machine.run_snoc]
    exact serial.settle_releases found running failed
  · exact serial.table_empty

end Exclusion

end Keiko.WorkspaceMutex
