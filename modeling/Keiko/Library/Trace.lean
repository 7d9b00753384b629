import Keiko.Library.Machine

/-! Traces whose notes are checked one by one against the notes before them, and effects on a
state that write notes. What an effect keeps of its state and of the notes so far is kept by what
effects are put together from. -/
namespace Keiko.Library
open List

universe u v w

section Lawful

variable {ω : Type w} {allowed : List ω → ω → Prop} {notes : List ω} {note : ω}

def Lawful (allowed : List ω → ω → Prop) (notes : List ω) : Prop :=
  ∀ before note after, notes = before ++ note :: after → allowed before note

theorem Lawful.nil : Lawful allowed [] := by
  intro pre note after same
  simp at same

theorem Lawful.snoc (lawful : Lawful allowed notes) (next : allowed notes note) : Lawful allowed (notes ++ [note]) := by
  intro pre other after same
  rcases eq_nil_or_concat after with rfl | ⟨post,last,rfl⟩
  · obtain ⟨rfl,same_note⟩ := append_inj' same rfl
    cases same_note
    exact next
  · rw [concat_eq_append,← cons_append,← append_assoc] at same
    exact lawful pre other post (append_inj' same rfl).1

theorem Lawful.append (lawful : Lawful allowed notes) {more : List ω}
    (next : ∀ pre note after, more = pre ++ note :: after → allowed (notes ++ pre) note) :
    Lawful allowed (notes ++ more) := by
  induction more using reverseRecOn with
  | nil => simpa using lawful
  | append_singleton more note ih =>
    rw [← append_assoc]
    apply (ih _).snoc
    · exact next more note [] rfl
    · intro pre other after same
      apply next pre other (after ++ [note])
      rw [same,append_assoc,cons_append]

theorem Lawful.of_append {more : List ω} (lawful : Lawful allowed (notes ++ more)) : Lawful allowed notes := by
  intro pre other after same
  apply lawful pre other (after ++ more)
  rw [same,append_assoc,cons_append]

theorem Lawful.last (lawful : Lawful allowed (notes ++ [note])) : allowed notes note :=
  lawful notes note [] rfl

theorem allowed_of_single {one : ω} {pre after : List ω} (same : [one] = pre ++ note :: after)
    (next : allowed notes one) : allowed (notes ++ pre) note := by
  rcases singleton_eq_append_iff.mp same with ⟨rfl,same⟩ | ⟨_,empty⟩
  · rw [append_nil,← head_eq_of_cons_eq same]
    exact next
  · cases empty

end Lawful

abbrev Effect (σ : Type u) (ω : Type w) := σ → σ × List ω

namespace Effect

variable {σ : Type u} {ω : Type w} {α : Type v}

def skip : Effect σ ω := fun state => (state,[])

def note (note : ω) : Effect σ ω := fun state => (state,[note])

def update (f : σ → σ) : Effect σ ω := fun state => (f state,[])

def andThen (first second : Effect σ ω) : Effect σ ω := fun state =>
  ((second (first state).1).1,(first state).2 ++ (second (first state).1).2)

def forEach (effect : α → Effect σ ω) : List α → Effect σ ω
  | [] => skip
  | item :: items => (effect item).andThen (forEach effect items)

def Keeps (invariant : σ → List ω → Prop) (effect : Effect σ ω) : Prop :=
  ∀ state notes, invariant state notes → invariant (effect state).1 (notes ++ (effect state).2)

variable {invariant : σ → List ω → Prop} {first second : Effect σ ω} {effect : α → Effect σ ω}

theorem keeps_skip : Keeps invariant (skip : Effect σ ω) := by
  intro s notes holds
  rw [skip,append_nil]
  exact holds

theorem Keeps.andThen (one : Keeps invariant first) (two : Keeps invariant second) :
    Keeps invariant (first.andThen second) := by
  intro s notes holds
  have both := two _ _ (one s notes holds)
  rw [append_assoc] at both
  exact both

theorem Keeps.forEach (each : ∀ item, Keeps invariant (effect item)) (xs : List α) :
    Keeps invariant (forEach effect xs) := by
  induction xs with
  | nil => exact keeps_skip
  | cons item xs ih => exact (each item).andThen ih

theorem forEach_holds {holding : List α → σ → List ω → Prop}
    (each : ∀ item xs s notes, holding (item :: xs) s notes →
      holding xs (effect item s).1 (notes ++ (effect item s).2))
    (xs : List α) {s : σ} {notes : List ω} (holds : holding xs s notes) :
    holding [] (forEach effect xs s).1 (notes ++ (forEach effect xs s).2) := by
  induction xs generalizing s notes with
  | nil =>
    rw [Effect.forEach,skip,append_nil]
    exact holds
  | cons item xs ih =>
    have rest := ih (each item xs s notes holds)
    rw [append_assoc] at rest
    exact rest

theorem mem_forEach {xs : List α} {s : σ} {note : ω} (mem : note ∈ (Effect.forEach effect xs s).2) :
    ∃ item ∈ xs, ∃ reached, note ∈ (effect item reached).2 := by
  induction xs generalizing s with
  | nil => cases mem
  | cons item xs ih =>
    rcases mem_append.mp mem with now | post
    · exact ⟨item,mem_cons_self,s,now⟩
    · obtain ⟨other,inside,reached,noted⟩ := ih post
      exact ⟨other,mem_cons_of_mem _ inside,reached,noted⟩

end Effect

end Keiko.Library
