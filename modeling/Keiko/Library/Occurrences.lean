import Keiko.Library.Search
import Keiko.Library.Splice

/-! The occurrences of a pattern that a scan from left to right finds, none overlapping another.
Every other occurrence overlaps one of them. A text that was edited holds a pattern that no edit
touches only where it held it before. -/
namespace Keiko.Library.Search

universe u
variable {α : Type u}

section Scan
variable [DecidableEq α]

def occurrences (pattern list : List α) : List Nat :=
  if pattern = [] then []
  else match found : indexOf pattern list with
    | none => []
    | some index => index ::
      (occurrences pattern (list.drop (index + pattern.length))).map (· + (index + pattern.length))
termination_by list.length
decreasing_by
  rename_i some_pattern
  have fits := length_le_of_indexOf found
  have positive := List.length_pos_iff.mpr some_pattern
  rw [List.length_drop]
  omega

variable {pattern list : List α}

theorem occurrences_of_none (missing : indexOf pattern list = none) : occurrences pattern list = [] := by
  rw [occurrences]
  split
  · rfl
  · split
    · rfl
    next index found =>
      rw [missing] at found
      cases found

theorem occurrences_of_some (some_pattern : pattern ≠ []) {index : Nat}
    (found : indexOf pattern list = some index) : occurrences pattern list = index ::
      (occurrences pattern (list.drop (index + pattern.length))).map (· + (index + pattern.length)) := by
  rw [occurrences,if_neg some_pattern]
  split
  next missing =>
    rw [missing] at found
    cases found
  next other same =>
    rw [same] at found
    cases found
    rfl

theorem occurs_of_mem {place : Nat} (member : place ∈ occurrences pattern list) :
    pattern ≠ [] ∧ pattern <+: list.drop place ∧ place + pattern.length ≤ list.length := by
  have some_pattern : pattern ≠ [] := by
    intro empty
    rw [occurrences,if_pos empty] at member
    cases member
  refine ⟨some_pattern,?_⟩
  induction size : list.length using Nat.strongRecOn generalizing list place with
  | ind size ih =>
    cases found : indexOf pattern list with
    | none =>
      rw [occurrences_of_none found] at member
      cases member
    | some index =>
      have fits := length_le_of_indexOf found
      have positive := List.length_pos_iff.mpr some_pattern
      rw [occurrences_of_some some_pattern found] at member
      rcases List.mem_cons.mp member with rfl | later
      · exact ⟨(indexOf_found found).2.1,by omega⟩
      · obtain ⟨other,inside,rfl⟩ := List.mem_map.mp later
        have rest := @List.length_drop _ (index + pattern.length) list
        obtain ⟨stands,ends⟩ := ih _ (by omega) inside rfl
        rw [List.drop_drop,Nat.add_comm _ other] at stands
        exact ⟨stands,by omega⟩

theorem exists_overlap (some_pattern : pattern ≠ []) {place : Nat}
    (stands : pattern <+: list.drop place) (inside : place + pattern.length ≤ list.length) :
    ∃ other ∈ occurrences pattern list, other < place + pattern.length ∧ place < other + pattern.length := by
  induction size : list.length using Nat.strongRecOn generalizing list place with
  | ind size ih =>
    have positive := List.length_pos_iff.mpr some_pattern
    cases found : indexOf pattern list with
    | none =>
      exfalso
      have absent := includes_eq_false.mpr found
      have occurs := includes_iff.mpr ⟨place,by omega,stands⟩
      rw [absent] at occurs
      cases occurs
    | some index =>
      obtain ⟨_,_,none_before⟩ := indexOf_found found
      have first : index ≤ place := by
        by_contra earlier
        exact none_before place (by omega) stands
      rw [occurrences_of_some some_pattern found]
      by_cases near : place < index + pattern.length
      · exact ⟨index,List.mem_cons_self,by omega,near⟩
      · have fits := length_le_of_indexOf found
        have rest := @List.length_drop _ (index + pattern.length) list
        have moved : pattern <+: (list.drop (index + pattern.length)).drop (place - (index + pattern.length)) := by
          rw [List.drop_drop]
          have same : index + pattern.length + (place - (index + pattern.length)) = place := by omega
          rw [same]
          exact stands
        obtain ⟨other,member,before,behind⟩ := ih _ (by omega) moved (by omega) rfl
        refine ⟨other + (index + pattern.length),?_,by omega,by omega⟩
        exact List.mem_cons_of_mem _ (List.mem_map.mpr ⟨other,member,rfl⟩)

end Scan

section Edits

theorem infix_of_apart {pattern front block back : List α} (some_block : block ≠ [])
    (apart : ∀ c ∈ block, c ∉ pattern) (within : pattern <:+: front ++ block ++ back) :
    pattern <:+: front ∨ pattern <:+: back := by
  obtain ⟨before,after,whole⟩ := within
  rw [List.append_assoc,List.append_assoc] at whole
  rcases List.append_eq_append_iff.mp whole with ⟨more,first,rest⟩ | ⟨more,first,rest⟩
  · -- The pattern starts in the front part.
    rcases List.append_eq_append_iff.mp rest with ⟨last,split,_⟩ | ⟨last,split,behind⟩
    · exact Or.inl ⟨before,last,by rw [first,split,List.append_assoc]⟩
    · cases last with
      | nil =>
        rw [List.append_nil] at split
        exact Or.inl ⟨before,[],by rw [first,split,List.append_nil]⟩
      | cons c last =>
        exfalso
        obtain ⟨d,block,rfl⟩ := List.exists_cons_of_ne_nil some_block
        obtain ⟨rfl,_⟩ := List.cons.inj behind
        exact apart _ List.mem_cons_self (by rw [split]; simp)
  · -- It starts behind the front part.
    rcases List.append_eq_append_iff.mp rest with ⟨last,split,behind⟩ | ⟨last,split,behind⟩
    · cases pattern with
      | nil => exact Or.inr ⟨[],back,rfl⟩
      | cons c pattern =>
        exact Or.inr ⟨last,after,by rw [List.append_assoc]; exact behind.symm⟩
    · cases pattern with
      | nil => exact Or.inr ⟨[],back,rfl⟩
      | cons c pattern =>
        cases last with
        | nil => exact Or.inr ⟨[],after,behind⟩
        | cons d last =>
          exfalso
          obtain ⟨rfl,_⟩ := List.cons.inj behind
          exact apart _ (by rw [split]; simp) List.mem_cons_self

variable {index : Nat} {source out tail pattern : List α} {edits : List (Edit α)}

/-- A pattern in an edited text that shares no element with what the edits wrote stands in the
source, outside of every edit. -/
theorem occurs_outside (spliced : Spliced index source edits out tail)
    (wrote : ∀ edit ∈ edits, edit.new ≠ [] ∧ ∀ c ∈ edit.new, c ∉ pattern)
    (within : pattern <:+: out) :
    ∃ place, pattern <+: source.drop place ∧ place + pattern.length ≤ source.length ∧
      ∀ edit ∈ edits, edit.stop ≤ index + place ∨ index + place + pattern.length ≤ edit.start := by
  induction spliced with
  | done tail =>
    obtain ⟨before,after,rfl⟩ := within
    refine ⟨before.length,?_,?_,fun edit member => by cases member⟩
    · rw [List.append_assoc,List.drop_left]
      exact List.prefix_append pattern after
    · simp only [List.length_append]
      omega
  | @edit index rest out tail edits gap first start spliced ih =>
    obtain ⟨some_new,apart⟩ := wrote first List.mem_cons_self
    rcases infix_of_apart some_new apart within with inside | behind
    · obtain ⟨before,after,rfl⟩ := inside
      refine ⟨before.length,?_,?_,?_⟩
      · simp only [List.append_assoc]
        rw [List.drop_left]
        exact List.prefix_append pattern _
      · simp only [List.length_append]
        omega
      · intro edit member
        right
        have ordered : first.start ≤ edit.start := by
          rcases List.mem_cons.mp member with rfl | later
          · exact Nat.le_refl _
          · exact Nat.le_trans (Nat.le_add_right _ _) (spliced.inside edit later).1
        simp only [List.length_append] at start
        omega
    · obtain ⟨place,stands,fits,outside⟩ :=
        ih (fun edit member => wrote edit (List.mem_cons_of_mem first member)) behind
      have size : (gap ++ first.old).length = gap.length + first.old.length := List.length_append
      refine ⟨gap.length + first.old.length + place,?_,?_,?_⟩
      · rw [← size,← List.drop_drop,List.drop_left]
        exact stands
      · rw [List.length_append,size]
        omega
      · intro edit member
        rcases List.mem_cons.mp member with rfl | later
        · left
          rw [Edit.stop]
          omega
        · rcases outside edit later with before | after
          · left
            omega
          · right
            omega

theorem count_spliced [DecidableEq α] (c : α) (spliced : Spliced index source edits out tail)
    (kept : ∀ edit ∈ edits, edit.new.count c = edit.old.count c) : out.count c = source.count c := by
  induction spliced with
  | done => rfl
  | @edit index rest out tail edits gap first start spliced ih =>
    rw [List.count_append,List.count_append,List.count_append,List.count_append,kept first List.mem_cons_self,
      ih fun edit member => kept edit (List.mem_cons_of_mem first member)]

end Edits

end Keiko.Library.Search
