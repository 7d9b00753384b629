import Mathlib.Data.List.Infix
import Mathlib.Data.Nat.Find

/-! Searching a list for the first place of a pattern. What was found stays found when
the list grows, and what was not can only begin in the last items that were read. -/
namespace Keiko.Library.Search
open List Option

universe u
variable {α : Type u} [DecidableEq α]

/-- `indexOf`, which is `none` for a pattern that does not occur. -/
def indexOf (pattern : List α) : List α → Option Nat
  | [] => if pattern = [] then some 0 else none
  | item :: items =>
    if pattern.isPrefixOf (item :: items) then some 0
    else (indexOf pattern items).map (· + 1)

def includes (pattern list : List α) : Bool := (indexOf pattern list).isSome

variable {pattern list first second : List α} {i : Nat}

theorem indexOf_eq_some : indexOf pattern list = some i ↔
    i ≤ list.length ∧ pattern <+: list.drop i ∧ ∀ early < i, ¬ pattern <+: list.drop early := by
  induction list generalizing i with
  | nil =>
    by_cases empty : pattern = []
    · simp only [indexOf,empty,if_true,some.injEq]
      constructor
      · intro same
        subst same
        simp
      · intro hit
        exact (Nat.le_zero.mp hit.1).symm
    · simp [indexOf,empty]
  | cons item xs ih =>
    by_cases here : pattern <+: item :: xs
    · have hit : indexOf pattern (item :: xs) = some 0 := by
        rw [indexOf,if_pos (List.isPrefixOf_iff_prefix.mpr here)]
      rw [hit]
      constructor
      · intro same
        obtain rfl := some.inj same
        exact ⟨Nat.zero_le _,here,fun early less => absurd less (Nat.not_lt_zero _)⟩
      · intro first
        cases i with
        | zero => rfl
        | succ i => exact absurd here (first.2.2 0 (Nat.succ_pos _))
    · have post : indexOf pattern (item :: xs) = (indexOf pattern xs).map (· + 1) := by
        rw [indexOf,if_neg (fun holds => here (List.isPrefixOf_iff_prefix.mp holds))]
      rw [post]
      cases i with
      | zero => simp [here]
      | succ i =>
        have shifted : (indexOf pattern xs).map (· + 1) = some (i + 1) ↔
            indexOf pattern xs = some i := by simp
        rw [shifted,ih]
        constructor
        · intro ⟨mem,hit,none_before⟩
          refine ⟨Nat.succ_le_succ mem,hit,?_⟩
          intro early less
          cases early with
          | zero => exact here
          | succ early => exact none_before early (Nat.lt_of_succ_lt_succ less)
        · intro ⟨mem,hit,none_before⟩
          exact ⟨Nat.le_of_succ_le_succ mem,hit,fun early less => none_before (early + 1) (Nat.succ_lt_succ less)⟩

theorem indexOf_found (hit : indexOf pattern list = some i) :
    i ≤ list.length ∧ pattern <+: list.drop i ∧
      ∀ early < i, ¬ pattern <+: list.drop early := (indexOf_eq_some).mp hit

theorem indexOf_first (mem : i ≤ list.length) (here : pattern <+: list.drop i)
    (none_before : ∀ early < i, ¬ pattern <+: list.drop early) :
    indexOf pattern list = some i := (indexOf_eq_some).mpr ⟨mem,here,none_before⟩

theorem includes_iff : includes pattern list = true ↔ ∃ i ≤ list.length, pattern <+: list.drop i := by
  constructor
  · intro hit
    obtain ⟨i,place⟩ := isSome_iff_exists.mp hit
    obtain ⟨mem,here,_⟩ := indexOf_found place
    exact ⟨i,mem,here⟩
  · intro occurs
    classical
    obtain ⟨mem,here⟩ := Nat.find_spec occurs
    apply isSome_iff_exists.mpr
    refine ⟨Nat.find occurs,indexOf_first mem here ?_⟩
    intro early less starts
    exact Nat.find_min occurs less ⟨less.le.trans mem,starts⟩

theorem includes_iff_infix : includes pattern list = true ↔ pattern <:+: list := by
  rw [includes_iff]
  constructor
  · intro occurs
    obtain ⟨i,_,here⟩ := occurs
    exact here.isInfix.trans (drop_suffix i list).isInfix
  · intro mem
    obtain ⟨front,back,rfl⟩ := mem
    refine ⟨front.length,by simp,?_⟩
    rw [append_assoc,drop_left]
    exact prefix_append pattern back

theorem includes_eq_false : includes pattern list = false ↔ indexOf pattern list = none := by
  simp [includes]

theorem length_le_of_indexOf (hit : indexOf pattern list = some i) :
    i + pattern.length ≤ list.length := by
  obtain ⟨mem,here,_⟩ := indexOf_found hit
  have fits := here.length_le
  rw [length_drop] at fits
  omega

omit [DecidableEq α] in
theorem prefix_of_append {part : List α} (starts : part <+: first ++ second)
    (fits : part.length ≤ first.length) : part <+: first :=
  prefix_of_prefix_length_le starts (prefix_append first second) fits

theorem indexOf_append (second : List α) (hit : indexOf pattern first = some i) :
    indexOf pattern (first ++ second) = some i := by
  have fits := length_le_of_indexOf hit
  obtain ⟨mem,here,none_before⟩ := indexOf_found hit
  apply indexOf_first
  · rw [length_append]
    omega
  · rw [drop_append_of_le_length mem]
    exact here.trans (prefix_append _ _)
  · intro early less starts
    rw [drop_append_of_le_length (less.le.trans mem)] at starts
    apply none_before early less
    apply prefix_of_append starts
    rw [length_drop]
    omega

theorem includes_append (second : List α) (hit : includes pattern first = true) :
    includes pattern (first ++ second) = true := by
  obtain ⟨i,place⟩ := isSome_iff_exists.mp hit
  exact isSome_iff_exists.mpr ⟨i,indexOf_append second place⟩

theorem includes_append_right (first : List α) (hit : includes pattern second = true) :
    includes pattern (first ++ second) = true := by
  obtain ⟨i,mem,here⟩ := includes_iff.mp hit
  apply includes_iff.mpr
  refine ⟨first.length + i,?_,?_⟩
  · rw [length_append]
    omega
  · rwa [drop_append,drop_eq_nil_of_le (by omega),Nat.add_sub_cancel_left]

theorem includes_past (past : ∀ i, indexOf pattern (first ++ second) = some i →
    first.length ≤ i) : includes pattern (first ++ second) = includes pattern second := by
  rw [Bool.eq_iff_iff]
  constructor
  · intro hit
    obtain ⟨i,place⟩ := isSome_iff_exists.mp hit
    have post := past i place
    obtain ⟨mem,here,_⟩ := indexOf_found place
    rw [length_append] at mem
    rw [drop_append,drop_eq_nil_of_le post] at here
    exact includes_iff.mpr ⟨i - first.length,by omega,here⟩
  · exact includes_append_right first

theorem includes_overlap {kept : Nat} (absent : includes pattern first = false) (long : pattern.length ≤ kept + 1) :
    includes pattern (first ++ second) = includes pattern (first.drop (first.length - kept) ++ second) := by
  have split : first ++ second = first.take (first.length - kept) ++ (first.drop (first.length - kept) ++ second) := by
    rw [← append_assoc,take_append_drop]
  rw [split]
  apply includes_past
  intro i place
  rw [← split] at place
  by_contra early
  rw [length_take] at early
  obtain ⟨_,here,_⟩ := indexOf_found place
  have mem : i ≤ first.length := by omega
  rw [drop_append_of_le_length mem] at here
  have occurs : includes pattern first = true := by
    apply includes_iff.mpr
    refine ⟨i,mem,prefix_of_append here ?_⟩
    rw [length_drop]
    omega
  rw [absent] at occurs
  contradiction

theorem indexOf_behind {item : α} {xs : List α} (fresh : item ∉ first) (second : List α) :
    indexOf (item :: xs) (first ++ (item :: xs ++ second)) = some first.length := by
  induction first with
  | nil =>
    rw [nil_append,cons_append,indexOf,if_pos]
    · rfl
    · exact List.isPrefixOf_iff_prefix.mpr (prefix_append (item :: xs) second)
  | cons other first ih =>
    rw [mem_cons,not_or] at fresh
    obtain ⟨differ,absent⟩ := fresh
    rw [cons_append,indexOf,if_neg,ih absent]
    · rfl
    · simp [differ]

end Keiko.Library.Search
