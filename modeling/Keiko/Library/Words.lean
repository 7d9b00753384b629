import Keiko.Library.UnitText
import Mathlib.Data.List.Induction
import Mathlib.Data.List.TakeWhile

/-! The words of a JavaScript string, and the string in which every run of white space is one blank
and none stands at an end. Text that white space divides has the words of its parts. -/
namespace Keiko.Library.Units
open List Bool

/-- The text behind a unit that is inside a run of white space or not, with one blank for each run. -/
def collapseFrom : (inside : Bool) → Units → Units
  | _, [] => []
  | inside, c :: text =>
    if CodeUnit.isSpace c then if inside then collapseFrom true text else unit ' ' :: collapseFrom true text
    else c :: collapseFrom false text

/-- `replace(/\s+/g, " ")`. -/
def collapse (text : Units) : Units := collapseFrom false text

def wordsFrom (word : Units) : Units → List Units
  | [] => if word = [] then [] else [word]
  | c :: text =>
    if CodeUnit.isSpace c then if word = [] then wordsFrom [] text else word :: wordsFrom [] text
    else wordsFrom (word ++ [c]) text

def words (text : Units) : List Units := wordsFrom [] text

def spaced : List Units → Units
  | [] => []
  | [word] => word
  | word :: next :: rest => word ++ unit ' ' :: spaced (next :: rest)

section Split
variable {c : CodeUnit} (space : CodeUnit.isSpace c = true)
include space

theorem wordsFrom_append (word t rest : Units) :
    wordsFrom word (t ++ c :: rest) = wordsFrom word t ++ words rest := by
  induction t generalizing word with
  | nil =>
    have read : wordsFrom word (c :: rest) = if word = [] then words rest else word :: words rest := by
      rw [wordsFrom,if_pos space]
      rfl
    rw [nil_append,read,wordsFrom]
    split
    · rfl
    · rfl
  | cons d t ih =>
    rw [cons_append,wordsFrom,wordsFrom]
    split
    · split
      · exact ih []
      · rw [ih,cons_append]
    · exact ih _

theorem words_append (t rest : Units) : words (t ++ c :: rest) = words t ++ words rest :=
  wordsFrom_append space [] t rest

end Split

section Spaced
variable {word : Units} {list first second : List Units}

theorem spaced_cons (word : Units) (full : list ≠ []) : spaced (word :: list) = word ++ unit ' ' :: spaced list := by
  cases list with
  | nil => exact absurd rfl full
  | cons next rest => rfl

theorem spaced_suffix (first : List Units) (full : second ≠ []) : spaced second <:+ spaced (first ++ second) := by
  induction first with
  | nil => exact suffix_refl _
  | cons word first ih =>
    rw [cons_append,spaced_cons word (append_ne_nil_of_right_ne_nil first full)]
    exact ih.trans ((suffix_cons _ _).trans (suffix_append _ _))

theorem spaced_prefixed (first second : List Units) : spaced first <+: spaced (first ++ second) := by
  induction first with
  | nil => exact List.nil_prefix
  | cons word first ih =>
    cases first with
    | nil =>
      cases second with
      | nil => exact prefix_refl _
      | cons next second => exact prefix_append word _
    | cons next first =>
      rw [spaced_cons word (cons_ne_nil _ _),cons_append,
        spaced_cons word (append_ne_nil_of_left_ne_nil (cons_ne_nil _ _) _)]
      apply (prefix_append_right_inj word).mpr
      exact (prefix_cons_inj _).mpr ih

theorem spaced_infix (together : first <:+: second) : spaced first <:+: spaced second := by
  obtain ⟨front,back,rfl⟩ := together
  by_cases full : first = []
  · rw [full]
    exact List.nil_infix
  · rw [append_assoc]
    exact (spaced_prefixed first back).isInfix.trans
      (spaced_suffix front (append_ne_nil_of_left_ne_nil full back)).isInfix

end Spaced

section Collapse

def Solid (word : Units) : Prop := ∀ c ∈ word, CodeUnit.isSpace c = false

theorem solid_of_mem_wordsFrom {word : Units} (solid : Solid word) (t : Units) :
    ∀ other ∈ wordsFrom word t, other ≠ [] ∧ Solid other := by
  induction t generalizing word with
  | nil =>
    intro other mem
    rw [wordsFrom] at mem
    split at mem
    · cases mem
    next full =>
      obtain rfl := mem_singleton.mp mem
      exact ⟨full,solid⟩
  | cons c t ih =>
    intro other mem
    have empty : Solid [] := fun _ absurd => by cases absurd
    rw [wordsFrom] at mem
    split at mem
    · split at mem
      · exact ih empty other mem
      next full =>
        rcases mem_cons.mp mem with rfl | inside
        · exact ⟨full,solid⟩
        · exact ih empty other inside
    next dark =>
      apply ih _ other mem
      intro d inside
      rcases mem_append.mp inside with front | last
      · exact solid d front
      · rw [mem_singleton.mp last]
        exact eq_false_iff.mpr dark

theorem trimEnd_append_of_solid {word : Units} (t : Units) (full : word ≠ []) (solid : Solid word) :
    trimEnd (word ++ t) = word ++ trimEnd t := by
  induction t using reverseRecOn with
  | nil =>
    obtain ⟨front,c,rfl⟩ := eq_nil_or_concat word |>.resolve_left full
    have dark := solid c (by simp)
    have kept : trimEnd (front ++ [c]) = front ++ [c] := by
      rw [trimEnd,reverse_append,reverse_singleton,singleton_append,
        dropWhile_cons_of_neg (by rw [dark]; exact false_ne_true),reverse_cons,
        reverse_reverse]
    rw [append_nil,concat_eq_append,kept]
    exact (append_nil _).symm
  | append_singleton t c ih =>
    have step : ∀ front : Units, trimEnd (front ++ [c]) =
        if CodeUnit.isSpace c then trimEnd front else front ++ [c] := by
      intro front
      rw [trimEnd,reverse_append,reverse_singleton,singleton_append]
      split
      next space => rw [dropWhile_cons_of_pos space,trimEnd]
      next dark =>
        rw [dropWhile_cons_of_neg dark,reverse_cons,reverse_reverse]
    rw [← append_assoc,step,step]
    split
    · exact ih
    · rw [append_assoc]

theorem spaced_eq_nil_iff {word : Units} (solid : Solid word) (t : Units) :
    spaced (wordsFrom word t) = [] ↔ wordsFrom word t = [] := by
  constructor
  · intro empty
    have all := solid_of_mem_wordsFrom solid t
    cases list : wordsFrom word t with
    | nil => rfl
    | cons other rest =>
      rw [list] at empty all
      exfalso
      apply (all other mem_cons_self).1
      cases rest with
      | nil => exact empty
      | cons next rest => exact (append_eq_nil_iff.mp empty).1
  · intro empty
    rw [empty]
    rfl

theorem trimEnd_cons_space {c : CodeUnit} (space : CodeUnit.isSpace c = true) (t : Units) :
    trimEnd (c :: t) = if trimEnd t = [] then [] else c :: trimEnd t := by
  unfold trimEnd
  rw [reverse_cons]
  by_cases blank : t.reverse.dropWhile CodeUnit.isSpace = []
  · have all := dropWhile_eq_nil_iff.mp blank
    rw [blank,reverse_nil,if_pos rfl,reverse_eq_nil_iff,dropWhile_eq_nil_iff]
    intro d mem
    rcases mem_append.mp mem with inside | last
    · exact all d inside
    · rw [mem_singleton.mp last]
      exact space
  · rw [if_neg (by rwa [reverse_eq_nil_iff]),dropWhile_append,if_neg,reverse_append]
    · rfl
    · rwa [List.isEmpty_iff]

/-- Behind the start of a word, and behind white space, the text that is left of trimming the end is
that of the words. -/
theorem trimEnd_collapseFrom (t : Units) : (∀ word, word ≠ [] → Solid word →
      trimEnd (word ++ collapseFrom false t) = spaced (wordsFrom word t)) ∧
    trimEnd (collapseFrom true t) = spaced (wordsFrom [] t) := by
  induction t with
  | nil =>
    constructor
    · intro word full solid
      rw [trimEnd_append_of_solid _ full solid,wordsFrom,if_neg full]
      exact append_nil _
    · rfl
  | cons c t ih =>
    obtain ⟨inside,outside⟩ := ih
    by_cases space : CodeUnit.isSpace c = true
    · constructor
      · intro word full solid
        have empty : Solid [] := fun _ absurd => by cases absurd
        rw [trimEnd_append_of_solid _ full solid,collapseFrom,if_pos space,
          if_neg Bool.false_ne_true,trimEnd_cons_space (by decide),outside,wordsFrom,if_pos space,
          if_neg full]
        by_cases none_left : wordsFrom [] t = []
        · rw [none_left]
          exact append_nil _
        · rw [if_neg fun blank => none_left ((spaced_eq_nil_iff empty t).mp blank),spaced_cons word none_left]
      · rw [collapseFrom,if_pos space,if_pos rfl,outside,wordsFrom,if_pos space,if_pos rfl]
    · constructor
      · intro word full solid
        rw [collapseFrom,if_neg space,wordsFrom,if_neg space,← inside (word ++ [c]),append_assoc,singleton_append]
        · exact append_ne_nil_of_left_ne_nil full _
        · intro d mem
          rcases mem_append.mp mem with front | last
          · exact solid d front
          · rw [mem_singleton.mp last]
            exact eq_false_iff.mpr space
      · rw [collapseFrom,if_neg space,wordsFrom,if_neg space,nil_append,← inside [c],singleton_append]
        · exact cons_ne_nil _ _
        · intro d mem
          rw [mem_singleton.mp mem]
          exact eq_false_iff.mpr space

theorem trimStart_collapse (t : Units) : trimStart (collapse t) = collapseFrom true t := by
  have plain : ∀ t, trimStart (collapseFrom true t) = collapseFrom true t := by
    intro t
    induction t with
    | nil => rfl
    | cons c t ih =>
      rw [collapseFrom]
      split
      · rw [if_pos rfl]
        exact ih
      next dark => exact dropWhile_cons_of_neg dark
  cases t with
  | nil => rfl
  | cons c t =>
    rw [collapse,collapseFrom,collapseFrom]
    split
    · rw [if_neg Bool.false_ne_true,if_pos rfl]
      exact plain t
    next dark => exact dropWhile_cons_of_neg dark

theorem trim_collapse (t : Units) : trim (collapse t) = spaced (words t) := by
  rw [trim,trimStart_collapse]
  exact (trimEnd_collapseFrom t).2

end Collapse

end Keiko.Library.Units
