import Mathlib.Data.List.Basic
import Mathlib.Data.List.Chain

/-! Texts whose segments stand between separators, and the collapsing of runs of separators: the
segments that are not empty, joined again. -/
namespace Keiko.Library.Segments
open List Option

variable {α : Type*}

section Spacing

structure Spaced (sep : α) (text : List α) : Prop where
  apart : text.IsChain fun a b => a = sep → b ≠ sep
  last : text.getLast? ≠ some sep

variable {sep a : α} {text first second : List α}

theorem Spaced.tail (spaced : Spaced sep (a :: text)) : Spaced sep text := by
  refine ⟨spaced.apart.tail,?_⟩
  cases text with
  | nil => simp
  | cons b text => simpa using spaced.last

theorem Spaced.drop (spaced : Spaced sep text) (n : ℕ) : Spaced sep (text.drop n) := by
  induction n generalizing text with
  | zero => exact spaced
  | succ n ih =>
    cases text with
    | nil => exact spaced
    | cons a text => exact ih spaced.tail

theorem Spaced.append (front : Spaced sep first) (back : Spaced sep second) (filled : second ≠ [])
    (start : second.head? ≠ some sep) : Spaced sep (first ++ sep :: second) := by
  constructor
  · rw [isChain_append]
    refine ⟨front.apart,isChain_cons.mpr ⟨?_,back.apart⟩,?_⟩
    · intro b head _ same
      rw [same] at head
      exact start head
    · intro a final b head same
      rw [same] at final
      exact absurd final front.last
  · rw [getLast?_append,getLast?_cons_of_ne_nil filled]
    obtain ⟨final,last⟩ := isSome_iff_exists.mp (getLast?_isSome.mpr filled)
    rw [last,some_or]
    exact last ▸ back.last

end Spacing

variable [DecidableEq α] (sep : α)

def segments (text : List α) : List (List α) := (text.splitOn sep).filter fun part => part ≠ []

def collapse (text : List α) : List α := [sep].intercalate (segments sep text)

variable {sep} {text : List α} {a : α}

section Recursion

theorem segments_cons_sep (text : List α) : segments sep (sep :: text) = segments sep text := by
  rw [segments,splitOn_cons_eq_if_modifyHead,if_pos (by simp),filter_cons_of_neg (by simp)]
  rfl

theorem segments_cons (other : a ≠ sep) (text : List α) : segments sep (a :: text) =
      if text = [] ∨ text.head? = some sep then [a] :: segments sep text
      else (segments sep text).modifyHead (a :: ·) := by
  cases text with
  | nil => simp [segments,splitOn_cons_eq_if_modifyHead,other]
  | cons b text =>
    obtain ⟨head,tail,split⟩ := exists_cons_of_ne_nil (splitOn_ne_nil sep text)
    simp only [segments,splitOn_cons_eq_if_modifyHead,beq_iff_eq,other,if_false,head?_cons,
      some.injEq,reduceCtorEq,false_or]
    by_cases here : b = sep
    · rw [if_pos here,if_pos here]
      simp
    · rw [if_neg here,if_neg here,split]
      simp

theorem segments_cons_ne_nil (other : a ≠ sep) (text : List α) : segments sep (a :: text) ≠ [] := by
  obtain ⟨head,tail,split⟩ := exists_cons_of_ne_nil (splitOn_ne_nil sep text)
  rw [segments,splitOn_cons_eq_if_modifyHead,if_neg (by simpa using other),split,
    modifyHead_cons,filter_cons_of_pos (by simp)]
  exact cons_ne_nil _ _

theorem collapse_cons_sep (text : List α) : collapse sep (sep :: text) = collapse sep text := by
  rw [collapse,segments_cons_sep,collapse]

@[simp] theorem collapse_nil : collapse sep [] = [] := rfl

theorem nil_not_mem_segments (text : List α) : [] ∉ segments sep text := by
  intro mem
  have filled := (mem_filter.mp mem).2
  simp at filled

theorem collapse_eq_nil : collapse sep text = [] ↔ segments sep text = [] := by
  constructor
  · intro empty
    cases parts : segments sep text with
    | nil => rfl
    | cons part rest =>
      have filled : part ≠ [] := by
        intro same
        exact nil_not_mem_segments text (by rw [parts,same]; exact mem_cons_self)
      rw [collapse,parts] at empty
      cases rest with
      | nil => exact absurd (by simpa using empty) filled
      | cons next rest => simp at empty
  · intro empty
    rw [collapse,empty]
    rfl

theorem collapse_cons (other : a ≠ sep) (text : List α) : collapse sep (a :: text) =
      a :: if text.head? = some sep ∧ collapse sep text ≠ [] then sep :: collapse sep text else collapse sep text := by
  rw [collapse,segments_cons other]
  cases text with
  | nil => rfl
  | cons b text =>
    have first : (b :: text).head? = some sep ↔ b = sep := by simp
    by_cases here : b = sep
    · rw [if_pos (.inr (first.mpr here))]
      by_cases empty : collapse sep (b :: text) = []
      · rw [if_neg (fun both => both.2 empty),empty,collapse_eq_nil.mp empty]
        rfl
      · rw [if_pos ⟨first.mpr here,empty⟩,intercalate_cons_of_ne_nil (fun none => empty (collapse_eq_nil.mpr none))]
        rfl
    · rw [if_neg (by simpa using here),if_neg (fun both => here (first.mp both.1))]
      obtain ⟨part,rest,parts⟩ := exists_cons_of_ne_nil (segments_cons_ne_nil here text)
      rw [collapse,parts,modifyHead_cons]
      cases rest with
      | nil => simp
      | cons next rest => simp

end Recursion

section Collapsing

theorem head_collapse (text : List α) : (collapse sep text).head? ≠ some sep := by
  induction text with
  | nil => simp
  | cons a text ih =>
    by_cases here : a = sep
    · rwa [here,collapse_cons_sep]
    · rw [collapse_cons here,head?_cons]
      simpa using here

theorem length_collapse (text : List α) : (collapse sep text).length ≤ text.length ∧
      (text.head? = some sep → (collapse sep text).length < text.length) := by
  induction text with
  | nil => exact ⟨le_refl _,fun first => absurd first (by simp)⟩
  | cons a text ih =>
    by_cases here : a = sep
    · rw [here,collapse_cons_sep,length_cons]
      have shorter := ih.1
      exact ⟨by omega,fun _ => by omega⟩
    · rw [collapse_cons here,length_cons,length_cons]
      refine ⟨?_,fun first => absurd (by simpa using first) here⟩
      split
      next both =>
        have shorter := ih.2 both.1
        rw [length_cons]
        omega
      next =>
        have shorter := ih.1
        omega

theorem mem_of_mem_collapse (mem : a ∈ collapse sep text) : a ∈ text := by
  induction text with
  | nil => exact mem
  | cons b text ih =>
    by_cases here : b = sep
    · rw [here,collapse_cons_sep] at mem
      exact mem_cons_of_mem _ (ih mem)
    · rw [collapse_cons here] at mem
      rcases mem_cons.mp mem with same | post
      · rw [same]
        exact mem_cons_self
      · split at post
        next both =>
          rcases mem_cons.mp post with same | post
          · rw [same]
            exact mem_cons_of_mem _ (mem_of_mem_head? both.1)
          · exact mem_cons_of_mem _ (ih post)
        next => exact mem_cons_of_mem _ (ih post)

theorem mem_collapse (mem : a ∈ text) (other : a ≠ sep) : a ∈ collapse sep text := by
  induction text with
  | nil => exact mem
  | cons b text ih =>
    by_cases here : b = sep
    · rw [here,collapse_cons_sep]
      rcases mem_cons.mp mem with same | post
      · exact absurd (same.trans here) other
      · exact ih post
    · rw [collapse_cons here,mem_cons]
      rcases mem_cons.mp mem with same | post
      · exact .inl same
      · right
        split
        · exact mem_cons_of_mem _ (ih post)
        · exact ih post

theorem spaced_collapse (text : List α) : Spaced sep (collapse sep text) := by
  induction text with
  | nil => exact ⟨isChain_nil,by simp⟩
  | cons a text ih =>
    by_cases here : a = sep
    · rwa [here,collapse_cons_sep]
    · rw [collapse_cons here]
      split
      next both =>
        refine ⟨isChain_cons.mpr ⟨fun _ _ same => absurd same here,isChain_cons.mpr ⟨?_,ih.apart⟩⟩,?_⟩
        · intro b first _ same
          rw [same] at first
          exact head_collapse text first
        · rw [getLast?_cons_of_ne_nil (cons_ne_nil _ _),getLast?_cons_of_ne_nil both.2]
          exact ih.last
      next =>
        refine ⟨isChain_cons.mpr ⟨fun _ _ same => absurd same here,ih.apart⟩,?_⟩
        by_cases empty : collapse sep text = []
        · rw [empty]
          simpa using here
        · rw [getLast?_cons_of_ne_nil empty]
          exact ih.last

theorem Spaced.collapse_eq (spaced : Spaced sep text) (first : text.head? ≠ some sep) : collapse sep text = text := by
  induction length : text.length using Nat.strong_induction_on generalizing text with
  | h length ih =>
    cases text with
    | nil => rfl
    | cons a text =>
      have here : a ≠ sep := by simpa using first
      rw [length_cons] at length
      rw [collapse_cons here]
      by_cases next : text.head? = some sep
      · obtain ⟨rest,rfl⟩ := head?_eq_some_iff.mp next
        have behind : rest.head? ≠ some sep := by
          intro again
          obtain ⟨more,rfl⟩ := head?_eq_some_iff.mp again
          exact (isChain_cons_cons.mp spaced.tail.apart).1 rfl rfl
        have filled : rest ≠ [] := by
          intro empty
          exact spaced.tail.last (by rw [empty]; rfl)
        rw [length_cons] at length
        rw [collapse_cons_sep,ih rest.length (by omega) spaced.tail.tail behind rfl,if_pos ⟨next,filled⟩]
      · rw [if_neg (fun both => next both.1),ih text.length (by omega) spaced.tail next rfl]

end Collapsing

end Keiko.Library.Segments
