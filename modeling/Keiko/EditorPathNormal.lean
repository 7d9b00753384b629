import Keiko.EditorWorkspacePath

/-! Paths in POSIX spelling: what `toPosix` makes of a path, what it keeps of it, and which paths it
leaves as they are. The directory and the name of such a path join to it again. -/
namespace Keiko.EditorWorkspacePath
open Keiko.Library Keiko.Library.Units Keiko.Library.Segments List Option

structure Posix (path : Units) : Prop where
  plain : backslash ∉ path
  spaced : Spaced slash path

variable {path root file front back : Units} {c : CodeUnit}

section Spelling

theorem backslash_ne_slash : backslash ≠ slash := by decide

theorem not_mem_slashed (path : Units) : backslash ∉ slashed path := by
  intro mem
  obtain ⟨c,_,here⟩ := mem_map.mp mem
  split at here
  · exact backslash_ne_slash here.symm
  next other => exact other here

theorem slashed_eq (plain : backslash ∉ path) : slashed path = path := by
  refine (map_congr_left ?_).trans (map_id path)
  intro c mem
  refine if_neg ?_
  intro same
  exact plain (same ▸ mem)

theorem length_slashed (path : Units) : (slashed path).length = path.length := length_map _

theorem mem_slashed (other : c ≠ slash) (another : c ≠ backslash) : c ∈ slashed path ↔ c ∈ path := by
  constructor
  · intro mem
    obtain ⟨d,inside,here⟩ := mem_map.mp mem
    split at here
    · exact absurd here.symm other
    · exact here ▸ inside
  · intro mem
    exact mem_map.mpr ⟨c,mem,if_neg another⟩

theorem toPosix_cases (path : Units) : (collapse slash (slashed path) = [] ∧ toPosix path = []) ∨
      (collapse slash (slashed path) ≠ [] ∧ (slashed path).head? = some slash ∧
        toPosix path = slash :: collapse slash (slashed path)) ∨
      (collapse slash (slashed path) ≠ [] ∧ (slashed path).head? ≠ some slash ∧
        toPosix path = collapse slash (slashed path)) := by
  unfold toPosix
  by_cases empty : collapse slash (slashed path) = []
  · exact .inl ⟨empty,by rw [empty]; rfl⟩
  · right
    have filled : ¬(collapse slash (slashed path)).length = 0 := by simpa using empty
    by_cases a : (slashed path).head? = some slash
    · exact .inl ⟨empty,a,by rw [if_neg filled,if_pos a]⟩
    · exact .inr ⟨empty,a,by rw [if_neg filled,if_neg a]⟩

theorem posix_toPosix (path : Units) : Posix (toPosix path) := by
  have plain : backslash ∉ collapse slash (slashed path) :=
    fun mem => not_mem_slashed path (mem_of_mem_collapse mem)
  have spaced : Spaced slash (collapse slash (slashed path)) := spaced_collapse _
  rcases toPosix_cases path with ⟨_,same⟩ | ⟨filled,_,same⟩ | ⟨_,_,same⟩
  · rw [same]
    exact ⟨not_mem_nil,isChain_nil,by simp⟩
  · rw [same]
    refine ⟨?_,isChain_cons.mpr ⟨?_,spaced.apart⟩,?_⟩
    · rw [mem_cons,not_or]
      exact ⟨backslash_ne_slash,plain⟩
    · intro d first _ other
      rw [other] at first
      exact head_collapse _ first
    · rw [getLast?_cons_of_ne_nil filled]
      exact spaced.last
  · rw [same]
    exact ⟨plain,spaced⟩

theorem Posix.toPosix_eq (posix : Posix path) : toPosix path = path := by
  have same := slashed_eq posix.plain
  unfold toPosix
  rw [same]
  cases path with
  | nil => rfl
  | cons c rest =>
    by_cases first : c = slash
    · rw [first] at posix ⊢
      have filled : rest ≠ [] := by
        intro empty
        exact posix.spaced.last (by rw [empty]; rfl)
      have start : rest.head? ≠ some slash := by
        intro again
        obtain ⟨more,cut⟩ := head?_eq_some_iff.mp again
        have apart := posix.spaced.apart
        rw [cut] at apart
        exact (isChain_cons_cons.mp apart).1 rfl rfl
      rw [collapse_cons_sep,posix.spaced.tail.collapse_eq start,if_neg (by simpa using filled)]
      exact if_pos rfl
    · have start : (c :: rest).head? ≠ some slash := by simpa using first
      rw [posix.spaced.collapse_eq start,if_neg (by simp),if_neg start]

theorem length_toPosix_le (path : Units) : (toPosix path).length ≤ path.length := by
  have bounds : (collapse slash (slashed path)).length ≤ (slashed path).length ∧
      ((slashed path).head? = some slash → (collapse slash (slashed path)).length < (slashed path).length) :=
    length_collapse _
  rw [length_slashed] at bounds
  rcases toPosix_cases path with ⟨_,same⟩ | ⟨_,first,same⟩ | ⟨_,_,same⟩
  · rw [same]
    exact Nat.zero_le _
  · rw [same,length_cons]
    exact bounds.2 first
  · rw [same]
    exact bounds.1

theorem mem_toPosix (other : c ≠ slash) (another : c ≠ backslash) : c ∈ toPosix path ↔ c ∈ path := by
  have inside : c ∈ collapse slash (slashed path) ↔ c ∈ path := by
    refine Iff.trans ?_ (mem_slashed other another)
    exact ⟨mem_of_mem_collapse,fun mem => mem_collapse mem other⟩
  rcases toPosix_cases path with ⟨empty,same⟩ | ⟨_,_,same⟩ | ⟨_,_,same⟩
  · rw [same,← inside,empty]
  · rw [same,mem_cons,inside]
    exact or_iff_right other
  · rw [same,inside]

theorem Posix.drop (posix : Posix path) (n : ℕ) : Posix (path.drop n) :=
  ⟨fun mem => posix.plain (mem_of_mem_drop mem),posix.spaced.drop n⟩

theorem Posix.append (pre : Posix root) (behind : Posix file) (filled : file ≠ [])
    (start : file.head? ≠ some slash) : Posix (root ++ slash :: file) := by
  refine ⟨?_,pre.spaced.append behind.spaced filled start⟩
  rw [mem_append,mem_cons,not_or,not_or]
  exact ⟨pre.plain,backslash_ne_slash,behind.plain⟩

end Spelling

section Absolute

theorem head_toPosix (other : c ≠ slash) (another : c ≠ backslash) (rest : Units) :
    ∃ more, toPosix (c :: rest) = c :: more ∧
      (more.head? = (slashed rest).head? ∨ more = [] ∧ (slashed rest).head? = some slash) := by
  have cut : slashed (c :: rest) = c :: slashed rest := by
    rw [slashed,map_cons,if_neg another]
    rfl
  have joined : toPosix (c :: rest) = collapse slash (c :: slashed rest) := by
    unfold toPosix
    rw [cut,collapse_cons other]
    rw [if_neg (by simp),if_neg (by simpa using other)]
  rw [joined,collapse_cons other]
  refine ⟨_,rfl,?_⟩
  by_cases both : (slashed rest).head? = some slash ∧ collapse slash (slashed rest) ≠ []
  · rw [if_pos both,both.1]
    exact .inl rfl
  · rw [if_neg both]
    by_cases first : (slashed rest).head? = some slash
    · right
      refine ⟨?_,first⟩
      by_contra filled
      exact both ⟨first,filled⟩
    · left
      cases next : slashed rest with
      | nil => rfl
      | cons d more =>
        rw [next] at first
        rw [collapse_cons (by simpa using first)]
        rfl

theorem startsWithDrive_cons (c : CodeUnit) (rest : Units) :
    startsWithDrive (c :: rest) = (CodeUnit.isLetter c && decide (rest.head? = some colon)) := by
  cases rest with
  | nil => simp [startsWithDrive]
  | cons d rest => simp [startsWithDrive]

theorem head_slashed_colon (path : Units) : (slashed path).head? = some colon ↔ path.head? = some colon := by
  cases path with
  | nil => rfl
  | cons c path =>
    rw [slashed,map_cons,head?_cons,head?_cons,some.injEq,some.injEq]
    split
    next same =>
      rw [same]
      decide
    next => rfl

theorem isAbsoluteLike_toPosix (filled : toPosix path ≠ []) : isAbsoluteLike (toPosix path) = isAbsoluteLike path := by
  cases path with
  | nil => rfl
  | cons c rest =>
    by_cases start : c = slash ∨ c = backslash
    · have absolute : isAbsoluteLike (c :: rest) = true := by
        rcases start with rfl | rfl
        · rfl
        · rfl
      have a : (slashed (c :: rest)).head? = some slash := by
        rcases start with rfl | rfl
        · rfl
        · rfl
      rcases toPosix_cases (c :: rest) with ⟨_,same⟩ | ⟨_,_,same⟩ | ⟨_,other,_⟩
      · exact absurd same filled
      · rw [absolute,same]
        rfl
      · exact absurd a other
    · rw [not_or] at start
      obtain ⟨more,same,next⟩ := head_toPosix start.1 start.2 rest
      have drive : startsWithDrive (c :: more) = startsWithDrive (c :: rest) := by
        rw [startsWithDrive_cons,startsWithDrive_cons]
        congr 1
        rw [decide_eq_decide,← head_slashed_colon rest]
        rcases next with here | ⟨empty,here⟩
        · rw [here]
        · rw [here,empty]
          decide
      rw [same]
      unfold isAbsoluteLike
      rw [drive]
      rfl

/-- What stands behind a path does not change whether it is absolute, unless it starts with a
colon. -/
theorem isAbsoluteLike_append (filled : front ≠ []) (other : back.head? ≠ some colon) :
    isAbsoluteLike (front ++ back) = isAbsoluteLike front := by
  cases front with
  | nil => exact absurd rfl filled
  | cons c front =>
    have drive : startsWithDrive (c :: (front ++ back)) = startsWithDrive (c :: front) := by
      rw [startsWithDrive_cons,startsWithDrive_cons]
      cases front with
      | nil =>
        congr 1
        rw [decide_eq_decide]
        exact ⟨fun here => absurd here other,fun here => absurd here (by simp)⟩
      | cons d front => rfl
    rw [cons_append]
    unfold isAbsoluteLike
    rw [drive]
    rfl

theorem isAbsoluteLike_join (filled : root ≠ []) (file : Units) :
    isAbsoluteLike (root ++ slash :: file) = isAbsoluteLike root :=
  isAbsoluteLike_append filled (by rw [head?_cons]; decide)

theorem isAbsoluteLike_trim (first : ∀ c ∈ path.head?, CodeUnit.isSpace c = false) :
    isAbsoluteLike (trim path) = isAbsoluteLike path := by
  obtain ⟨spaces,whole,blank⟩ := trim_append first
  cases path with
  | nil => rfl
  | cons c rest =>
    have filled : trim (c :: rest) ≠ [] := by
      intro empty
      rw [empty,nil_append] at whole
      have space := blank c (whole ▸ mem_cons_self)
      rw [first c rfl] at space
      cases space
    have other : spaces.head? ≠ some colon := by
      intro here
      have space := blank colon (mem_of_mem_head? here)
      exact absurd space (by decide)
    conv_rhs => rw [whole]
    exact (isAbsoluteLike_append filled other).symm

end Absolute

section Contained

/-- What the check of a relative path comes to. -/
structure Contained (file : Units) : Prop where
  filled : file ≠ []
  start : file.head? ≠ some slash
  drive : startsWithDrive file = false
  text : 0 ∉ file
  plain : backslash ∉ file

theorem contained_of_isContainedAgentPath (contained : isContainedAgentPath file = true) : Contained file := by
  unfold isContainedAgentPath at contained
  split at contained
  next => cases contained
  next filled =>
    split at contained
    next => cases contained
    next =>
      split at contained
      next => cases contained
      next start =>
        split at contained
        next => cases contained
        next plain =>
          simp only [Bool.or_eq_true,decide_eq_true_eq,not_or,Bool.not_eq_true,contains_eq_mem] at start plain
          exact ⟨by simpa using filled,start.1,start.2,plain.1,plain.2⟩

end Contained

section Directories

theorem idxOf?_append (absent : c ∉ front) (back : Units) : (front ++ c :: back).idxOf? c = some front.length := by
  induction front with
  | nil => simp [idxOf?_cons]
  | cons d front ih =>
    rw [mem_cons,not_or] at absent
    rw [cons_append,idxOf?_cons,if_neg (by simpa using Ne.symm absent.1),ih absent.2]
    rfl

theorem lastSlash_append (absent : slash ∉ back) : lastSlash (front ++ slash :: back) = some front.length := by
  have place : (front ++ slash :: back).reverse.idxOf? slash = some back.length := by
    rw [reverse_append,reverse_cons,append_assoc,singleton_append,idxOf?_append (by simpa using absent),length_reverse]
  rw [lastSlash,place,map_some,length_append,length_cons]
  congr 1
  omega

theorem lastSlash_none (absent : slash ∉ path) : lastSlash path = none := by
  rw [lastSlash,map_eq_none_iff,idxOf?_eq_none_iff,mem_reverse]
  exact absent

theorem exists_last_slash (mem : slash ∈ path) : ∃ front back, path = front ++ slash :: back ∧ slash ∉ back := by
  obtain ⟨back,front,whole,absent⟩ := eq_append_cons_of_mem (mem_reverse.mpr mem)
  refine ⟨front.reverse,back.reverse,?_,by simpa using absent⟩
  rw [← reverse_reverse path,whole,reverse_append,reverse_cons,append_assoc,singleton_append]

theorem append_slash_inj {front' back' : Units} (absent : slash ∉ back) (absent' : slash ∉ back')
    (same : front ++ slash :: back = front' ++ slash :: back') : front = front' ∧ back = back' := by
  have places : some front.length = some front'.length := by
    rw [← lastSlash_append absent,same,lastSlash_append absent']
  have lengths := some.inj places
  obtain ⟨pre,behind⟩ := append_inj same lengths
  exact ⟨pre,(cons.inj behind).2⟩

theorem posixDirname_append (absent : slash ∉ back) :
    posixDirname (front ++ slash :: back) = if front = [] then [slash] else front := by
  rw [posixDirname,lastSlash_append absent]
  cases front with
  | nil => rfl
  | cons c front =>
    rw [if_neg (cons_ne_nil _ _)]
    exact take_left

theorem posixBasename_append (absent : slash ∉ back) : posixBasename (front ++ slash :: back) = back := by
  have whole : front ++ slash :: back = (front ++ [slash]) ++ back := by simp
  rw [posixBasename,lastSlash_append absent,whole]
  exact drop_left' (by simp)

theorem selectOutsideRootTarget_eq_some {offending : Units} {tgt : WorkspaceFileTarget} :
    selectOutsideRootTarget offending = some tgt ↔
      offending = tgt.root ++ slash :: tgt.file ∧ slash ∉ tgt.file ∧
        isAbsoluteLike offending = true ∧ offending.head? ≠ some tilde ∧
        tgt.root ≠ [] ∧ tgt.root ≠ [slash] ∧ isContainedAgentPath tgt.file = true := by
  unfold selectOutsideRootTarget isRootRelativeFileIdentifier
  by_cases usable : isAbsoluteLike offending = true ∧ offending.head? ≠ some tilde
  · rw [if_neg (by simpa using usable)]
    by_cases mem : slash ∈ offending
    · obtain ⟨front,back,rfl,absent⟩ := exists_last_slash mem
      simp only [posixDirname_append absent,posixBasename_append absent]
      constructor
      · intro selected
        by_cases filled : front = []
        · simp [filled] at selected
        · rw [if_neg filled] at selected
          split at selected
          next => cases selected
          next proper =>
            obtain rfl := some.inj selected
            simp only [Bool.or_eq_true,decide_eq_true_eq,Bool.not_eq_true',not_or,Bool.not_eq_false] at proper
            exact ⟨rfl,absent,usable.1,usable.2,filled,proper.1.2,proper.2⟩
      · intro ⟨whole,apart,_,_,filled,proper,contained⟩
        obtain ⟨rfl,rfl⟩ := append_slash_inj absent apart whole
        rw [if_neg filled,if_neg (by simp [filled,proper,contained])]
    · constructor
      · intro selected
        rw [posixDirname,lastSlash_none mem] at selected
        cases selected
      · intro ⟨whole,_⟩
        rw [whole] at mem
        exact absurd (mem_append_right _ mem_cons_self) mem
  · rw [if_pos (by simpa [Classical.or_iff_not_imp_left] using usable)]
    constructor
    · intro selected
      cases selected
    · intro ⟨_,_,absolute,untilded,_⟩
      exact absurd ⟨absolute,untilded⟩ usable

end Directories

end Keiko.EditorWorkspacePath
