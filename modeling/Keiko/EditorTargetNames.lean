import Keiko.EditorFileTarget

/-! Whether the file that is opened for a candidate is the file that the candidate names. The two
differ where the root in front of the candidate is longer or shorter than the root that is cut off,
which has the same lower case. -/
namespace Keiko.EditorWorkspacePath
open Keiko.Library Keiko.Library.Units Keiko.Library.Segments List

/-- The paths by which a candidate names a file: its own, or the root joined with it, where a
leading "./" stands for the root. -/
def candidatePaths (root raw : Units) : List Units :=
  if isAbsoluteLike raw then [toPosix raw]
  else [root ++ slash :: toPosix raw,root ++ slash :: withoutDotSlash (toPosix raw)]

def Names (tables : CaseTables) (root raw : Units) (target : WorkspaceFileTarget) : Prop :=
  ∃ path ∈ candidatePaths root raw, tables.toLowerCase target.path = tables.toLowerCase path

/-- The first units of an absolute candidate are the root up to letter case, before a separator. -/
def StartsWithRoot (tables : CaseTables) (root path : Units) : Prop :=
  tables.toLowerCase (path.take root.length) = tables.toLowerCase root ∧ path[root.length]? = some slash

open Classical in
/-- An absolute candidate that is opened below the root has it in front in its own length and
settles; one elsewhere does not end with white space. A relative candidate does not name a drive
behind its leading "./" and settles. -/
def OpensAsNamed (tables : CaseTables) (root raw : Units) : Prop :=
  if isAbsoluteLike raw then if Below tables root raw then
      StartsWithRoot tables root (toPosix raw) ∧ Settles root ((toPosix raw).drop (root.length + 1))
    else EndsPlain (toPosix raw)
  else startsWithDrive (withoutDotSlash (toPosix raw)) = false ∧ Settles root (withoutDotSlash (toPosix raw))

section Naming
variable {tabs : CaseTables} {root raw path : Units} {cand : Option Units} {target : WorkspaceFileTarget}

theorem StartsWithRoot.cut (starts : StartsWithRoot tabs root path) :
    path = path.take root.length ++ slash :: path.drop (root.length + 1) := by
  obtain ⟨bound,here⟩ := List.getElem?_eq_some_iff.mp starts.2
  rw [← here,← drop_eq_getElem_cons bound,take_append_drop]

/-- What is cut off behind the root's length is the rest of the candidate up to letter case just
where the root stands in front of it in its own length. -/
theorem cut_names_iff (divides : tabs.Divides slash) (widths : tabs.Widths)
    (filled : path.drop (root.length + 1) ≠ []) :
    tabs.toLowerCase (root ++ slash :: path.drop (root.length + 1)) = tabs.toLowerCase path ↔
      StartsWithRoot tabs root path := by
  constructor
  · intro same
    rw [divides.toLowerCase] at same
    obtain ⟨front,back,rfl,pre,behind⟩ := divides.toLowerCase_eq (by decide) same.symm
    have suffix : back <:+ front ++ slash :: back := ⟨front ++ [slash],by simp⟩
    have equal := widths.suffix_eq suffix (drop_suffix (root.length + 1) _) behind
    have length : front.length = root.length := by
      have lengths := congrArg length equal
      rw [length_drop,length_append,length_cons] at lengths
      rw [ne_eq,drop_eq_nil_iff,length_append,length_cons] at filled
      omega
    constructor
    · rw [← length,take_left,pre]
    · rw [← length,getElem?_append_right (Nat.le_refl _),Nat.sub_self]
      rfl
  · intro starts
    conv_rhs => rw [starts.cut]
    rw [divides.toLowerCase,divides.toLowerCase,starts.1]

theorem names_absolute (absolute : isAbsoluteLike raw = true) :
    Names tabs root raw target ↔ tabs.toLowerCase target.path = tabs.toLowerCase (toPosix raw) := by
  rw [Names,candidatePaths,if_pos absolute]
  simp only [mem_singleton,exists_eq_left]

theorem names_relative (relative : isAbsoluteLike raw = false) : Names tabs root raw target ↔
      tabs.toLowerCase target.path = tabs.toLowerCase (root ++ slash :: toPosix raw) ∨
        tabs.toLowerCase target.path = tabs.toLowerCase (root ++ slash :: withoutDotSlash (toPosix raw)) := by
  rw [Names,candidatePaths,if_neg (by simp [relative])]
  simp only [mem_cons,not_mem_nil,or_false,exists_eq_or_imp,exists_eq_left]

theorem withoutDotSlash_suffix (path : Units) : withoutDotSlash path <:+ path := by
  unfold withoutDotSlash
  split
  · exact drop_suffix _ _
  · exact suffix_refl _

theorem startsWithDrive_withoutDotSlash (posix : Posix path) (relative : isAbsoluteLike path = false)
    (absolute : isAbsoluteLike (withoutDotSlash path) = true)
    (tilded : (withoutDotSlash path).head? ≠ some tilde) :
    startsWithDrive (withoutDotSlash path) = true := by
  unfold withoutDotSlash at absolute tilded ⊢
  split at absolute
  next dotted =>
    rw [if_pos dotted] at tilded ⊢
    obtain ⟨rest,whole⟩ := dotted
    obtain rfl : dot :: slash :: rest = path := whole
    have apart : rest.head? ≠ some slash := by
      intro first
      obtain ⟨more,rfl⟩ := head?_eq_some_iff.mp first
      exact (isChain_cons_cons.mp posix.spaced.tail.apart).1 rfl rfl
    have plain : rest.head? ≠ some backslash := by
      intro first
      have mem := mem_of_mem_head? first
      exact posix.plain (mem_cons_of_mem _ (mem_cons_of_mem _ mem))
    change isAbsoluteLike rest = true at absolute
    change rest.head? ≠ some tilde at tilded
    simp only [isAbsoluteLike,Bool.or_eq_true,decide_eq_true_eq,apart,plain,tilded,false_or] at absolute
    exact absolute
  next =>
    rw [relative] at absolute
    cases absolute

theorem not_names_drive (widths : tabs.Widths) (relative : isAbsoluteLike raw = false)
    (whole : withoutDotSlash (toPosix raw) = target.path) : ¬Names tabs root raw target := by
  have shorter : ∀ path : Units, target.path <:+ path → ∀ front : Units,
      tabs.toLowerCase target.path ≠ tabs.toLowerCase (front ++ slash :: path) := by
    intro path mem front same
    obtain ⟨between,rfl⟩ := mem
    have suffix : target.path <:+ front ++ slash :: (between ++ target.path) :=
      ⟨front ++ slash :: between,by simp⟩
    have lengths := congrArg length (widths.suffix_eq suffix (suffix_refl _) same)
    rw [length_append,length_cons,length_append] at lengths
    omega
  rw [names_relative relative,whole,not_or]
  exact ⟨shorter _ (whole ▸ withoutDotSlash_suffix _) root,shorter _ (suffix_refl _) root⟩

end Naming

section Opening
variable {tables : CaseTables} {root : Units} {candidate : Option Units} {target : WorkspaceFileTarget}

/-- Where a file is opened, it is a contained path, the one that the candidate names, and opens
again by its own path, just where the candidate opens as named. -/
theorem opensAsNamed_iff (divides : tables.Divides slash) (widths : tables.Widths)
    (selected : selectWorkspaceFileTarget tables root candidate = some target)
    (file : target.file ≠ []) :
    (isContainedAgentPath target.file = true ∧
      Names tables (normalizedRoot root) (rawCandidate candidate) target ∧
      selectWorkspaceFileTarget tables root (some target.path) = some target) ↔
    OpensAsNamed tables (normalizedRoot root) (rawCandidate candidate) := by
  have posix := posix_toPosix (rawCandidate candidate)
  cases select_cases rfl selected file with
  | below absolute below same =>
    subst same
    have filled := (contained_of_isContainedAgentPath below.2.2.2).filled
    rw [OpensAsNamed,if_pos absolute,if_pos below,names_absolute absolute,and_iff_right below.2.2.2,
      ← cut_names_iff divides widths filled,
      ← below_again_iff divides below.2.1 below.2.2.2 (posix.drop _)]
    rfl
  | relative relative text filled contained same =>
    subst same
    have facts := contained_of_isContainedAgentPath contained
    have behind : Posix (withoutDotSlash (toPosix (rawCandidate candidate))) := by
      unfold withoutDotSlash
      split
      · exact posix.drop 2
      · exact posix
    have named : Names tables (normalizedRoot root) (rawCandidate candidate)
        ⟨normalizedRoot root,withoutDotSlash (toPosix (rawCandidate candidate))⟩ :=
      (names_relative relative).mpr (.inr rfl)
    rw [OpensAsNamed,if_neg (by simp [relative]),and_iff_right contained,and_iff_right named,
      and_iff_right facts.drive,← below_again_iff divides filled contained behind]
    rfl
  | holding absolute apart outside =>
    obtain ⟨whole,_,_,_,_,_,contained⟩ := selectOutsideRootTarget_eq_some.mp outside
    have named : tables.toLowerCase target.path =
        tables.toLowerCase (toPosix (rawCandidate candidate)) := by
      rw [whole]
      rfl
    rw [OpensAsNamed,if_pos absolute,if_neg apart,names_absolute absolute,and_iff_right contained,
      and_iff_right named]
    exact holding_again_iff rfl absolute selected outside file
  | drive relative outside =>
    obtain ⟨whole,_,absolute,tilded,filled,_⟩ := selectOutsideRootTarget_eq_some.mp outside
    have posixRelative : isAbsoluteLike (toPosix (rawCandidate candidate)) = false := by
      by_cases empty : toPosix (rawCandidate candidate) = []
      · rw [empty]
        rfl
      · exact (isAbsoluteLike_toPosix empty).trans relative
    have drive := startsWithDrive_withoutDotSlash posix posixRelative absolute tilded
    refine iff_of_false (fun all => not_names_drive widths relative whole all.2.1) ?_
    rw [OpensAsNamed,if_neg (by simp [relative]),drive]
    exact fun both => Bool.noConfusion both.1

/-- Lower case of the letters of ASCII and of the dotted capital "İ", which has two. -/
def dottedTables : CaseTables where
  isCased point := (0x41 ≤ point && point ≤ 0x5a) || (0x61 ≤ point && point ≤ 0x7a) || point = 0x130
  isCaseIgnorable point := [0x27,0x2e,0x3a,0x307].contains point
  lowercase point :=
    if 0x41 ≤ point ∧ point ≤ 0x5a then [point + 32]
    else if point = 0x130 then [0x69,0x307] else [point]

theorem dottedTables_divides : dottedTables.Divides slash := by
  refine ⟨⟨rfl,rfl,by decide⟩,rfl,?_,by decide⟩
  intro point valid mem
  change point = 0x2f
  simp only [dottedTables] at mem
  split at mem
  next capital =>
    have inside : slash ∈ ofCodePoint (point + 32) := by simpa using mem
    have same : point + 32 = 0x2f := CaseTables.eq_of_mem_ofCodePoint (by omega) (by decide) inside
    omega
  next =>
    split at mem
    next => exact absurd mem (by decide)
    next =>
      have inside : slash ∈ ofCodePoint point := by simpa using mem
      have same : point = 0x2f := CaseTables.eq_of_mem_ofCodePoint valid (by decide) inside
      exact same

theorem dottedTables_widths : dottedTables.Widths := by
  have single : ∀ point, 0 < (ofCodePoint point).length ∧ (0x10000 ≤ point → 2 ≤ (ofCodePoint point).length) ∧
      (point < 0x10000 → (ofCodePoint point).length = 1) := by
    intro point
    unfold ofCodePoint
    split
    next basic => exact ⟨Nat.one_pos,fun wide => by omega,fun _ => rfl⟩
    next wide => exact ⟨Nat.two_pos,fun _ => le_refl _,fun basic => absurd basic wide⟩
  have other : ∀ point, ¬(0x41 ≤ point ∧ point ≤ 0x5a) → point ≠ 0x130 →
      dottedTables.width point = (ofCodePoint point).length := by
    intro point small plain
    simp only [CaseTables.width,dottedTables,if_neg small,if_neg plain,flatMap_singleton]
  constructor
  · intro point
    by_cases small : 0x41 ≤ point ∧ point ≤ 0x5a
    · simp only [CaseTables.width,dottedTables,if_pos small,flatMap_singleton]
      exact (single _).1
    · by_cases dotted : point = 0x130
      · rw [dotted]
        decide
      · rw [other point small dotted]
        exact (single point).1
  · intro point low high
    rw [other point (by omega) (by omega)]
    exact (single point).2.2 (by omega)
  · intro point wide
    rw [other point (by omega) (by omega)]
    exact (single point).2.1 wide
  · rfl

/-- Below the root "/i̇" the file "/İ/abc" is opened as "bc". -/
theorem dotted_root_cuts_name :
    ¬∀ (tables : CaseTables) (root : Units) (candidate : Option Units) (target : WorkspaceFileTarget),
      tables.Divides slash → tables.Widths →
      selectWorkspaceFileTarget tables root candidate = some target → target.file ≠ [] →
        isContainedAgentPath target.file = true ∧
          Names tables (normalizedRoot root) (rawCandidate candidate) target ∧
          selectWorkspaceFileTarget tables root (some target.path) = some target := by
  intro all
  have selected : selectWorkspaceFileTarget dottedTables [0x2f,0x69,0x307]
      (some [0x2f,0x130,0x2f,0x61,0x62,0x63]) = some ⟨[0x2f,0x69,0x307],[0x62,0x63]⟩ := by
    decide +kernel
  obtain ⟨_,⟨path,member,same⟩,_⟩ := all dottedTables _ _ _ dottedTables_divides dottedTables_widths
    selected (by decide)
  have paths : candidatePaths (normalizedRoot [0x2f,0x69,0x307])
      (rawCandidate (some [0x2f,0x130,0x2f,0x61,0x62,0x63])) = [[0x2f,0x130,0x2f,0x61,0x62,0x63]] := by
    decide +kernel
  rw [paths] at member
  rw [mem_singleton.mp member] at same
  exact absurd same (by decide +kernel)

/-- A path in another case and spelling below its root. -/
theorem opensAsNamed_iff_capitals :
    selectWorkspaceFileTarget dottedTables (units "/ws") (some (units "\\WS//Lib")) =
        some ⟨units "/ws",units "Lib"⟩ ∧
      OpensAsNamed dottedTables (normalizedRoot (units "/ws"))
        (rawCandidate (some (units "\\WS//Lib"))) := by
  have selected : selectWorkspaceFileTarget dottedTables (units "/ws") (some (units "\\WS//Lib")) =
      some ⟨units "/ws",units "Lib"⟩ := by decide +kernel
  refine ⟨selected,(opensAsNamed_iff dottedTables_divides dottedTables_widths selected (by decide)).mp ?_⟩
  refine ⟨by decide +kernel,⟨units "/WS/Lib",?_,by decide +kernel⟩,by decide +kernel⟩
  have paths : candidatePaths (normalizedRoot (units "/ws")) (rawCandidate (some (units "\\WS//Lib"))) =
      [units "/WS/Lib"] := by decide +kernel
  rw [paths]
  exact mem_singleton_self _

end Opening

end Keiko.EditorWorkspacePath
