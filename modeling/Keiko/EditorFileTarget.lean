import Keiko.EditorPathNormal

/-! The file that is opened for a candidate against the file that the candidate names, and the same
file opened again by its own path. The root that lower case found in front of an absolute candidate
need not be as long as the root that is cut off. -/
namespace Keiko.EditorWorkspacePath
open Keiko.Library Keiko.Library.Units Keiko.Library.Segments List Option

def rawCandidate (candidate : Option Units) : Units := (candidate.map trim).getD []

def normalizedRoot (root : Units) : Units := toPosix (trim root)

def WorkspaceFileTarget.path (target : WorkspaceFileTarget) : Units :=
  target.root ++ slash :: target.file

/-- In lower case, an absolute candidate goes on behind the root, and what is cut off behind it is a
path that a root may contain. -/
def Below (tables : CaseTables) (root raw : Units) : Prop :=
  0 ∉ raw ∧ root ≠ [] ∧ tables.toLowerCase root ++ [slash] <+: tables.toLowerCase (toPosix raw) ∧
    isContainedAgentPath ((toPosix raw).drop (root.length + 1)) = true

section Selection
variable {tables : CaseTables} {root raw path : Units} {cand : Option Units} {target : WorkspaceFileTarget}

/-- How a file is opened: below the root, by a path relative to it, from the directory that holds an
absolute candidate, or from a drive behind a leading "./". -/
inductive Selected (tables : CaseTables) (root raw : Units) (target : WorkspaceFileTarget) : Prop where
  | below (absolute : isAbsoluteLike raw = true) (below : Below tables root raw)
    (same : target = ⟨root,(toPosix raw).drop (root.length + 1)⟩)
  | relative (relative : isAbsoluteLike raw = false) (text : 0 ∉ raw) (filled : root ≠ [])
    (contained : isContainedAgentPath (withoutDotSlash (toPosix raw)) = true)
    (same : target = ⟨root,withoutDotSlash (toPosix raw)⟩)
  | holding (absolute : isAbsoluteLike raw = true) (apart : ¬Below tables root raw)
    (outside : selectOutsideRootTarget (toPosix raw) = some target)
  | drive (relative : isAbsoluteLike raw = false)
    (outside : selectOutsideRootTarget (withoutDotSlash (toPosix raw)) = some target)

theorem relativeUnderRoot_cases (tables : CaseTables) (raw : Units) (posix : Posix root) :
    (relativeUnderRoot tables root raw = none ∧
        ¬(root ≠ [] ∧ tables.toLowerCase root ++ [slash] <+: tables.toLowerCase (toPosix raw))) ∨
      relativeUnderRoot tables root raw = some [] ∨
      (relativeUnderRoot tables root raw = some ((toPosix raw).drop (root.length + 1)) ∧
        root ≠ [] ∧ tables.toLowerCase root ++ [slash] <+: tables.toLowerCase (toPosix raw)) := by
  unfold relativeUnderRoot
  simp only [posix.toPosix_eq]
  by_cases empty : root = []
  · exact .inl ⟨by rw [empty]; rfl,fun both => both.1 empty⟩
  · rw [if_neg (by simpa using empty)]
    split
    next => exact .inr (.inl rfl)
    next =>
      split
      next under => exact .inr (.inr ⟨rfl,empty,under⟩)
      next apart => exact .inl ⟨rfl,fun both => apart both.2⟩

theorem not_outside_of_relative (relative : isAbsoluteLike raw = false) :
    selectOutsideRootTarget (toPosix raw) = none := by
  cases selected : selectOutsideRootTarget (toPosix raw) with
  | none => rfl
  | some target =>
    obtain ⟨whole,_,absolute,_⟩ := selectOutsideRootTarget_eq_some.mp selected
    have filled : toPosix raw ≠ [] := by
      rw [whole]
      simp
    rw [isAbsoluteLike_toPosix filled,relative] at absolute
    cases absolute

theorem resolve_relative (posix : Posix root) (given : rawCandidate cand = raw)
    (resolved : resolveWorkspaceFileIdentifier tables root cand = .relative path) :
    isContainedAgentPath path = true ∧ 0 ∉ raw ∧ ((isAbsoluteLike raw = true ∧ root ≠ [] ∧
        tables.toLowerCase root ++ [slash] <+: tables.toLowerCase (toPosix raw) ∧
        path = (toPosix raw).drop (root.length + 1)) ∨
      (isAbsoluteLike raw = false ∧ path = withoutDotSlash (toPosix raw))) := by
  unfold rawCandidate at given
  simp only [resolveWorkspaceFileIdentifier,given] at resolved
  split at resolved
  next => cases resolved
  next =>
    split at resolved
    next => cases resolved
    next t =>
      have letters : 0 ∉ raw := by simpa using t
      split at resolved
      next absolute =>
        unfold resolveAbsoluteCandidate at resolved
        rcases relativeUnderRoot_cases tables raw posix with
          ⟨same,_⟩ | same | ⟨same,filled,under⟩
        · simp [same] at resolved
        · simp [same] at resolved
        · simp only [same] at resolved
          split at resolved
          next => cases resolved
          next =>
            split at resolved
            next contained =>
              obtain rfl := WorkspaceFileIdentifierResolution.relative.inj resolved
              exact ⟨contained,letters,.inl ⟨absolute,filled,under,rfl⟩⟩
            next => cases resolved
      next relative =>
        split at resolved
        next => cases resolved
        next =>
          split at resolved
          next contained =>
            obtain rfl := WorkspaceFileIdentifierResolution.relative.inj resolved
            exact ⟨contained,letters,.inr ⟨Bool.eq_false_iff.mpr relative,rfl⟩⟩
          next => cases resolved

theorem resolve_outside (posix : Posix root) (given : rawCandidate cand = raw)
    (resolved : resolveWorkspaceFileIdentifier tables root cand = .outsideRoot path) :
    (path = toPosix raw ∧ ¬Below tables root raw) ∨
      (isAbsoluteLike raw = false ∧ path = withoutDotSlash (toPosix raw)) := by
  unfold rawCandidate at given
  simp only [resolveWorkspaceFileIdentifier,given] at resolved
  split at resolved
  next => cases resolved
  next =>
    split at resolved
    next t =>
      obtain rfl := WorkspaceFileIdentifierResolution.outsideRoot.inj resolved
      exact .inl ⟨rfl,fun below => below.1 (by simpa using t)⟩
    next =>
      split at resolved
      next absolute =>
        left
        unfold resolveAbsoluteCandidate at resolved
        rcases relativeUnderRoot_cases tables raw posix with
          ⟨same,apart⟩ | same | ⟨same,_⟩
        · simp only [same] at resolved
          obtain rfl := WorkspaceFileIdentifierResolution.outsideRoot.inj resolved
          exact ⟨rfl,fun below => apart ⟨below.2.1,below.2.2.1⟩⟩
        · simp [same] at resolved
        · simp only [same] at resolved
          split at resolved
          next => cases resolved
          next =>
            split at resolved
            next => cases resolved
            next uncontained =>
              obtain rfl := WorkspaceFileIdentifierResolution.outsideRoot.inj resolved
              exact ⟨rfl,fun below => uncontained below.2.2.2⟩
      next relative =>
        split at resolved
        next => cases resolved
        next =>
          split at resolved
          next => cases resolved
          next =>
            obtain rfl := WorkspaceFileIdentifierResolution.outsideRoot.inj resolved
            exact .inr ⟨Bool.eq_false_iff.mpr relative,rfl⟩

theorem select_cases (given : rawCandidate cand = raw)
    (selected : selectWorkspaceFileTarget tables root cand = some target)
    (file : target.file ≠ []) : Selected tables (normalizedRoot root) raw target := by
  have posix : Posix (normalizedRoot root) := posix_toPosix (trim root)
  unfold selectWorkspaceFileTarget at selected
  simp only [show toPosix (trim root) = normalizedRoot root from rfl] at selected
  split at selected
  next path resolved =>
    obtain ⟨contained,t,absolute | relative⟩ := resolve_relative posix given resolved
    · obtain ⟨absolute,filled,under,rfl⟩ := absolute
      rw [if_pos (length_pos_iff.mpr filled)] at selected
      exact .below absolute ⟨t,filled,under,contained⟩ (some.inj selected).symm
    · obtain ⟨relative,rfl⟩ := relative
      split at selected
      next filled =>
        exact .relative relative t (length_pos_iff.mp filled) contained (some.inj selected).symm
      next => cases selected
  next =>
    split at selected
    next => exact absurd (congrArg WorkspaceFileTarget.file (some.inj selected).symm) file
    next => cases selected
  next =>
    split at selected
    next => exact absurd (congrArg WorkspaceFileTarget.file (some.inj selected).symm) file
    next => cases selected
  next path resolved =>
    rcases resolve_outside posix given resolved with ⟨rfl,apart⟩ | ⟨relative,rfl⟩
    · cases kind : isAbsoluteLike raw with
      | true => exact .holding kind apart selected
      | false =>
        rw [not_outside_of_relative kind] at selected
        cases selected
    · exact .drive relative selected

end Selection

section Again
variable {tabs : CaseTables} {root raw path file : Units} {cand : Option Units} {target : WorkspaceFileTarget}

def EndsPlain (path : Units) : Prop := ∀ c ∈ path.getLast?, CodeUnit.isSpace c = false

/-- Where a path below a root opens again as it is. Behind an absolute root it must not end with
white space, and a root with a NUL in it serves only for a file directly below it. Behind another
root, the file must come out of the joined path, which is relative itself. -/
def Settles (root file : Units) : Prop :=
  if isAbsoluteLike root then EndsPlain file ∧ (0 ∉ root ∨ slash ∉ file ∧ root.head? ≠ some tilde)
  else 0 ∉ root ∧ withoutDotSlash (toPosix (trim (root ++ slash :: file))) = file

theorem isSpace_of_mem_head_toPosix (a : ∀ c ∈ path.head?, CodeUnit.isSpace c = false) {c : CodeUnit}
    (mem : c ∈ (toPosix path).head?) : CodeUnit.isSpace c = false := by
  cases path with
  | nil => cases mem
  | cons d rest =>
    by_cases start : d = slash ∨ d = backslash
    · rcases toPosix_cases (d :: rest) with ⟨_,same⟩ | ⟨_,_,same⟩ | ⟨_,other,_⟩
      · rw [same] at mem
        cases mem
      · rw [same] at mem
        obtain rfl := some.inj mem
        rfl
      · rcases start with rfl | rfl
        · exact absurd rfl other
        · exact absurd rfl other
    · rw [not_or] at start
      obtain ⟨more,same,_⟩ := head_toPosix start.1 start.2 rest
      rw [same] at mem
      obtain rfl := some.inj mem
      exact a d rfl

theorem isSpace_of_mem_head_normalizedRoot {c : CodeUnit} (mem : c ∈ (normalizedRoot root).head?) :
    CodeUnit.isSpace c = false :=
  isSpace_of_mem_head_toPosix (fun _ a => isSpace_of_mem_head_trim a) mem

theorem isSpace_of_mem_head_rawCandidate (given : rawCandidate cand = raw) {c : CodeUnit}
    (mem : c ∈ raw.head?) : CodeUnit.isSpace c = false := by
  cases cand with
  | none =>
    obtain rfl : [] = raw := given
    cases mem
  | some cand =>
    obtain rfl : trim cand = raw := given
    exact isSpace_of_mem_head_trim mem

theorem Selected.length_path (selected : Selected tabs root raw target)
    (absolute : isAbsoluteLike raw = true) : target.path.length = (toPosix raw).length := by
  cases selected with
  | below _ below same =>
    have filled := (contained_of_isContainedAgentPath below.2.2.2).filled
    rw [ne_eq,drop_eq_nil_iff] at filled
    subst same
    simp only [WorkspaceFileTarget.path,length_append,length_cons,length_drop]
    omega
  | relative relative =>
    rw [absolute] at relative
    cases relative
  | holding _ _ outside =>
    obtain ⟨whole,_⟩ := selectOutsideRootTarget_eq_some.mp outside
    rw [whole,WorkspaceFileTarget.path]
  | drive relative =>
    rw [absolute] at relative
    cases relative

theorem endsPlain_of_again (absolute : isAbsoluteLike target.path = true)
    (a : ∀ c ∈ target.path.head?, CodeUnit.isSpace c = false) (file : target.file ≠ [])
    (again : selectWorkspaceFileTarget tabs root (some target.path) = some target) :
    EndsPlain target.path := by
  intro c last
  by_contra space
  rw [Bool.not_eq_false] at space
  have selected := select_cases rfl again file
  have lengths := selected.length_path ((isAbsoluteLike_trim a).trans absolute)
  have shorter := length_trim_lt a last space
  have normal := length_toPosix_le (trim target.path)
  change target.path.length = (toPosix (trim target.path)).length at lengths
  omega

theorem rawCandidate_eq (a : ∀ c ∈ path.head?, CodeUnit.isSpace c = false) (plain : EndsPlain path) :
    rawCandidate (some path) = path := trim_eq a plain

theorem resolve_of_mem (given : rawCandidate cand = raw) (t : 0 ∈ raw) :
    resolveWorkspaceFileIdentifier tabs root cand = .outsideRoot (toPosix raw) := by
  unfold rawCandidate at given
  simp only [resolveWorkspaceFileIdentifier,given]
  rw [if_neg (by simpa using ne_nil_of_mem t),if_pos (by simpa using t)]

theorem resolve_of_absolute (given : rawCandidate cand = raw) (t : 0 ∉ raw)
    (absolute : isAbsoluteLike raw = true) :
    resolveWorkspaceFileIdentifier tabs root cand = resolveAbsoluteCandidate tabs root raw := by
  have filled : raw ≠ [] := by
    intro empty
    rw [empty] at absolute
    cases absolute
  unfold rawCandidate at given
  simp only [resolveWorkspaceFileIdentifier,given]
  rw [if_neg (by simpa using filled),if_neg (by simpa using t),if_pos absolute]

theorem resolve_of_relative (given : rawCandidate cand = raw) (t : 0 ∉ raw)
    (relative : isAbsoluteLike raw = false) (same : withoutDotSlash (toPosix raw) = path)
    (contained : isContainedAgentPath path = true) :
    resolveWorkspaceFileIdentifier tabs root cand = .relative path := by
  have facts := contained_of_isContainedAgentPath contained
  have filled : raw ≠ [] := by
    intro empty
    rw [empty] at same
    exact facts.filled same.symm
  unfold rawCandidate at given
  simp only [resolveWorkspaceFileIdentifier,given,same]
  rw [if_neg (by simpa using filled),if_neg (by simpa using t),if_neg (by simp [relative]),
    if_neg (by simpa using facts.filled)]
  exact if_pos contained

theorem resolveAbsoluteCandidate_toPosix (root raw : Units) :
    resolveAbsoluteCandidate tabs root (toPosix raw) = resolveAbsoluteCandidate tabs root raw := by
  unfold resolveAbsoluteCandidate relativeUnderRoot
  rw [(posix_toPosix raw).toPosix_eq]

theorem select_congr {other : Option Units}
    (same : resolveWorkspaceFileIdentifier tabs (normalizedRoot root) cand =
      resolveWorkspaceFileIdentifier tabs (normalizedRoot root) other) :
    selectWorkspaceFileTarget tabs root cand = selectWorkspaceFileTarget tabs root other := by
  unfold normalizedRoot at same
  simp only [selectWorkspaceFileTarget,same]

theorem holding_again_iff (given : rawCandidate cand = raw) (absolute : isAbsoluteLike raw = true)
    (selected : selectWorkspaceFileTarget tabs root cand = some target)
    (outside : selectOutsideRootTarget (toPosix raw) = some target) (file : target.file ≠ []) :
    selectWorkspaceFileTarget tabs root (some target.path) = some target ↔ EndsPlain (toPosix raw) := by
  obtain ⟨whole,_,held,_⟩ := selectOutsideRootTarget_eq_some.mp outside
  have a : ∀ c ∈ (toPosix raw).head?, CodeUnit.isSpace c = false :=
    fun _ mem => isSpace_of_mem_head_toPosix (fun _ => isSpace_of_mem_head_rawCandidate given) mem
  change toPosix raw = target.path at whole
  rw [whole] at held a ⊢
  constructor
  · exact endsPlain_of_again held a file
  · intro plain
    have again := rawCandidate_eq a plain
    rw [← whole] at again ⊢
    rw [← selected]
    by_cases t : 0 ∈ raw
    · refine select_congr ?_
      have kept : 0 ∈ toPosix raw := (mem_toPosix (by decide) (by decide)).mpr t
      rw [resolve_of_mem again kept,resolve_of_mem given t,(posix_toPosix raw).toPosix_eq]
    · have absent : 0 ∉ toPosix raw := fun mem => t ((mem_toPosix (by decide) (by decide)).mp mem)
      have also : isAbsoluteLike (toPosix raw) = true := whole ▸ held
      refine select_congr ?_
      rw [resolve_of_absolute again absent also,resolve_of_absolute given t absolute,
        resolveAbsoluteCandidate_toPosix]

theorem endsPlain_join (filled : file ≠ []) : EndsPlain (root ++ slash :: file) ↔ EndsPlain file := by
  unfold EndsPlain
  obtain ⟨last,final⟩ := isSome_iff_exists.mp (getLast?_isSome.mpr filled)
  rw [getLast?_append,getLast?_cons_of_ne_nil filled,final,some_or]

theorem select_of_outside (resolved : resolveWorkspaceFileIdentifier tabs (normalizedRoot root)
    cand = .outsideRoot path) :
    selectWorkspaceFileTarget tabs root cand = selectOutsideRootTarget path := by
  unfold normalizedRoot at resolved
  simp only [selectWorkspaceFileTarget,resolved]

theorem select_of_relative (resolved : resolveWorkspaceFileIdentifier tabs (normalizedRoot root)
    cand = .relative path) (filled : normalizedRoot root ≠ []) :
    selectWorkspaceFileTarget tabs root cand = some ⟨normalizedRoot root,path⟩ := by
  unfold normalizedRoot at resolved
  simp only [selectWorkspaceFileTarget,resolved]
  exact if_pos (length_pos_iff.mpr filled)

theorem resolveAbsoluteCandidate_join (divides : tabs.Divides slash) (posix : Posix root)
    (behind : Posix file) (filled : root ≠ []) (contained : isContainedAgentPath file = true) :
    resolveAbsoluteCandidate tabs root (root ++ slash :: file) = .relative file := by
  have facts := contained_of_isContainedAgentPath contained
  have lowered := divides.toLowerCase root file
  have joined := (posix.append behind facts.filled facts.start).toPosix_eq
  have longer : tabs.toLowerCase (root ++ slash :: file) ≠ tabs.toLowerCase root := by
    intro same
    have lengths := congrArg length (lowered.symm.trans same)
    rw [length_append,length_cons] at lengths
    omega
  have under : tabs.toLowerCase root ++ [slash] <+: tabs.toLowerCase (root ++ slash :: file) :=
    ⟨tabs.toLowerCase file,by rw [lowered,append_assoc]; rfl⟩
  have cut : (root ++ slash :: file).drop (root.length + 1) = file := by
    rw [append_cons]
    exact drop_left' (by simp)
  have remainder : relativeUnderRoot tabs root (root ++ slash :: file) = some file := by
    unfold relativeUnderRoot
    simp only [posix.toPosix_eq,joined]
    rw [if_neg (by simpa using filled),if_neg longer,if_pos under,cut]
  unfold resolveAbsoluteCandidate
  simp only [remainder]
  rw [if_neg (by simpa using facts.filled)]
  exact if_pos contained

section Below
variable (divides : tabs.Divides slash) (filled : normalizedRoot root ≠ [])
  (contained : isContainedAgentPath file = true) (behind : Posix file)

theorem head_join (filled : normalizedRoot root ≠ []) (file : Units) :
    ∀ c ∈ (normalizedRoot root ++ slash :: file).head?, CodeUnit.isSpace c = false := by
  intro c mem
  obtain ⟨d,rest,same⟩ := exists_cons_of_ne_nil filled
  rw [same] at mem
  have first : c ∈ (normalizedRoot root).head? := by
    rw [same]
    exact mem
  exact isSpace_of_mem_head_normalizedRoot first

include divides filled contained behind

theorem absolute_again_iff (absolute : isAbsoluteLike (normalizedRoot root) = true) :
    selectWorkspaceFileTarget tabs root (some (normalizedRoot root ++ slash :: file)) =
        some ⟨normalizedRoot root,file⟩ ↔
      EndsPlain file ∧ (0 ∉ normalizedRoot root ∨ slash ∉ file ∧ (normalizedRoot root).head? ≠ some tilde) := by
  have posix : Posix (normalizedRoot root) := posix_toPosix (trim root)
  have facts := contained_of_isContainedAgentPath contained
  have a := head_join filled file
  have joined := posix.append behind facts.filled facts.start
  have also : isAbsoluteLike (normalizedRoot root ++ slash :: file) = true :=
    (isAbsoluteLike_join filled file).trans absolute
  by_cases plain : EndsPlain file
  · have again := rawCandidate_eq a ((endsPlain_join facts.filled).mpr plain)
    rw [and_iff_right plain]
    by_cases t : 0 ∈ normalizedRoot root
    · have mem : 0 ∈ normalizedRoot root ++ slash :: file := mem_append_left _ t
      rw [select_of_outside (resolve_of_mem again mem),joined.toPosix_eq,
        selectOutsideRootTarget_eq_some,or_iff_right (fun absent => absent t),
        head?_append_of_ne_nil _ filled]
      have proper : normalizedRoot root ≠ [slash] := by
        intro same
        exact posix.spaced.last (by rw [same]; rfl)
      constructor
      · intro ⟨_,apart,_,tilded,_⟩
        exact ⟨apart,tilded⟩
      · intro ⟨apart,tilded⟩
        exact ⟨rfl,apart,also,tilded,filled,proper,contained⟩
    · have absent : 0 ∉ normalizedRoot root ++ slash :: file := by
        rw [mem_append,mem_cons,not_or,not_or]
        exact ⟨t,by decide,facts.text⟩
      have resolved := (resolve_of_absolute again absent also).trans
        (resolveAbsoluteCandidate_join divides posix behind filled contained)
      exact iff_of_true (select_of_relative resolved filled) (.inl t)
  · refine iff_of_false ?_ (fun both => plain both.1)
    intro again
    have ends : EndsPlain (WorkspaceFileTarget.mk (normalizedRoot root) file).path :=
      endsPlain_of_again also a facts.filled again
    exact plain ((endsPlain_join facts.filled).mp ends)

omit divides behind in
theorem relative_again_iff (relative : isAbsoluteLike (normalizedRoot root) = false) :
    selectWorkspaceFileTarget tabs root (some (normalizedRoot root ++ slash :: file)) =
        some ⟨normalizedRoot root,file⟩ ↔
      0 ∉ normalizedRoot root ∧ withoutDotSlash (toPosix (trim (normalizedRoot root ++ slash :: file))) = file := by
  have facts := contained_of_isContainedAgentPath contained
  have first := head_join filled file
  obtain ⟨spaces,whole,blank⟩ := trim_append first
  have also : isAbsoluteLike (trim (normalizedRoot root ++ slash :: file)) = false :=
    ((isAbsoluteLike_trim first).trans (isAbsoluteLike_join filled file)).trans relative
  have texts : 0 ∈ trim (normalizedRoot root ++ slash :: file) ↔ 0 ∈ normalizedRoot root := by
    have inside : 0 ∈ normalizedRoot root ++ slash :: file ↔ 0 ∈ normalizedRoot root := by
      rw [mem_append,mem_cons]
      exact or_iff_left (fun other => other.elim (by decide) facts.text)
    have letters : 0 ∉ spaces := fun mem => absurd (blank 0 mem) (by decide)
    rw [← inside]
    conv_rhs => rw [whole]
    rw [mem_append]
    exact (or_iff_left letters).symm
  have given : rawCandidate (some (normalizedRoot root ++ slash :: file)) =
      trim (normalizedRoot root ++ slash :: file) := rfl
  constructor
  · intro again
    cases select_cases given again facts.filled with
    | below absolute =>
      have absurdity := also.symm.trans absolute
      cases absurdity
    | relative _ t _ _ same =>
      exact ⟨fun mem => t (texts.mpr mem),(WorkspaceFileTarget.mk.inj same).2.symm⟩
    | holding absolute =>
      have absurdity := also.symm.trans absolute
      cases absurdity
    | drive _ outside =>
      obtain ⟨whole,_,absolute,_⟩ := selectOutsideRootTarget_eq_some.mp outside
      rw [whole,isAbsoluteLike_join filled,relative] at absolute
      cases absolute
  · intro ⟨t,same⟩
    exact select_of_relative (resolve_of_relative given (fun mem => t (texts.mp mem)) also same contained) filled

theorem below_again_iff : selectWorkspaceFileTarget tabs root (some (normalizedRoot root ++ slash :: file)) =
        some ⟨normalizedRoot root,file⟩ ↔ Settles (normalizedRoot root) file := by
  unfold Settles
  cases kind : isAbsoluteLike (normalizedRoot root) with
  | true =>
    rw [if_pos rfl]
    exact absolute_again_iff divides filled contained behind kind
  | false =>
    rw [if_neg Bool.false_ne_true]
    exact relative_again_iff filled contained kind

end Below

end Again

end Keiko.EditorWorkspacePath
