import Keiko.PatchValidation

/-! What an applied patch leaves against what its sections leave one after another. Every
section is computed from the content before the patch, so the sections of one file do not
see each other: the last one stands. -/
namespace Keiko.Patch
open Keiko.Library Keiko.UnifiedDiff List

section Accepted

def resolve (host : Host) (path : Text) : Text := (host.enforcePath path).toOption.getD path

def contentAt (host : Host) (ws : Workspace) (path : Text) : Option Text :=
  ws (resolve host path)

def alignedTo (file : PatchFileChange) (current : Option Text) : PatchFileChange :=
  (alignFileHunks file current).1

variable {host : Host} {ws : Workspace} {policy : InspectionPolicy} {diff : Text}
  {file : PatchFileChange} {files : List PatchFileChange} {sources : Sources} {abortedAt : Nat → Bool}
  {overwrite : Bool} {next s : Sources × Nat} {path : Text}

theorem alignedTo_path (cur : Option Text) : (alignedTo file cur).path = file.path := by
  unfold alignedTo alignFileHunks
  split
  · rfl
  · split
    · split <;> rfl
    · split
      · rfl
      · dsimp only
        split <;> rfl

theorem resolve_of_ok {absolute : Text} (resolved : host.enforcePath path = .ok absolute) :
    resolve host path = absolute := by
  rw [resolve,resolved]
  rfl

theorem enforcePath_of_collectPathReasons (clear : collectPathReasons host files = []) :
    ∀ file ∈ files, host.enforcePath file.path = .ok (resolve host file.path) := by
  intro file mem
  have safe := filterMap_eq_nil_iff.mp clear file mem
  unfold safePath at safe
  cases resolved : host.enforcePath file.path with
  | error failure => simp [resolved] at safe
  | ok absolute => rw [resolve_of_ok resolved]

def Read (host : Host) (ws : Workspace) (sources : Sources) : Prop :=
  ∀ path source, sources.lookup path = some source → source = ⟨resolve host path,contentAt host ws path⟩

theorem inspectSource_ok {totalBytes : Nat} {read : SourceSnapshot × Nat}
    (inspected : inspectSource host ws path totalBytes = .ok read) :
    read.1 = ⟨resolve host path,contentAt host ws path⟩ := by
  unfold inspectSource at inspected
  split at inspected
  · contradiction
  case h_2 absolute resolved =>
    rw [contentAt,resolve_of_ok resolved]
    split at inspected
    · contradiction
    · split at inspected
      case h_1 absent =>
        cases inspected
        rw [absent]
      case h_2 content here =>
        obtain ⟨bytes,-,rest⟩ := bind_eq_ok.mp inspected
        cases pure_eq_ok.mp rest
        rw [here]

theorem prepareSource_ok (read : Read host ws s.1)
    (prepared : prepareSource host ws s file = .ok next) :
    Read host ws next.1 ∧ (next.1.lookup file.path).isSome = true ∧
      ∀ path, (s.1.lookup path).isSome = true → (next.1.lookup path).isSome = true := by
  unfold prepareSource at prepared
  split at prepared
  case isTrue known =>
    cases prepared
    exact ⟨read,known,fun _ => id⟩
  case isFalse unknown =>
    obtain ⟨⟨src,bytes⟩,inspected,rest⟩ := bind_eq_ok.mp prepared
    cases pure_eq_ok.mp rest
    have same := inspectSource_ok inspected
    have absent : s.1.lookup file.path = none := Option.not_isSome_iff_eq_none.mp unknown
    refine ⟨?_,?_,?_⟩
    · intro path hit looked
      rw [lookup_append] at looked
      cases early : s.1.lookup path with
      | some old =>
        rw [early] at looked
        cases looked
        exact read path _ early
      | none =>
        rw [early,Option.none_or,lookup_cons] at looked
        split at looked
        case h_1 here =>
          cases looked
          rw [beq_iff_eq.mp here]
          exact same
        case h_2 => simp at looked
    · simp [lookup_append,absent]
    · intro path known
      rw [lookup_append]
      cases early : s.1.lookup path with
      | some old => rfl
      | none =>
        rw [early] at known
        contradiction

theorem prepareSources_loop (read : Read host ws s.1)
    (looped : files.foldlM (prepareSource host ws) s = .ok next) :
    Read host ws next.1 ∧ (∀ file ∈ files, (next.1.lookup file.path).isSome = true) ∧
        ∀ path, (s.1.lookup path).isSome = true → (next.1.lookup path).isSome = true := by
  induction files generalizing s with
  | nil =>
    cases looped
    exact ⟨read,by simp,fun _ => id⟩
  | cons file files ih =>
    rw [foldlM_cons] at looped
    obtain ⟨middle,first,rest⟩ := bind_eq_ok.mp looped
    obtain ⟨readMiddle,here,kept⟩ := prepareSource_ok read first
    obtain ⟨readNext,all,keptRest⟩ := ih readMiddle rest
    refine ⟨readNext,?_,fun path known => keptRest path (kept path known)⟩
    intro other mem
    rcases mem_cons.mp mem with rfl | inside
    · exact keptRest _ here
    · exact all other inside

theorem prepareSources_ok (prepared : prepareSources host ws files = .ok sources) :
    ∀ file ∈ files, sources.lookup file.path = some ⟨resolve host file.path,contentAt host ws file.path⟩ := by
  obtain ⟨next,looped,rfl⟩ := map_eq_ok.mp prepared
  have empty : Read host ws ([],0).1 := by
    intro path src looked
    simp at looked
  obtain ⟨read,all,-⟩ := prepareSources_loop empty looped
  intro file mem
  obtain ⟨src,hit⟩ := Option.isSome_iff_exists.mp (all file mem)
  rw [hit,read _ _ hit]

/-- What a validation accepts: the diff parses, nothing speaks against it, all files are
read, and every section fits the content of its file once it is aligned. -/
structure Accepted (host : Host) (ws : Workspace) (policy : InspectionPolicy)
    (parsed : ParsedDiff) (validation : PatchValidation) : Prop where
  reasons : validationReasons host policy parsed (changedLines parsed.files) = []
  sources : ∃ sources, prepareSources host ws parsed.files = .ok sources
  files : validation.files = parsed.files.map fun file => alignedTo file (contentAt host ws file.path)
  anchored : ∀ file ∈ parsed.files, isUnanchored (alignedTo file (contentAt host ws file.path)) = false
  fits : ∀ file ∈ parsed.files, (computeFileContent (alignedTo file (contentAt host ws file.path))
      (contentAt host ws file.path) policy.allowOverwrite).conflicts = []

theorem Accepted.resolves {parsed : ParsedDiff} {validation : PatchValidation}
    (accepted : Accepted host ws policy parsed validation) :
    ∀ file ∈ parsed.files, host.enforcePath file.path = .ok (resolve host file.path) :=
  enforcePath_of_collectPathReasons (append_eq_nil_iff.mp accepted.reasons).2

theorem validationResult_ok {effectiveDiff : Text} {totalChangedLines : Nat}
    {reasons : List PatchRejection} {conflicts : List PatchConflict} :
    (validationResult diff effectiveDiff files totalChangedLines reasons conflicts).ok = true ↔
      reasons = [] ∧ conflicts = [] := by
  simp [validationResult]

theorem validatePatch_ok (ok : (validatePatch host ws diff policy).ok = true) :
    ∃ parsed, parseDiffForValidation diff = .ok parsed ∧
      Accepted host ws policy parsed (validatePatch host ws diff policy) := by
  unfold validatePatch at ok ⊢
  cases parse : parseDiffForValidation diff with
  | error message =>
    rw [parse] at ok
    contradiction
  | ok parsed =>
    rw [parse] at ok
    refine ⟨parsed,rfl,?_⟩
    dsimp only at ok ⊢
    unfold completeInspection at ok ⊢
    dsimp only at ok ⊢
    split at ok
    case isTrue some_reason =>
      exact absurd (validationResult_ok.mp ok).1 some_reason
    case isFalse no_reason =>
      rw [not_not] at no_reason
      rw [if_neg (not_not.mpr no_reason)]
      split at ok
      case h_1 rejection _ =>
        exact absurd (validationResult_ok.mp ok).1 (cons_ne_nil _ _)
      case h_2 sources prepared =>
        have read : ∀ file ∈ parsed.files, sourceContent sources file.path = contentAt host ws file.path := by
          intro file mem
          rw [sourceContent,prepareSources_ok prepared file mem]
          rfl
        obtain ⟨unanchored,conflicts⟩ := validationResult_ok.mp ok
        rw [if_pos unanchored] at conflicts
        have alignment : (parsed.files.map fun file =>
            alignFileHunks file (sourceContent sources file.path)).map Prod.fst =
              parsed.files.map fun file => alignedTo file (contentAt host ws file.path) := by
          rw [map_map]
          apply map_congr_left
          intro file mem
          rw [Function.comp_apply,read file mem]
          rfl
        rw [alignment] at unanchored conflicts
        refine ⟨no_reason,⟨sources,prepared⟩,alignment,?_,?_⟩
        · intro file mem
          have clear := filter_eq_nil_iff.mp (map_eq_nil_iff.mp unanchored)
          simpa using clear _ (mem_map_of_mem mem)
        · intro file mem
          have clear := flatMap_eq_nil_iff.mp conflicts _ (mem_map_of_mem mem)
          rw [alignedTo_path,read file mem] at clear
          exact map_eq_nil_iff.mp clear

def outcomeOf (file : PatchFileChange) (current : Option Text) (allowOverwrite : Bool) : Option Text :=
  let aligned := alignedTo file current
  if aligned.kind = .delete then none
  else some ((computeFileContent aligned current allowOverwrite).content.getD [])

def planFor (host : Host) (ws : Workspace) (allowOverwrite : Bool) (file : PatchFileChange) : PlannedWrite :=
  let current := contentAt host ws file.path
  ⟨file.path,resolve host file.path,(alignedTo file current).kind,
    (computeFileContent (alignedTo file current) current allowOverwrite).content,current⟩

theorem planFor_planned (overwrite : Bool) : (planFor host ws overwrite file).planned =
      outcomeOf file (contentAt host ws file.path) overwrite := rfl

theorem plannedWrite_ok {src : SourceSnapshot} {plan : PlannedWrite}
    (planned : plannedWrite file src overwrite = .ok plan) :
    plan = ⟨file.path,src.absolute,file.kind,
      (computeFileContent file src.content overwrite).content,src.content⟩ := by
  unfold plannedWrite at planned
  dsimp only at planned
  split at planned
  · contradiction
  · cases planned
    rfl

theorem prepareSourcesUnless_ok
    (prepared : prepareSourcesUnless host ws abortedAt files = .ok sources) :
    prepareSources host ws files = .ok sources := by
  unfold prepareSourcesUnless at prepared
  split at prepared
  · split at prepared <;> contradiction
  · cases read : prepareSources host ws files with
    | error rejection =>
      rw [read] at prepared
      contradiction
    | ok sources' =>
      rw [read] at prepared
      cases prepared
      rfl

theorem planWrites_ok {plans : List PlannedWrite} (planned : planWrites host ws abortedAt
      (files.map fun file => alignedTo file (contentAt host ws file.path)) overwrite = .ok plans) :
    plans = files.map (planFor host ws overwrite) := by
  obtain ⟨sources,prepared,planned⟩ := bind_eq_ok.mp planned
  have hit := prepareSources_ok (prepareSourcesUnless_ok prepared)
  rw [mapM_map] at planned
  apply mapM_eq_ok _ planned
  intro file mem plan planned
  obtain ⟨src,required,planned⟩ := bind_eq_ok.mp planned
  have looked := hit _ (mem_map_of_mem mem)
  rw [requiredSource,looked] at required
  cases required
  rw [plannedWrite_ok planned]
  simp only [alignedTo_path]
  rfl

theorem applyPatch_ok {deps : ApplyDeps} {res : PatchApplyResult} {after : Workspace}
    (applied : applyPatch host ws diff deps = (.ok res,after)) :
    ∃ parsed, parseDiffForValidation diff = .ok parsed ∧
      Accepted host ws deps.policy parsed (validatePatch host ws diff deps.policy) ∧
      after = Store.writeAll PlannedWrite.absolute PlannedWrite.planned ws
        (parsed.files.map (planFor host ws deps.policy.allowOverwrite)) := by
  unfold applyPatch at applied
  dsimp only at applied
  split at applied
  · cases applied
  · split at applied
    · cases applied
    case isFalse valid =>
      have ok : (validatePatch host ws diff deps.policy).ok = true := by simpa using valid
      obtain ⟨parsed,parse,accepted⟩ := validatePatch_ok ok
      refine ⟨parsed,parse,accepted,?_⟩
      split at applied
      · cases applied
      · split at applied
        · cases applied
        case h_2 plans planned =>
          rw [accepted.files] at planned
          obtain rfl := planWrites_ok planned
          have held : ∀ plan ∈ parsed.files.map (planFor host ws deps.policy.allowOverwrite),
              plan.original = ws plan.absolute := by
            intro plan mem
            obtain ⟨file,-,rfl⟩ := mem_map.mp mem
            rfl
          rcases commit_cases deps.outcomes held with ⟨error,failed⟩ | finished
          · rw [failed] at applied
            cases error <;> cases applied
          · rw [finished] at applied
            cases applied
            rfl

end Accepted

section Sections

def sectionStep (host : Host) (allowOverwrite : Bool) (file : PatchFileChange)
    (current : Option Text) : Option (Option Text) :=
  let aligned := alignedTo file current
  if (host.enforcePath file.path).isOk = false ∨ isUnanchored aligned = true ∨
      (computeFileContent aligned current allowOverwrite).conflicts ≠ [] then none
  else some (outcomeOf file current allowOverwrite)

def applySections (host : Host) (allowOverwrite : Bool) (workspace : Workspace)
    (files : List PatchFileChange) : Option Workspace :=
  Store.runAll (fun file => resolve host file.path) (sectionStep host allowOverwrite) workspace files

def sectionsOf (host : Host) (files : List PatchFileChange) (absolute : Text) :
    List PatchFileChange := files.filter fun file => resolve host file.path = absolute

/-- The sections of a file, run in order from what it holds, leave what the last of them
leaves there alone. -/
def LastSuffices (host : Host) (allowOverwrite : Bool) (workspace : Workspace)
    (files : List PatchFileChange) (absolute : Text) : Prop :=
  Store.runAt (fun file => resolve host file.path) (sectionStep host allowOverwrite) absolute
      (workspace absolute) files =
    (sectionsOf host files absolute).getLast?.bind fun file =>
      sectionStep host allowOverwrite file (workspace absolute)

variable {host : Host} {workspace : Workspace} {diff : Text} {validation : PatchValidation}
  {policy : InspectionPolicy} {parsed : ParsedDiff}

theorem Accepted.sectionStep (accepted : Accepted host workspace policy parsed validation)
    {file : PatchFileChange} (mem : file ∈ parsed.files) :
    sectionStep host policy.allowOverwrite file (contentAt host workspace file.path) =
      some (outcomeOf file (contentAt host workspace file.path) policy.allowOverwrite) := by
  have resolved : (host.enforcePath file.path).isOk = true := by
    rw [accepted.resolves file mem]
    rfl
  unfold Keiko.Patch.sectionStep
  rw [if_neg]
  simp [resolved,accepted.anchored file mem,accepted.fits file mem]

theorem Accepted.written (accepted : Accepted host workspace policy parsed validation)
    (absolute : Text) :
    Store.writeAll PlannedWrite.absolute PlannedWrite.planned workspace
        (parsed.files.map (planFor host workspace policy.allowOverwrite)) absolute =
      (((sectionsOf host parsed.files absolute).getLast?.bind fun file =>
        Keiko.Patch.sectionStep host policy.allowOverwrite file (workspace absolute))).getD (workspace absolute) := by
  have filtered : (parsed.files.map (planFor host workspace policy.allowOverwrite)).filter
      (fun plan => plan.absolute = absolute) = (sectionsOf host parsed.files absolute).map
          (planFor host workspace policy.allowOverwrite) := by
    rw [filter_map]
    rfl
  rw [Store.writeAll_apply,filtered,getLast?_map]
  cases last : (sectionsOf host parsed.files absolute).getLast? with
  | none => rfl
  | some file =>
    obtain ⟨mem,here⟩ := mem_filter.mp (mem_of_getLast? last)
    have stepped := accepted.sectionStep mem
    rw [contentAt,of_decide_eq_true here] at stepped
    rw [Option.map_some,Option.map_some,Option.bind_some,stepped,planFor_planned,contentAt,of_decide_eq_true here]

/-- The sections of a patch are all there exactly when, of every file that several of them
name, the last one suffices. -/
theorem applyPatch_sections_iff {deps : ApplyDeps} {result : PatchApplyResult}
    {after : Workspace} {parsed : ParsedDiff} (parse : parseDiffForValidation diff = .ok parsed)
    (applied : applyPatch host workspace diff deps = (.ok result,after)) :
    applySections host deps.policy.allowOverwrite workspace parsed.files = some after ↔
      ∀ absolute, 2 ≤ (sectionsOf host parsed.files absolute).length →
        LastSuffices host deps.policy.allowOverwrite workspace parsed.files absolute := by
  obtain ⟨parsed',parse',accepted,rfl⟩ := applyPatch_ok applied
  rw [parse] at parse'
  cases parse'
  rw [applySections,Store.runAll_eq_some]
  apply forall_congr'
  intro absolute
  rw [accepted.written absolute,LastSuffices]
  have run : ∀ value, Store.runAt (fun file : PatchFileChange => resolve host file.path)
      (Keiko.Patch.sectionStep host deps.policy.allowOverwrite) absolute value parsed.files =
        (sectionsOf host parsed.files absolute).foldlM (fun value file =>
          Keiko.Patch.sectionStep host deps.policy.allowOverwrite file value) value :=
    fun _ => rfl
  have inside : ∀ file ∈ sectionsOf host parsed.files absolute,
      file ∈ parsed.files ∧ resolve host file.path = absolute := by
    intro file member
    obtain ⟨member,here⟩ := mem_filter.mp member
    exact ⟨member,of_decide_eq_true here⟩
  rw [run]
  generalize sectionsOf host parsed.files absolute = sections at inside ⊢
  -- None or one section of the file leaves nothing to compose.
  match sections with
  | [] => simp
  | [file] =>
    obtain ⟨member,here⟩ := inside file (by simp)
    have stepped := accepted.sectionStep member
    rw [contentAt,here] at stepped
    simp [stepped]
  | first :: second :: rest =>
    have found := getLast?_eq_some_getLast (cons_ne_nil first (second :: rest))
    obtain ⟨member,here⟩ := inside _ (mem_of_getLast? found)
    have stepped := accepted.sectionStep member
    rw [contentAt,here] at stepped
    rw [found,Option.bind_some,stepped]
    simp

def plainHost : Host := ⟨fun path => .ok ('/' :: path),fun _ => none⟩

def freelyApplied : ApplyDeps :=
  ⟨true,⟨defaultPatchLimits,false,false⟩,false,fun _ => false,fun _ => none⟩

def twoSections (first second : Text) : Text := Text.joinLines [
  "--- a/".toList ++ first,"+++ b/".toList ++ first,"@@ -1 +1 @@".toList,"-a".toList,"+A".toList,
  "--- a/".toList ++ second,"+++ b/".toList ++ second,"@@ -2 +2 @@".toList,"-b".toList,
  "+B".toList]

def lettersEverywhere : Workspace := fun _ => some "a\nb\n".toList

def sectionsParsed (first second : Text) : List PatchFileChange := [
  ⟨first,.modify,[⟨1,1,1,1,["-a".toList,"+A".toList]⟩],1,1⟩,
  ⟨second,.modify,[⟨2,1,2,1,["-b".toList,"+B".toList]⟩],1,1⟩]

theorem applyPatch_sections_iff_twoSections :
    applySections plainHost false lettersEverywhere (sectionsParsed ['x'] ['y']) =
      some (applyPatch plainHost lettersEverywhere (twoSections ['x'] ['y']) freelyApplied).2 := by
  have parse : parseDiffForValidation (twoSections ['x'] ['y']) =
    .ok ⟨sectionsParsed ['x'] ['y'],twoSections ['x'] ['y'],false⟩ := by decide +kernel
  have finished : (applyPatch plainHost lettersEverywhere (twoSections ['x'] ['y'])
      freelyApplied).1 = .ok ⟨[['x'],['y']],[],[]⟩ := by decide +kernel
  have applied : applyPatch plainHost lettersEverywhere (twoSections ['x'] ['y']) freelyApplied =
      (.ok ⟨[['x'],['y']],[],[]⟩,(applyPatch plainHost lettersEverywhere
        (twoSections ['x'] ['y']) freelyApplied).2) := Prod.ext finished rfl
  apply (applyPatch_sections_iff parse applied).mpr
  intro absolute repeated
  by_cases first : ['/','x'] = absolute
  · subst first
    exact absurd repeated (by decide +kernel)
  · by_cases second : ['/','y'] = absolute
    · subst second
      exact absurd repeated (by decide +kernel)
    · simp [sectionsOf,sectionsParsed,plainHost,resolve,Except.toOption,first,second] at repeated

/-- The first of two sections of one file is lost. -/
theorem applySections_not_kept :
    ¬ ∀ host workspace diff deps parsed result after,
      parseDiffForValidation diff = .ok parsed →
      applyPatch host workspace diff deps = (.ok result,after) →
        applySections host deps.policy.allowOverwrite workspace parsed.files = some after := by
  intro kept
  have parse : parseDiffForValidation (twoSections ['x'] ['x']) =
    .ok ⟨sectionsParsed ['x'] ['x'],twoSections ['x'] ['x'],false⟩ := by decide +kernel
  have finished : (applyPatch plainHost lettersEverywhere (twoSections ['x'] ['x'])
      freelyApplied).1 = .ok ⟨[['x'],['x']],[],[]⟩ := by decide +kernel
  have applied : applyPatch plainHost lettersEverywhere (twoSections ['x'] ['x']) freelyApplied =
      (.ok ⟨[['x'],['x']],[],[]⟩,(applyPatch plainHost lettersEverywhere
        (twoSections ['x'] ['x']) freelyApplied).2) := Prod.ext finished rfl
  have composed := kept _ _ _ _ _ _ _ parse applied
  have last : (applyPatch plainHost lettersEverywhere (twoSections ['x'] ['x']) freelyApplied).2
      ['/','x'] = some "a\nB\n".toList := by decide +kernel
  have both : (applySections plainHost false lettersEverywhere (sectionsParsed ['x'] ['x'])).map
      (fun after => after ['/','x']) = some (some "A\nB\n".toList) := by decide +kernel
  change applySections plainHost false lettersEverywhere _ = _ at composed
  rw [composed,Option.map_some,last] at both
  exact absurd both (by decide +kernel)

end Sections

end Keiko.Patch
