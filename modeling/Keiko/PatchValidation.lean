import Keiko.PatchAlign
import Keiko.PatchCommit
import Keiko.PatchNormalize
import Keiko.PatchRender

/-! Validating and applying a patch. The host resolves paths and knows what is no regular
file; the contents of the regular files are the workspace. Validation parses the diff,
checks it against the limits and the paths, reads the files, aligns the hunks and computes
every section against what was read; applying reads the files again and commits. -/
namespace Keiko.Patch
open Keiko.Library Keiko.UnifiedDiff

section Data

inductive PatchRejectionCode where
  | sizeLimit
  | binary
  | pathUnsafe
  | pathDenied
  | lineLimit
  | fileLimit
  | malformed
  deriving DecidableEq, Repr

structure PatchRejection where
  code : PatchRejectionCode
  message : String
  path : Option Text
  deriving DecidableEq, Repr

structure PatchConflict where
  path : Text
  hunkIndex : Nat
  reason : String
  deriving DecidableEq, Repr

structure PatchValidation where
  ok : Bool
  files : List PatchFileChange
  totalChangedLines : Nat
  totalBytes : Nat
  normalizedDiff : Option Text
  reasons : List PatchRejection
  conflicts : List PatchConflict
  deriving DecidableEq, Repr

structure PatchLimits where
  maxPatchBytes : Nat
  maxChangedLines : Nat
  maxFilesChanged : Nat
  deriving DecidableEq, Repr

def defaultPatchLimits : PatchLimits := ⟨8 * 1048576,2000,50⟩

def patchSourceMaxFileBytes : Nat := 1000000
def patchSourceMaxTotalBytes : Nat := 4000000

/-- The checks of one inspection; `verbatim` lifts the guard against escaped line breaks. -/
structure InspectionPolicy where
  limits : PatchLimits
  allowOverwrite : Bool
  verbatim : Bool
  deriving DecidableEq, Repr

inductive PathFailure where
  | escape
  | denied
  | other
  deriving DecidableEq, Repr

/-- Where the paths of a patch lead, and why an entry there is no readable regular file. -/
structure Host where
  enforcePath : Text → Except PathFailure Text
  irregular : Text → Option String

end Data

section Reasons

def isBinaryDiff (diff : Text) : Bool :=
  let binaryLine := fun line : Text => "Binary files ".toList.isPrefixOf line &&
    " differ".toList.isSuffixOf (line.drop "Binary files ".toList.length)
  Text.includes "GIT binary patch".toList diff ||
    (diff.splitOnP isLineTerminator).any binaryLine || diff.contains (Char.ofNat 0)

def hasEscapedDiffLineBreak (diff : Text) : Bool :=
  Text.includes "\\n+".toList diff || Text.includes "\\n-".toList diff ||
    Text.includes "\\n ".toList diff

def reasonIf (condition : Bool) (code : PatchRejectionCode) (message : String) :
    List PatchRejection := if condition then [⟨code,message,none⟩] else []

def sizeAndCountReasons (diff : Text) (files : List PatchFileChange) (totalChangedLines : Nat)
    (policy : InspectionPolicy) (totalBytes : Nat) : List PatchRejection :=
  let limits := policy.limits
  reasonIf (!(Text.trim diff).isEmpty && files.isEmpty) .malformed
      "diff does not contain any file changes" ++
    reasonIf (decide (limits.maxPatchBytes < totalBytes)) .sizeLimit
      ("patch exceeds " ++ toString limits.maxPatchBytes ++ " bytes") ++
    reasonIf (isBinaryDiff diff) .binary "binary patches are not supported" ++
    reasonIf (!policy.verbatim && hasEscapedDiffLineBreak diff) .malformed
      "diff contains escaped newline markers; use real line breaks" ++
    reasonIf (decide (limits.maxChangedLines < totalChangedLines)) .lineLimit
      ("changed lines exceed " ++ toString limits.maxChangedLines) ++
    reasonIf (decide (limits.maxFilesChanged < files.length)) .fileLimit
      ("files changed exceed " ++ toString limits.maxFilesChanged)

def pathRejection (failure : PathFailure) (path : Text) : PatchRejection :=
  match failure with
  | .escape => ⟨.pathUnsafe,"path escapes the workspace",some path⟩
  | .denied => ⟨.pathDenied,"path matches an always-on deny pattern",some path⟩
  | .other => ⟨.pathDenied,"source file could not be inspected safely",some path⟩

def safePath (host : Host) (path : Text) : Option PatchRejection :=
  match host.enforcePath path with
  | .error failure => some (pathRejection failure path)
  | .ok _ => none

def collectPathReasons (host : Host) (files : List PatchFileChange) : List PatchRejection :=
  files.filterMap fun file => safePath host file.path

end Reasons

section Sources

structure SourceSnapshot where
  absolute : Text
  content : Option Text
  deriving DecidableEq, Repr

def reserveSourceBytes (size totalBytes : Nat) (path : Text) : Except PatchRejection Nat :=
  if patchSourceMaxFileBytes < size then
    .error ⟨.sizeLimit,"source file exceeds the per-file byte limit",some path⟩
  else if patchSourceMaxTotalBytes < totalBytes + size then
    .error ⟨.sizeLimit,"source files exceed the aggregate byte limit",some path⟩
  else .ok (totalBytes + size)

def inspectSource (host : Host) (workspace : Workspace) (path : Text) (totalBytes : Nat) :
    Except PatchRejection (SourceSnapshot × Nat) :=
  match host.enforcePath path with
  | .error failure => .error (pathRejection failure path)
  | .ok absolute =>
    match host.irregular absolute with
    | some message => .error ⟨.pathDenied,message,some path⟩
    | none =>
      match workspace absolute with
      | none => .ok (⟨absolute,none⟩,totalBytes)
      | some content => do
        let totalBytes ← reserveSourceBytes (Text.byteLength content) totalBytes path
        return (⟨absolute,some content⟩,totalBytes)

abbrev Sources := List (Text × SourceSnapshot)

/-- Each path is read once. -/
def prepareSource (host : Host) (workspace : Workspace) (state : Sources × Nat)
    (file : PatchFileChange) : Except PatchRejection (Sources × Nat) :=
  if (state.1.lookup file.path).isSome then .ok state
  else do
    let (source,totalBytes) ← inspectSource host workspace file.path state.2
    return (state.1 ++ [(file.path,source)],totalBytes)

def prepareSources (host : Host) (workspace : Workspace) (files : List PatchFileChange) :
    Except PatchRejection Sources :=
  (files.foldlM (prepareSource host workspace) ([],0)).map Prod.fst

def sourceContent (sources : Sources) (path : Text) : Option Text :=
  (sources.lookup path).bind SourceSnapshot.content

end Sources

section Inspect

structure ParsedDiff where
  files : List PatchFileChange
  effectiveDiff : Text
  normalized : Bool
  deriving DecidableEq, Repr

def parseDiffForValidation (diff : Text) : Except String ParsedDiff :=
  match parseUnifiedDiff diff with
  | .ok files => .ok ⟨files,diff,false⟩
  | .error failure =>
    let normalizedDiff := normalizeUnifiedDiffHunks diff
    if normalizedDiff = diff then .error failure
    else (parseUnifiedDiff normalizedDiff).map fun files => ⟨files,normalizedDiff,true⟩

def malformedValidation (diff : Text) (message : String) : PatchValidation :=
  ⟨false,[],0,Text.byteLength diff,none,[⟨.malformed,message,none⟩],[]⟩

def validationResult (diff effectiveDiff : Text) (files : List PatchFileChange)
    (totalChangedLines : Nat) (reasons : List PatchRejection) (conflicts : List PatchConflict) :
    PatchValidation where
  ok := reasons.isEmpty && conflicts.isEmpty
  files := files
  totalChangedLines := totalChangedLines
  totalBytes := Text.byteLength effectiveDiff
  normalizedDiff := if effectiveDiff = diff then none else some effectiveDiff
  reasons := reasons
  conflicts := conflicts

def validationReasons (host : Host) (policy : InspectionPolicy) (parsed : ParsedDiff)
    (totalChangedLines : Nat) : List PatchRejection :=
  sizeAndCountReasons parsed.effectiveDiff parsed.files totalChangedLines policy
    (Text.byteLength parsed.effectiveDiff) ++ collectPathReasons host parsed.files

def unanchoredModifyReasons (files : List PatchFileChange) : List PatchRejection :=
  (files.filter isUnanchored).map fun file =>
    ⟨.malformed,"modify hunk has no unique anchor",some file.path⟩

def collectConflicts (files : List PatchFileChange) (sources : Sources) (allowOverwrite : Bool) : List PatchConflict :=
  files.flatMap fun file =>
    (computeFileContent file (sourceContent sources file.path) allowOverwrite).conflicts.map
      fun conflict => ⟨file.path,conflict.hunkIndex,conflict.reason⟩

def changedLines (files : List PatchFileChange) : Nat :=
  (files.map fun file => file.addedLines + file.removedLines).sum

def completeInspection (host : Host) (workspace : Workspace) (policy : InspectionPolicy)
    (diff : Text) (parsed : ParsedDiff) : PatchValidation :=
  let files := parsed.files
  let totalChangedLines := changedLines files
  let rejected := fun reasons =>
    validationResult diff parsed.effectiveDiff files totalChangedLines reasons []
  let initialReasons := validationReasons host policy parsed totalChangedLines
  if initialReasons ≠ [] then rejected initialReasons
  else match prepareSources host workspace files with
    | .error rejection => rejected [rejection]
    | .ok sources =>
      let alignment := files.map fun file => alignFileHunks file (sourceContent sources file.path)
      let alignedFiles := alignment.map Prod.fst
      let effectiveDiff := if parsed.normalized || alignment.any Prod.snd then renderParsedPatch alignedFiles else diff
      let reasons := unanchoredModifyReasons alignedFiles
      let conflicts := if reasons = [] then collectConflicts alignedFiles sources policy.allowOverwrite else []
      validationResult diff effectiveDiff alignedFiles totalChangedLines reasons conflicts

def validatePatch (host : Host) (workspace : Workspace) (diff : Text) (policy : InspectionPolicy) :
    PatchValidation :=
  match parseDiffForValidation diff with
  | .error message => malformedValidation diff message
  | .ok parsed => completeInspection host workspace policy diff parsed

end Inspect

section Apply

inductive PatchError where
  | disabled
  | validation (message : String) (reasons : List PatchRejection) (conflicts : List PatchConflict)
  | cancelled (message : String)
  | failed (message : String) (path : Text)
  deriving DecidableEq, Repr

/-- What an apply is given beside the policy: the gate, what the abort signal says when the
files are about to be read and at each of them, and how the calls of the write phase end. -/
structure ApplyDeps where
  applyEnabled : Bool
  policy : InspectionPolicy
  aborted : Bool
  abortedAt : Nat → Bool
  outcomes : Outcomes

structure PatchApplyResult where
  changedFiles : List Text
  created : List Text
  deleted : List Text
  deriving DecidableEq, Repr

def plannedWrite (file : PatchFileChange) (source : SourceSnapshot) (allowOverwrite : Bool) :
    Except PatchError PlannedWrite :=
  let outcome := computeFileContent file source.content allowOverwrite
  if outcome.conflicts ≠ [] then
    .error (.validation "patch failed commit-time validation" []
      (outcome.conflicts.map fun conflict => ⟨file.path,conflict.hunkIndex,conflict.reason⟩))
  else .ok ⟨file.path,source.absolute,file.kind,outcome.content,source.content⟩

def sourceValidation (rejection : PatchRejection) : PatchError :=
  .validation "patch failed validation" [rejection] []

def requiredSource (sources : Sources) (path : Text) : Except PatchError SourceSnapshot :=
  match sources.lookup path with
  | some source => .ok source
  | none => .error (sourceValidation
      ⟨.pathDenied,"source file could not be inspected safely",some path⟩)

def prepareSourcesUnless (host : Host) (workspace : Workspace) (abortedAt : Nat → Bool)
    (files : List PatchFileChange) : Except PatchError Sources :=
  match (List.range files.length).find? abortedAt with
  | some index =>
    match prepareSources host workspace (files.take index) with
    | .error rejection => .error (sourceValidation rejection)
    | .ok _ => .error (.cancelled "apply cancelled before write planning completed")
  | none => (prepareSources host workspace files).mapError sourceValidation

def planWrites (host : Host) (workspace : Workspace) (abortedAt : Nat → Bool)
    (files : List PatchFileChange) (allowOverwrite : Bool) :
    Except PatchError (List PlannedWrite) := do
  let sources ← prepareSourcesUnless host workspace abortedAt files
  files.mapM fun file => do
    let source ← requiredSource sources file.path
    plannedWrite file source allowOverwrite

def summarize (plans : List PlannedWrite) : PatchApplyResult where
  changedFiles := plans.map PlannedWrite.path
  created := (plans.filter fun plan => plan.kind = .create).map PlannedWrite.path
  deleted := (plans.filter fun plan => plan.kind = .delete).map PlannedWrite.path

def applyPatch (host : Host) (workspace : Workspace) (diff : Text) (deps : ApplyDeps) :
    Except PatchError PatchApplyResult × Workspace :=
  if deps.applyEnabled = false then (.error .disabled,workspace)
  else
    let validation := validatePatch host workspace diff deps.policy
    if validation.ok = false then
      (.error (.validation "patch failed validation" validation.reasons validation.conflicts),
        workspace)
    else if deps.aborted then
      (.error (.cancelled "apply cancelled before write phase"),workspace)
    else match planWrites host workspace deps.abortedAt validation.files deps.policy.allowOverwrite with
      | .error failure => (.error failure,workspace)
      | .ok plans =>
        match commit deps.outcomes workspace plans with
        | .error (.cancelled message,after) => (.error (.cancelled message),after)
        | .error (.failed message path,after) => (.error (.failed message path),after)
        | .ok after => (.ok (summarize plans),after)

end Apply

end Keiko.Patch
