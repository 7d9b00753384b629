import Keiko.Library.LowerCase
import Keiko.Library.Segments
import Keiko.Library.Utf8Cut

/-! The file that the editor opens for a candidate path. A candidate below the workspace root is
named relative to it, where the root is matched on lower case and cut off by its own length; an
absolute one elsewhere is opened from the directory that holds it. -/
namespace Keiko.EditorWorkspacePath
open Keiko.Library Keiko.Library.Units Keiko.Library.Segments

def slash : CodeUnit := 0x2f

def backslash : CodeUnit := 0x5c

def tilde : CodeUnit := 0x7e

def colon : CodeUnit := 0x3a

def dot : CodeUnit := 0x2e

section Agent

def editorAgentTargetPathMaxBytes : ℕ := 4096

/-- `/^[A-Za-z]:/`. -/
def startsWithDrive : Units → Bool
  | c :: d :: _ => CodeUnit.isLetter c && d = colon
  | _ => false

def isContainedAgentPath (candidate : Units) : Bool :=
  if candidate.length = 0 then false
  else if byteLength candidate > editorAgentTargetPathMaxBytes then false
  else if candidate.head? = some slash || startsWithDrive candidate then false
  else if candidate.contains 0 || candidate.contains backslash then false
  else !(candidate.splitOn slash).contains [dot,dot]

end Agent

section Identifiers

inductive WorkspaceFileIdentifierResolution where
  | empty
  | root
  | relative (path : Units)
  | outsideRoot (candidate : Units)
  deriving DecidableEq

structure WorkspaceFileTarget where
  root : Units
  file : Units
  deriving DecidableEq

def isAbsoluteLike (path : Units) : Bool :=
  path.head? = some slash || path.head? = some backslash || path.head? = some tilde ||
    startsWithDrive path

def slashed (path : Units) : Units := path.map fun c => if c = backslash then slash else c

def toPosix (path : Units) : Units :=
  let collapsed := collapse slash (slashed path)
  if collapsed.length = 0 then []
  else if (slashed path).head? = some slash then slash :: collapsed else collapsed

variable (tables : CaseTables)

def relativeUnderRoot (root child : Units) : Option Units :=
  let normalizedRoot := toPosix root
  let normalizedChild := toPosix child
  if normalizedRoot.length = 0 then none
  else
    let rootCmp := tables.toLowerCase normalizedRoot
    let childCmp := tables.toLowerCase normalizedChild
    if childCmp = rootCmp then some []
    else if rootCmp ++ [slash] <+: childCmp then some (normalizedChild.drop (normalizedRoot.length + 1))
    else none

def isRootRelativeFileIdentifier (value : Units) : Bool := isContainedAgentPath value

def resolveAbsoluteCandidate (root raw : Units) : WorkspaceFileIdentifierResolution :=
  match relativeUnderRoot tables root raw with
  | none => .outsideRoot (toPosix raw)
  | some remainder =>
    if remainder.length = 0 then .root
    else if isRootRelativeFileIdentifier remainder then .relative remainder
    else .outsideRoot (toPosix raw)

/-- `replace(/^\.\//u, "")`. -/
def withoutDotSlash (path : Units) : Units :=
  if [dot,slash] <+: path then path.drop 2 else path

def resolveWorkspaceFileIdentifier (root : Units) (candidate : Option Units) :
    WorkspaceFileIdentifierResolution :=
  let raw := (candidate.map trim).getD []
  if raw.length = 0 then .empty
  else if raw.contains 0 then .outsideRoot (toPosix raw)
  else if isAbsoluteLike raw then resolveAbsoluteCandidate tables root raw
  else
    let relative := withoutDotSlash (toPosix raw)
    if relative.length = 0 then .empty
    else if isRootRelativeFileIdentifier relative then .relative relative
    else .outsideRoot relative

end Identifiers

section Targets

/-- `lastIndexOf("/")`. -/
def lastSlash (path : Units) : Option ℕ :=
  (path.reverse.idxOf? slash).map fun back => path.length - 1 - back

def posixDirname (path : Units) : Units :=
  match lastSlash path with
  | none => []
  | some 0 => [slash]
  | some index => path.take index

def posixBasename (path : Units) : Units :=
  match lastSlash path with
  | none => path
  | some index => path.drop (index + 1)

def selectOutsideRootTarget (offending : Units) : Option WorkspaceFileTarget :=
  if !isAbsoluteLike offending || offending.head? = some tilde then none
  else
    let containingRoot := posixDirname offending
    let file := posixBasename offending
    if containingRoot.length = 0 || containingRoot = [slash] || !isRootRelativeFileIdentifier file then none
    else some ⟨containingRoot,file⟩

def selectWorkspaceFileTarget (tables : CaseTables) (root : Units) (candidate : Option Units) :
    Option WorkspaceFileTarget :=
  let normalizedRoot := toPosix (trim root)
  match resolveWorkspaceFileIdentifier tables normalizedRoot candidate with
  | .relative path => if normalizedRoot.length > 0 then some ⟨normalizedRoot,path⟩ else none
  | .root => if normalizedRoot.length > 0 then some ⟨normalizedRoot,[]⟩ else none
  | .empty => if normalizedRoot.length > 0 then some ⟨normalizedRoot,[]⟩ else none
  | .outsideRoot candidate => selectOutsideRootTarget candidate

end Targets

end Keiko.EditorWorkspacePath
