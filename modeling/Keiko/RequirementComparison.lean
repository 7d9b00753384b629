import Keiko.Comparators
import Keiko.Library.Distinct
import Keiko.Library.OrderedMap

/-! The change set of a new document version against the backlog. Every item of the backlog carries
labels for the documents, the requirements and the revisions it was derived from; the comparison
tells from them which requirements of the inventory are changed, untraced or unchanged, and files
what a traced document no longer states under one of the documents of the item. -/
namespace Keiko.RequirementComparison
open Library Comparators

class ComparableRequirement (Entry : Type*) where
  id : Entry → Units
  digest : Entry → Units
  documentScope : Entry → Units

open ComparableRequirement (digest documentScope)

inductive RequirementChangeStatus where
  | changed
  | removed
  | untraced
  deriving DecidableEq

structure RequirementTracedIssue where
  key : Units
  labels : List Units

structure RequirementChange (Entry : Type*) where
  status : RequirementChangeStatus
  id : Units
  documentScope : Units
  issues : List Units
  entry : Option Entry

structure RequirementChanges (Entry : Type*) where
  items : List (RequirementChange Entry)
  unchangedCount : ℕ
  unchanged : List Entry
  unverifiedRemoved : List (RequirementChange Entry)
  tracedIssueCount : ℕ
  unmatchedIssueCount : ℕ
  affectedIssues : List Units

/-- The sets of the source hold their members in the order in which they came first. -/
structure ParsedIssue where
  key : Units
  requirements : List Units
  documents : List Units
  labels : List Units

def REQUIREMENT_DOCUMENT_LABEL_PREFIX : Units := units "keiko-doc-"

def REQUIREMENT_LABEL_PREFIX : Units := units "keiko-req-"

def REQUIREMENT_REVISION_LABEL_PREFIX : Units := units "keiko-rev-"

def REQUIREMENT_DIGEST_SHORT_LENGTH : ℕ := 12

def revisionLabel (digest : Units) : Units :=
  REQUIREMENT_REVISION_LABEL_PREFIX ++ digest.take REQUIREMENT_DIGEST_SHORT_LENGTH

def distinct (items : List Units) : List Units := Distinct.collect (fun _ => true) [] items

def withPrefix (labels : List Units) (start : Units) : List Units :=
  distinct ((labels.filter fun label => start.isPrefixOf label).map fun label =>
    label.drop start.length)

def parse (issue : RequirementTracedIssue) : ParsedIssue where
  key := issue.key
  requirements := withPrefix issue.labels REQUIREMENT_LABEL_PREFIX
  documents := withPrefix issue.labels REQUIREMENT_DOCUMENT_LABEL_PREFIX
  labels := distinct issue.labels

def sortedKeys (keys : List Units) : List Units := Comparator.sort compareIssueKeys (distinct keys)

section Model
variable {Entry : Type*} [ComparableRequirement Entry]

structure State where
  traced : Bool
  outdated : List Units

def stateOf (entry : Entry) (issues : List ParsedIssue) : State :=
  let traced := issues.filter fun issue =>
    issue.requirements.contains (ComparableRequirement.id entry) && issue.documents.contains (documentScope entry)
  let current := revisionLabel (digest entry)
  ⟨!traced.isEmpty,sortedKeys ((traced.filter fun issue => !issue.labels.contains current).map ParsedIssue.key)⟩

/-- The key of a requirement of a document: the scope, a null character and the identifier. -/
def slotKey (scope id : Units) : Units := scope ++ 0 :: id

structure Slot where
  id : Units
  scope : Units
  keys : List Units

def push (removed : OrderedMap Units Slot) (scope id key : Units) : OrderedMap Units Slot :=
  let slot := (removed.get? (slotKey scope id)).getD ⟨id,scope,[]⟩
  removed.set (slotKey scope id) { slot with keys := slot.keys ++ [key] }

def currentScopes (current : List Units) (issue : ParsedIssue) : List Units :=
  Comparator.sort compareStrings (issue.documents.filter current.contains)

def collectMissing (current known : List Units) (removed : OrderedMap Units Slot)
    (issue : ParsedIssue) : OrderedMap Units Slot :=
  let scopes := currentScopes current issue
  match scopes.head? with
  | none => removed
  | some scope =>
    issue.requirements.foldl (fun removed id =>
      if scopes.any fun candidate => known.contains (slotKey candidate id) then removed
      else push removed scope id issue.key) removed

def removedChange (slot : Slot) : RequirementChange Entry where
  status := .removed
  id := slot.id
  documentScope := slot.scope
  issues := sortedKeys slot.keys
  entry := none

structure Missing (Entry : Type*) where
  removed : List (RequirementChange Entry)
  unverified : List (RequirementChange Entry)

def missingItems (issues : List ParsedIssue) (current known incomplete : List Units) : Missing Entry :=
  let removed := issues.foldl (collectMissing current known) OrderedMap.empty
  let all := (Comparator.sort (Comparator.mapped (fun slot => slot.scope ++ slot.id) compareStrings)
    removed.values).map removedChange
  ⟨all.filter fun item => !incomplete.contains item.documentScope,
    all.filter fun item => incomplete.contains item.documentScope⟩

def tracedIssues (backlog : List RequirementTracedIssue) : List ParsedIssue :=
  (backlog.map parse).filter fun issue => !issue.requirements.isEmpty

def changedItem (issues : List ParsedIssue) (entry : Entry) : Option (RequirementChange Entry) :=
  let state := stateOf entry issues
  if state.traced && !state.outdated.isEmpty then
    some ⟨.changed,ComparableRequirement.id entry,documentScope entry,state.outdated,some entry⟩
  else none

def untracedItem (issues : List ParsedIssue) (entry : Entry) : Option (RequirementChange Entry) :=
  if (stateOf entry issues).traced then none
  else some ⟨.untraced,ComparableRequirement.id entry,documentScope entry,[],some entry⟩

def isUnchanged (issues : List ParsedIssue) (entry : Entry) : Bool :=
  let state := stateOf entry issues
  state.traced && state.outdated.isEmpty

def compareRequirementsWithTrace (entries : List Entry) (documentScopes : List Units)
    (backlog : List RequirementTracedIssue) (incompleteScopes : List Units) :
    RequirementChanges Entry :=
  let issues := tracedIssues backlog
  let known := entries.map fun entry => slotKey (documentScope entry) (ComparableRequirement.id entry)
  let changed := entries.filterMap (changedItem issues)
  let untraced := entries.filterMap (untracedItem issues)
  let unchanged := entries.filter (isUnchanged issues)
  let missing : Missing Entry := missingItems issues documentScopes known incompleteScopes
  { items := changed ++ missing.removed ++ untraced
    unchangedCount := unchanged.length
    unchanged := unchanged
    unverifiedRemoved := missing.unverified
    tracedIssueCount := issues.length
    unmatchedIssueCount := (issues.filter fun issue =>
      !issue.documents.any fun scope => documentScopes.contains scope).length
    affectedIssues := sortedKeys ((changed ++ missing.removed).flatMap RequirementChange.issues) }

end Model

end Keiko.RequirementComparison
