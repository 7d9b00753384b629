import Keiko.CanonicalJson
import Keiko.Library.OrderedMap
import Keiko.Library.Trace

/-! The store of supervised approvals. An approval is bound to one action and is used once, or is
bound to a task and may be used again while it is not idle for too long. The store keeps hashes of
the binding and of the token only. -/
namespace Keiko.SupervisedApproval
open Keiko.Library List Json

section Bindings

inductive ConnectorScope where
  | sourceControlRead
  | sourceControlWrite
  | issueTrackerRead
  | issueTrackerWrite
  | knowledgeBaseRead
  | knowledgeBaseWrite
  deriving DecidableEq

def ConnectorScope.text : ConnectorScope → Text
  | .sourceControlRead => "source-control.read".toList
  | .sourceControlWrite => "source-control.write".toList
  | .issueTrackerRead => "issue-tracker.read".toList
  | .issueTrackerWrite => "issue-tracker.write".toList
  | .knowledgeBaseRead => "knowledge-base.read".toList
  | .knowledgeBaseWrite => "knowledge-base.write".toList

inductive SupervisedActionKind where
  | fileEdit
  | gitStage
  | gitUnstage
  | gitFetch
  | gitPull
  | gitBranch
  | verificationCommand
  | ciObserve
  | connectorRead
  | research
  | commit
  | push
  | pullRequest
  | merge
  | connectorWrite
  | externalWrite
  | systemMutation
  deriving DecidableEq

def SupervisedActionKind.text : SupervisedActionKind → Text
  | .fileEdit => "file-edit".toList
  | .gitStage => "git-stage".toList
  | .gitUnstage => "git-unstage".toList
  | .gitFetch => "git-fetch".toList
  | .gitPull => "git-pull".toList
  | .gitBranch => "git-branch".toList
  | .verificationCommand => "verification-command".toList
  | .ciObserve => "ci-observe".toList
  | .connectorRead => "connector-read".toList
  | .research => "research".toList
  | .commit => "commit".toList
  | .push => "push".toList
  | .pullRequest => "pull-request".toList
  | .merge => "merge".toList
  | .connectorWrite => "connector-write".toList
  | .externalWrite => "external-write".toList
  | .systemMutation => "system-mutation".toList

inductive GrantScope where
  | once
  | task
  deriving DecidableEq

structure BindingBase where
  runId : Text
  requestId : Text
  actionKind : SupervisedActionKind
  scopeDigest : Text
  connectorScopes : List ConnectorScope
  deriving DecidableEq

structure TaskBinding extends BindingBase where
  commandTemplateId : Text
  safeArgumentClasses : List Text
  workspaceDigest : Text
  sourceDigest : Text
  policyVersion : Text
  deriving DecidableEq

inductive Binding where
  | once (binding : BindingBase)
  | task (binding : TaskBinding)
  deriving DecidableEq

def Binding.base : Binding → BindingBase
  | .once binding => binding
  | .task binding => binding.toBindingBase

def Binding.grantScope : Binding → GrantScope
  | .once _ => .once
  | .task _ => .task

def Binding.policyVersion : Binding → Option Text
  | .once _ => none
  | .task binding => some binding.policyVersion

def isSupervisedActionTaskGrantable (actionKind : SupervisedActionKind) : Bool :=
  [SupervisedActionKind.fileEdit,.verificationCommand].contains actionKind

def strings (texts : List Text) : Json := .array (texts.map Json.string)

/-- The scope of a task's binding leaves out the request. -/
def taskBindingScope (binding : TaskBinding) : Json :=
  .object [("actionKind".toList,.string binding.actionKind.text),
    ("commandTemplateId".toList,.string binding.commandTemplateId),
    ("connectorScopes".toList,strings (binding.connectorScopes.map ConnectorScope.text)),
    ("grantScope".toList,.string "task".toList),
    ("policyVersion".toList,.string binding.policyVersion),
    ("runId".toList,.string binding.runId),
    ("safeArgumentClasses".toList,strings binding.safeArgumentClasses),
    ("scopeDigest".toList,.string binding.scopeDigest),
    ("sourceDigest".toList,.string binding.sourceDigest),
    ("workspaceDigest".toList,.string binding.workspaceDigest)]

def onceBindingScope (binding : BindingBase) : Json :=
  .object [("actionKind".toList,.string binding.actionKind.text),
    ("connectorScopes".toList,strings (binding.connectorScopes.map ConnectorScope.text)),
    ("grantScope".toList,.string "once".toList),
    ("requestId".toList,.string binding.requestId),
    ("runId".toList,.string binding.runId),
    ("scopeDigest".toList,.string binding.scopeDigest)]

def Binding.scope : Binding → Json
  | .once binding => onceBindingScope binding
  | .task binding => taskBindingScope binding

theorem plain_strings (texts : List Text) : Json.Plain (strings texts) := by
  apply overItems_iff.mpr
  intro item mem
  obtain ⟨t,_,rfl⟩ := mem_map.mp mem
  trivial

theorem canonicalItems_strings (texts : List Text) : CanonicalJson.CanonicalItems (texts.map Json.string) := by
  induction texts with
  | nil => trivial
  | cons t texts ih => exact ⟨trivial,ih⟩

def onceNames : List Text :=
  ["actionKind".toList,"connectorScopes".toList,"grantScope".toList,"requestId".toList,
    "runId".toList,"scopeDigest".toList]

def taskNames : List Text :=
  ["actionKind".toList,"commandTemplateId".toList,"connectorScopes".toList,"grantScope".toList,
    "policyVersion".toList,"runId".toList,"safeArgumentClasses".toList,"scopeDigest".toList,
    "sourceDigest".toList,"workspaceDigest".toList]

theorem names_ordered : ∀ names ∈ [onceNames,taskNames],
    names.Pairwise (fun left right => CanonicalJson.compareStrings left right ≤ 0) ∧ names.Nodup ∧
      names.Pairwise fun left right => precedes right left = false := by
  decide

theorem Binding.scope_canonical (binding : Binding) : CanonicalJson.Canonical binding.scope := by
  cases binding with
  | once binding =>
    exact ⟨(names_ordered onceNames (by simp)).1,trivial,canonicalItems_strings _,trivial,trivial,
      trivial,trivial,trivial⟩
  | task binding =>
    exact ⟨(names_ordered taskNames (by simp)).1,trivial,trivial,canonicalItems_strings _,trivial,
      trivial,trivial,canonicalItems_strings _,trivial,trivial,trivial,trivial⟩

theorem Binding.scope_plain (binding : Binding) : Json.Plain binding.scope := by
  cases binding with
  | once binding =>
    obtain ⟨_,nodup,ordered⟩ := names_ordered onceNames (by simp)
    exact ⟨⟨nodup,ordered⟩,trivial,plain_strings _,trivial,trivial,trivial,trivial,trivial⟩
  | task binding =>
    obtain ⟨_,nodup,ordered⟩ := names_ordered taskNames (by simp)
    exact ⟨⟨nodup,ordered⟩,trivial,trivial,plain_strings _,trivial,trivial,trivial,
      plain_strings _,trivial,trivial,trivial,trivial⟩

theorem connectorScope_text_injective : Function.Injective ConnectorScope.text := by
  intro first b same
  cases first <;> cases b <;> first | rfl | (revert same; decide)

theorem actionKind_text_injective : Function.Injective SupervisedActionKind.text := by
  intro first b same
  cases first <;> cases b <;> first | rfl | (revert same; decide)

theorem strings_injective : Function.Injective strings := by
  intro a b same
  exact map_injective_iff.mpr (fun _ _ => string.inj) (array.inj same)

def Binding.forgetRequest : Binding → Binding
  | .once binding => .once binding
  | .task binding => .task { binding with requestId := [] }

theorem Binding.scope_inj {first b : Binding} (same : first.scope = b.scope) :
    first.forgetRequest = b.forgetRequest := by
  cases first with
  | once first =>
    cases b with
    | once b =>
      have fs := object.inj same
      simp only [cons.injEq,Prod.mk.injEq,true_and,and_true,string.injEq] at fs
      obtain ⟨kind,scopes,req,run,digest⟩ := fs
      have scopes := connectorScope_text_injective.list_map (strings_injective scopes)
      have kind := actionKind_text_injective kind
      cases first
      cases b
      dsimp only at kind scopes req run digest
      rw [kind,scopes,req,run,digest]
    | task b => cases congrArg length (object.inj same)
  | task first =>
    cases b with
    | once b => cases congrArg length (object.inj same)
    | task b =>
      have fs := object.inj same
      simp only [cons.injEq,Prod.mk.injEq,true_and,and_true,string.injEq] at fs
      obtain ⟨kind,template,scopes,policy,run,classes,digest,src,workspace⟩ := fs
      have scopes := connectorScope_text_injective.list_map (strings_injective scopes)
      have kind := actionKind_text_injective kind
      have classes := strings_injective classes
      cases first
      cases b
      rw [Binding.forgetRequest,Binding.forgetRequest]
      dsimp only at kind template scopes policy run classes digest src workspace ⊢
      rw [kind,template,scopes,policy,run,classes,digest,src,workspace]

end Bindings

section Hashes

def canonicalText (value : Json) (canonical : CanonicalJson.Canonical value) : Text :=
  match written : CanonicalJson.canonicalise value with
  | .ok text => text
  | .error _ => by
    rw [CanonicalJson.canonicalise,CanonicalJson.encode_canonical value canonical] at written
    cases written

theorem canonicalText_eq (v : Json) (canonical : CanonicalJson.Canonical v) :
    CanonicalJson.canonicalise v = .ok (canonicalText v canonical) := by
  unfold canonicalText
  split
  next t written => exact written
  next message written =>
    rw [CanonicalJson.canonicalise,CanonicalJson.encode_canonical v canonical] at written
    cases written

def Binding.text (binding : Binding) : Text := canonicalText binding.scope binding.scope_canonical

variable (sha256Hex : Text → Text)

def supervisedCodingApprovalBindingHash (binding : Binding) : Text := sha256Hex binding.text

def hashToken (token : Text) : Text := sha256Hex token

def isHexLetter (c : Char) : Bool := c.isDigit || ('a' ≤ c && c ≤ 'f')

def isHex64 (text : Text) : Bool := decide (text.length = 64) && text.all isHexLetter

def constantTimeHexEqual (left right : Text) : Bool :=
  isHex64 left && isHex64 right && decide (left = right)

def consumedScope (bindingHash tokenHash : Text) : Json :=
  .object [("bindingHash".toList,.string bindingHash),
    ("schema".toList,.string "supervised-coding-consumed-approval-v1".toList),
    ("tokenHash".toList,.string tokenHash)]

theorem consumedScope_canonical (bindingHash tokenHash : Text) :
    CanonicalJson.Canonical (consumedScope bindingHash tokenHash) := by
  have ordered : ["bindingHash".toList,"schema".toList,"tokenHash".toList].Pairwise fun left right =>
      CanonicalJson.compareStrings left right ≤ 0 := by decide
  exact ⟨ordered,trivial,trivial,trivial,trivial⟩

def approvalDigest (binding : Binding) (tokenHash : Text) : Text :=
  let bindingHash := supervisedCodingApprovalBindingHash sha256Hex binding
  sha256Hex (canonicalText _ (consumedScope_canonical bindingHash tokenHash))

end Hashes

section Store

structure Claim where
  approvalId : Text
  approvalToken : Text
  deriving DecidableEq

/-- What is asked for, with the clock's reading where no time is given, and what was drawn. -/
structure IssueInput where
  approvedByUserId : Text
  nowMs : ℚ
  ttlMs : Option Number
  drawnId : Text
  drawnToken : Text
  deriving DecidableEq

structure ConsumeInput where
  approval : Claim
  binding : Binding
  nowMs : ℚ
  deriving DecidableEq

structure IssuedApproval where
  approval : Claim
  approvalDigest : Text
  approvedByUserId : Text
  approvedAtMs : ℚ
  expiresAtMs : Number
  deriving DecidableEq

structure ConsumedApproval where
  approvalDigest : Text
  approvedByUserId : Text
  approvedAtMs : ℚ
  expiresAtMs : Number
  grantScope : GrantScope
  deriving DecidableEq

structure StoredRecord where
  runId : Text
  bindingHash : Text
  tokenHash : Text
  approvedByUserId : Text
  approvedAtMs : ℚ
  expiresAtMs : Number
  grantScope : GrantScope
  policyVersion : Option Text
  lastActivityMs : ℚ

structure Options where
  maxRecords : Option Number
  ttlMs : Option Number
  inactivityMs : Option Number

def defaultTtlMs : Number := .ofNat (5 * 60 * 1000)

def defaultInactivityMs : Number := .ofNat (2 * 60 * 1000)

def defaultMaxRecords : Number := .ofNat 512

def Options.limit (options : Options) : Number := options.maxRecords.getD defaultMaxRecords

def Options.lifetime (options : Options) : Number := options.ttlMs.getD defaultTtlMs

def Options.idleWindow (options : Options) : Number := options.inactivityMs.getD defaultInactivityMs

abbrev Records := OrderedMap Text StoredRecord

inductive Event where
  | issue (binding : BindingBase) (input : IssueInput)
  | issueTaskGrant (binding : TaskBinding) (input : IssueInput)
  | consume (input : ConsumeInput)
  | invalidateRun (runId : Text)
  | invalidateStaleByPolicyVersion (currentPolicyVersion : Text)

inductive Note where
  | issued (binding : Binding) (approval : IssuedApproval)
  | consumed (input : ConsumeInput) (answer : ConsumedApproval)
  | runInvalidated (runId : Text)
  | policyInvalidated (currentPolicyVersion : Text)

def boundedLifetime (requestedMs : Option Number) (ceilingMs : Number) : Number :=
  match requestedMs with
  | none => Number.max 1 ceilingMs
  | some requestedMs =>
    if !requestedMs.isFinite then 1
    else Number.min (Number.max 1 requestedMs) (Number.max 1 ceilingMs)

def dropOldest (maxRecords : Number) : List (Text × StoredRecord) → List (Text × StoredRecord)
  | [] => []
  | oldest :: entries =>
    if maxRecords.Less (.ofNat (oldest :: entries).length) then dropOldest maxRecords entries
    else oldest :: entries

theorem dropOldest_suffix (maxRecords : Number) (es : List (Text × StoredRecord)) :
    dropOldest maxRecords es <:+ es := by
  induction es with
  | nil => exact suffix_refl []
  | cons oldest es ih =>
    rw [dropOldest]
    split
    · exact ih.trans (suffix_cons oldest es)
    · exact suffix_refl _

def pruneExpired (nowMs : ℚ) (maxRecords : Number) (records : Records) : Records :=
  let records := records.filter fun _ record => !decide (record.expiresAtMs.LessEq (.finite nowMs))
  ⟨dropOldest maxRecords records.entries,
    records.distinct.sublist ((dropOldest_suffix maxRecords records.entries).sublist.map Prod.fst)⟩

variable (sha256Hex : Text → Text) (options : Options)

def persistApproval (binding : Binding) (input : IssueInput) : Effect Records Note := fun records =>
  let records := pruneExpired input.nowMs options.limit records
  let approvalId := "sca_".toList ++ input.drawnId
  let tokenHash := hashToken sha256Hex input.drawnToken
  let expiresAtMs := (Number.finite input.nowMs).add (boundedLifetime input.ttlMs options.lifetime)
  (records.set approvalId
    { runId := binding.base.runId
      bindingHash := supervisedCodingApprovalBindingHash sha256Hex binding
      tokenHash
      approvedByUserId := input.approvedByUserId
      approvedAtMs := input.nowMs
      expiresAtMs
      grantScope := binding.grantScope
      policyVersion := binding.policyVersion
      lastActivityMs := input.nowMs },
    [.issued binding
      ⟨⟨approvalId,input.drawnToken⟩,approvalDigest sha256Hex binding tokenHash,
        input.approvedByUserId,input.nowMs,expiresAtMs⟩])

def approvalRecordMatches (record : StoredRecord) (input : ConsumeInput) : Bool :=
  decide (Number.Less (.finite input.nowMs) record.expiresAtMs) &&
    decide (record.grantScope = input.binding.grantScope) &&
    decide (record.bindingHash = supervisedCodingApprovalBindingHash sha256Hex input.binding) &&
    constantTimeHexEqual record.tokenHash (hashToken sha256Hex input.approval.approvalToken)

def isIdle (record : StoredRecord) (nowMs : ℚ) : Bool :=
  decide (record.grantScope = .task) && decide (options.idleWindow.Less (.finite (nowMs - record.lastActivityMs)))

def isUngrantable (record : StoredRecord) (input : ConsumeInput) : Bool :=
  decide (record.grantScope = .task) && !isSupervisedActionTaskGrantable input.binding.base.actionKind

def consumeApprovalRecord (input : ConsumeInput) : Effect Records Note := fun records =>
  let records := pruneExpired input.nowMs options.limit records
  match records.get? input.approval.approvalId with
  | none => (records,[])
  | some record =>
    if !approvalRecordMatches sha256Hex record input then (records,[])
    else if isIdle options record input.nowMs then (records.delete input.approval.approvalId,[])
    else if isUngrantable record input then (records.delete input.approval.approvalId,[])
    else (if record.grantScope ≠ .task then records.delete input.approval.approvalId
        else records.set input.approval.approvalId { record with lastActivityMs := input.nowMs },
        [.consumed input ⟨approvalDigest sha256Hex input.binding record.tokenHash,record.approvedByUserId,
            record.approvedAtMs,record.expiresAtMs,record.grantScope⟩])

def invalidateRun (runId : Text) : Effect Records Note := fun records =>
  (records.filter fun _ record => record.runId != runId,[.runInvalidated runId])

def invalidatePolicy (currentPolicyVersion : Text) : Effect Records Note := fun records =>
  (records.filter fun _ record =>
    !(decide (record.grantScope = .task) && record.policyVersion != some currentPolicyVersion),
    [.policyInvalidated currentPolicyVersion])

def effect : Event → Effect Records Note
  | .issue binding input => persistApproval sha256Hex options (.once binding) input
  | .issueTaskGrant binding input =>
    if isSupervisedActionTaskGrantable binding.actionKind then persistApproval sha256Hex options (.task binding) input
    else Effect.skip
  | .consume input => consumeApprovalRecord sha256Hex options input
  | .invalidateRun runId => invalidateRun runId
  | .invalidateStaleByPolicyVersion version => invalidatePolicy version

def store : Machine Records Event Note where
  start := .empty
  step records event := (effect sha256Hex options event records).1
  notes records event := (effect sha256Hex options event records).2

end Store

end Keiko.SupervisedApproval
