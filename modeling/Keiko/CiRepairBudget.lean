import Keiko.Library.Machine
import Keiko.Library.OrderedMap
import Keiko.RuntimeEvent

/-! The budget of CI repairs: one record for each task and pull request, which counts what every
attempt was charged. A call reads the record with its scope, works out what to answer or to write,
and writes only over the revision that it read. Other calls may come between the two. What the
outside answers (the authority, the snapshots, the clock, the number of records) is part of the call. -/
namespace Keiko.CiRepairBudget
open Keiko.Library Keiko.Runtime

section Types

structure CiRepairLimits (α : Type) where
  maxRuntimeMs : α
  maxToolCalls : α
  maxPromptTokens : α
  deriving DecidableEq

inductive CiRepairAttemptKind where
  | workspaceEdit
  | verification
  | commit
  deriving DecidableEq, Repr

def CiRepairAttemptKind.text : CiRepairAttemptKind → String
  | .workspaceEdit => "workspace-edit"
  | .verification => "verification"
  | .commit => "commit"

inductive CiRepairAttemptStatus where
  | active
  | succeeded
  | failed
  | interrupted
  deriving DecidableEq, Repr

def CiRepairAttemptStatus.text : CiRepairAttemptStatus → String
  | .active => "active"
  | .succeeded => "succeeded"
  | .failed => "failed"
  | .interrupted => "interrupted"

structure CiRepairCharge (α : Type) where
  chargeId : Text
  toolCalls : α
  promptTokens : α
  deriving DecidableEq

structure CiRepairAttempt where
  attemptId : Text
  runId : Text
  failureSignatureDigest : Text
  headSha : Text
  baseSha : Text
  kind : CiRepairAttemptKind
  status : CiRepairAttemptStatus
  startedAtMs : ℕ
  finishedAtMs : Option ℕ
  toolCalls : ℕ
  promptTokens : ℕ
  charges : List (CiRepairCharge ℕ)
  deriving DecidableEq

structure CiRepairBudgetRecord where
  revision : ℕ
  taskDigest : Text
  remoteDigest : Text
  issueBindingDigest : Text
  prNumber : ℕ
  startedAtMs : ℕ
  updatedAtMs : ℕ
  deadlineMs : ℕ
  limits : CiRepairLimits ℕ
  toolCalls : ℕ
  promptTokens : ℕ
  failedAttempts : ℕ
  attempts : List CiRepairAttempt
  deriving DecidableEq

def ciRepairMaxAttempts : ℕ := 32

def ciRepairMaxCharges : ℕ := 256

def ciRepairMaxRecordBytes : ℕ := 65536

def ciRepairWriteReserveBytes : ℕ := 2048

def ciRepairMaxFailedAttempts : ℕ := 3

def ciRepairMaxRecords : ℕ := 10000

inductive CiRepairBudgetBlockReason where
  | authorityDenied
  | invalidBinding
  | invalidInput
  | staleRevision
  | clockDrift
  | deadlineExhausted
  | toolBudgetExhausted
  | promptBudgetExhausted
  | attemptBudgetExhausted
  | storageCapacity
  | attemptActive
  | attemptReplayed
  | attemptMissing
  | recoveryRequired
  | storageUnavailable
  deriving DecidableEq, Repr

inductive CiRepairBudgetResult where
  | available (record : Option CiRepairBudgetRecord)
  | recorded (record : CiRepairBudgetRecord)
  | replayed (record : CiRepairBudgetRecord)
  | blocked (reason : CiRepairBudgetBlockReason) (record : Option CiRepairBudgetRecord)
  deriving DecidableEq

structure CiRepairBegin where
  attemptId : Text
  failureSignatureDigest : Text
  headSha : Text
  baseSha : Text
  kind : CiRepairAttemptKind
  expectedRevision : Option Number
  deriving DecidableEq

structure CiRepairChargeInput extends CiRepairCharge Number where
  attemptId : Text
  expectedRevision : Number
  deriving DecidableEq

inductive SettleOutcome where
  | succeeded
  | failed
  deriving DecidableEq, Repr

def SettleOutcome.status : SettleOutcome → CiRepairAttemptStatus
  | .succeeded => .succeeded
  | .failed => .failed

structure CiRepairSettle where
  attemptId : Text
  outcome : SettleOutcome
  expectedRevision : Number
  deriving DecidableEq

end Types

section Validation

def ciRepairCount (value : Number) : Bool := isSafeIntegerFrom 0 value

def countOf : Number → ℕ
  | .finite value => value.num.toNat
  | _ => 0

def isHex (c : Char) : Bool := Text.isDigit c || ('a' ≤ c && c ≤ 'f')

def ciRepairId (value : Text) : Bool := isSafeIdentifier value

/-- `/^[a-f0-9]{64}$/u`. -/
def ciRepairDigest (value : Text) : Bool := value.length == 64 && value.all isHex

/-- `/^(?:[a-f0-9]{40}|[a-f0-9]{64})$/u`. -/
def isGitObjectId (value : Text) : Bool :=
  (value.length == 40 || value.length == 64) && value.all isHex

def safeCount (count : ℕ) : Bool := decide (count ≤ maxSafeInteger)

def validCiRepairLimits (limits : CiRepairLimits ℕ) : Bool :=
  [limits.maxRuntimeMs,limits.maxToolCalls,limits.maxPromptTokens].all fun limit =>
    safeCount limit && decide (0 < limit)

def validCharge (charge : CiRepairCharge ℕ) : Bool :=
  ciRepairId charge.chargeId && safeCount charge.toolCalls && safeCount charge.promptTokens

def validCharges (charges : List (CiRepairCharge ℕ)) : Bool :=
  decide (charges.length ≤ ciRepairMaxCharges) && charges.all validCharge && decide (charges.map (·.chargeId)).Nodup

def attemptIdentity (attempt : CiRepairAttempt) : Bool :=
  ciRepairId attempt.attemptId && ciRepairId attempt.runId &&
    ciRepairDigest attempt.failureSignatureDigest && isGitObjectId attempt.headSha &&
    isGitObjectId attempt.baseSha

def attemptUsage (attempt : CiRepairAttempt) : Bool :=
  safeCount attempt.startedAtMs && safeCount attempt.toolCalls && safeCount attempt.promptTokens &&
    if attempt.status = .active then attempt.finishedAtMs.isNone &&
        decide (attempt.toolCalls = (attempt.charges.map (·.toolCalls)).sum) &&
        decide (attempt.promptTokens = (attempt.charges.map (·.promptTokens)).sum)
    else attempt.charges.isEmpty && attempt.finishedAtMs.any fun finishedAtMs =>
        safeCount finishedAtMs && decide (attempt.startedAtMs ≤ finishedAtMs)

def validAttempt (attempt : CiRepairAttempt) : Bool :=
  attemptIdentity attempt && validCharges attempt.charges && attemptUsage attempt

variable (record : CiRepairBudgetRecord)

def recordShape : Bool :=
  ciRepairDigest record.taskDigest && ciRepairDigest record.remoteDigest && ciRepairDigest record.issueBindingDigest

def recordCounts : Bool :=
  [record.revision,record.prNumber,record.startedAtMs,record.updatedAtMs,record.deadlineMs,
      record.toolCalls,record.promptTokens,record.failedAttempts].all safeCount &&
    decide (0 < record.prNumber) && decide (record.prNumber ≤ 1000000000) &&
    decide (record.startedAtMs ≤ record.updatedAtMs) &&
    decide (record.deadlineMs = record.startedAtMs + record.limits.maxRuntimeMs)

def isActive (attempt : CiRepairAttempt) : Bool := decide (attempt.status = .active)

def hasFailed (attempt : CiRepairAttempt) : Bool :=
  decide (attempt.status = .failed) || decide (attempt.status = .interrupted)

def attemptTotals : Bool :=
  let active := record.attempts.filter isActive
  decide (active.length ≤ 1) && (active.isEmpty || decide (active.head? = record.attempts.getLast?)) &&
    decide (record.attempts.map (·.attemptId)).Nodup &&
    decide (record.toolCalls = (record.attempts.map (·.toolCalls)).sum) &&
    decide (record.promptTokens = (record.attempts.map (·.promptTokens)).sum) &&
    decide (record.failedAttempts = record.attempts.countP hasFailed) &&
    record.attempts.all fun attempt => decide (record.startedAtMs ≤ attempt.startedAtMs) &&
      decide (attempt.finishedAtMs.getD attempt.startedAtMs ≤ record.updatedAtMs)

def isCiRepairBudgetRecord : Bool :=
  recordShape record && validCiRepairLimits record.limits && decide (1 ≤ record.attempts.length) &&
    decide (record.attempts.length ≤ ciRepairMaxAttempts) && record.attempts.all validAttempt &&
    recordCounts record && attemptTotals record

end Validation

section Json

def commaText (texts : List Text) : Text := List.intercalate [','] texts

def arrayText (items : List Text) : Text := '[' :: (commaText items ++ [']'])

def objectText (members : List (Text × Text)) : Text :=
  '\x7b' :: (commaText (members.map fun member => Json.quote member.1 ++ ':' :: member.2) ++ ['\x7d'])

def countText (count : ℕ) : Text := Text.numberText count

def CiRepairCharge.json (charge : CiRepairCharge ℕ) : Text :=
  objectText [("chargeId".toList,Json.quote charge.chargeId),
    ("toolCalls".toList,countText charge.toolCalls),
    ("promptTokens".toList,countText charge.promptTokens)]

def CiRepairLimits.json (limits : CiRepairLimits ℕ) : Text :=
  objectText [("maxRuntimeMs".toList,countText limits.maxRuntimeMs),
    ("maxToolCalls".toList,countText limits.maxToolCalls),
    ("maxPromptTokens".toList,countText limits.maxPromptTokens)]

def CiRepairAttempt.json (attempt : CiRepairAttempt) : Text :=
  objectText [("attemptId".toList,Json.quote attempt.attemptId),
    ("runId".toList,Json.quote attempt.runId),
    ("failureSignatureDigest".toList,Json.quote attempt.failureSignatureDigest),
    ("headSha".toList,Json.quote attempt.headSha),
    ("baseSha".toList,Json.quote attempt.baseSha),
    ("kind".toList,Json.quote attempt.kind.text.toList),
    ("status".toList,Json.quote attempt.status.text.toList),
    ("startedAtMs".toList,countText attempt.startedAtMs),
    ("finishedAtMs".toList,(attempt.finishedAtMs.map countText).getD ['n','u','l','l']),
    ("toolCalls".toList,countText attempt.toolCalls),
    ("promptTokens".toList,countText attempt.promptTokens),
    ("charges".toList,arrayText (attempt.charges.map CiRepairCharge.json))]

/-- `JSON.stringify(record)`, of counts that are written digit by digit. -/
def CiRepairBudgetRecord.json (record : CiRepairBudgetRecord) : Text :=
  objectText [("schemaVersion".toList,Json.quote ['1']),
    ("revision".toList,countText record.revision),
    ("taskDigest".toList,Json.quote record.taskDigest),
    ("remoteDigest".toList,Json.quote record.remoteDigest),
    ("issueBindingDigest".toList,Json.quote record.issueBindingDigest),
    ("prNumber".toList,countText record.prNumber),
    ("startedAtMs".toList,countText record.startedAtMs),
    ("updatedAtMs".toList,countText record.updatedAtMs),
    ("deadlineMs".toList,countText record.deadlineMs),
    ("limits".toList,record.limits.json),
    ("toolCalls".toList,countText record.toolCalls),
    ("promptTokens".toList,countText record.promptTokens),
    ("failedAttempts".toList,countText record.failedAttempts),
    ("attempts".toList,arrayText (record.attempts.map CiRepairAttempt.json))]

def CiRepairBudgetRecord.bytes (record : CiRepairBudgetRecord) : ℕ := record.json.byteLength

end Json

section Policy

variable (record : CiRepairBudgetRecord)

def tightenedCiRepairBudget (accepted : CiRepairLimits ℕ) :
    CiRepairBudgetRecord :=
  let limits : CiRepairLimits ℕ :=
    ⟨min record.limits.maxRuntimeMs accepted.maxRuntimeMs,min record.limits.maxToolCalls accepted.maxToolCalls,
      min record.limits.maxPromptTokens accepted.maxPromptTokens⟩
  { record with limits, deadlineMs := record.startedAtMs + limits.maxRuntimeMs }

def receiptExhaustion : Option CiRepairBudgetBlockReason :=
  match record.attempts.find? isActive with
  | none => if ciRepairMaxAttempts ≤ record.attempts.length then some .storageCapacity else none
  | some active => if ciRepairMaxCharges ≤ active.charges.length then some .storageCapacity else none

def ciRepairExhaustion (now : ℕ) : Option CiRepairBudgetBlockReason :=
  if now < record.updatedAtMs then some .clockDrift
  else if record.deadlineMs ≤ now then some .deadlineExhausted
  else if ciRepairMaxFailedAttempts ≤ record.failedAttempts then some .attemptBudgetExhausted
  else if record.limits.maxToolCalls ≤ record.toolCalls then some .toolBudgetExhausted
  else if record.limits.maxPromptTokens ≤ record.promptTokens then some .promptBudgetExhausted
  else if ciRepairMaxRecordBytes - ciRepairWriteReserveBytes < record.bytes then some .storageCapacity
  else receiptExhaustion record

def newCiRepairAttempt (runId : Text) (input : CiRepairBegin) (now : ℕ) : CiRepairAttempt where
  attemptId := input.attemptId
  runId := runId
  failureSignatureDigest := input.failureSignatureDigest
  headSha := input.headSha
  baseSha := input.baseSha
  kind := input.kind
  status := .active
  startedAtMs := now
  finishedAtMs := none
  toolCalls := 0
  promptTokens := 0
  charges := []

def CiRepairChargeInput.counts (input : CiRepairChargeInput) : CiRepairCharge ℕ :=
  ⟨input.chargeId,countOf input.toolCalls,countOf input.promptTokens⟩

def chargeAttempt (charge : CiRepairCharge ℕ) (attempt : CiRepairAttempt) : CiRepairAttempt :=
  { attempt with
    toolCalls := attempt.toolCalls + charge.toolCalls
    promptTokens := attempt.promptTokens + charge.promptTokens
    charges := attempt.charges ++ [charge] }

def chargeCiRepairAttempt (attemptId : Text)
    (charge : CiRepairCharge ℕ) (now : ℕ) : CiRepairBudgetRecord :=
  { record with
    revision := record.revision + 1
    updatedAtMs := now
    attempts := record.attempts.map fun attempt =>
      if attempt.attemptId ≠ attemptId then attempt else chargeAttempt charge attempt
    toolCalls := record.toolCalls + charge.toolCalls
    promptTokens := record.promptTokens + charge.promptTokens }

def settleAttempt (status : CiRepairAttemptStatus) (now : ℕ) (attempt : CiRepairAttempt) :
    CiRepairAttempt :=
  { attempt with status, finishedAtMs := some now, charges := [] }

def settleCiRepairAttempt (attemptId : Text)
    (status : CiRepairAttemptStatus) (now : ℕ) : CiRepairBudgetRecord :=
  { record with
    revision := record.revision + 1
    updatedAtMs := now
    failedAttempts := record.failedAttempts + (if status ≠ .succeeded then 1 else 0)
    attempts := record.attempts.map fun attempt =>
      if attempt.attemptId ≠ attemptId then attempt else settleAttempt status now attempt }

end Policy

section Scopes

structure RowKey where
  taskDigest : Text
  remoteDigest : Text
  prNumber : Number
  deriving DecidableEq

structure Row where
  revision : ℕ
  record : CiRepairBudgetRecord
  deriving DecidableEq

structure CiRepairBudgetContext where
  runId : Text
  limits : CiRepairLimits Number
  stillAuthorized : Bool
  deriving DecidableEq

structure IssueBinding where
  remoteDigest : Text
  bindingDigest : Text
  deriving DecidableEq

structure CodingRuntimeSnapshot where
  state : CodingWorkbenchRuntimeStateName
  terminal : Bool
  issueBinding : Option IssueBinding
  ciReadinessBaseSha : Option Text
  deriving DecidableEq

structure PullRequest where
  number : Number
  isOpen : Bool
  deriving DecidableEq

structure DraftDeliveryRecord where
  remoteDigest : Text
  issueBindingDigest : Text
  headSha : Text
  baseSha : Text
  pullRequest : Option PullRequest
  deriving DecidableEq

inductive Operation where
  | read
  | accept (expectedRevision : Option Number)
  | begin (input : CiRepairBegin)
  | charge (input : CiRepairChargeInput)
  | settle (input : CiRepairSettle)
  deriving DecidableEq

structure Call where
  context : CiRepairBudgetContext
  snapshot : Option CodingRuntimeSnapshot
  draft : Option DraftDeliveryRecord
  now : Number
  records : ℕ
  operation : Operation
  deriving DecidableEq

structure Scope where
  call : Call
  snapshot : CodingRuntimeSnapshot
  draft : DraftDeliveryRecord
  limits : CiRepairLimits ℕ
  now : ℕ
  current : Option CiRepairBudgetRecord

variable (key : RowKey)

def CiRepairLimits.counts (limits : CiRepairLimits Number) : CiRepairLimits ℕ :=
  ⟨countOf limits.maxRuntimeMs,countOf limits.maxToolCalls,countOf limits.maxPromptTokens⟩

def validContext (context : CiRepairBudgetContext) : Bool :=
  ciRepairId context.runId && ciRepairDigest key.remoteDigest && ciRepairCount key.prNumber &&
    decide (1 ≤ countOf key.prNumber) && decide (countOf key.prNumber ≤ 1000000000) &&
    [context.limits.maxRuntimeMs,context.limits.maxToolCalls,context.limits.maxPromptTokens].all
      ciRepairCount && validCiRepairLimits context.limits.counts

def isLive : CodingWorkbenchRuntimeStateName → Bool
  | .starting | .ready | .running | .awaitingApproval => true
  | _ => false

def liveDraft (snapshot : CodingRuntimeSnapshot) (draft : DraftDeliveryRecord) : Bool :=
  !snapshot.terminal && isLive snapshot.state &&
    decide (snapshot.issueBinding.map (·.remoteDigest) = some key.remoteDigest) &&
    decide (draft.remoteDigest = key.remoteDigest) &&
    decide (some draft.issueBindingDigest = snapshot.issueBinding.map (·.bindingDigest)) &&
    draft.pullRequest.any fun pullRequest =>
      decide (pullRequest.number = key.prNumber) && pullRequest.isOpen

/-- The record of the row, which is refused where it is not what was written under the key. -/
def load (snapshot : CodingRuntimeSnapshot) : Option Row → Option (Option CiRepairBudgetRecord)
  | none => some none
  | some row =>
    if row.record.bytes ≤ ciRepairMaxRecordBytes ∧ isCiRepairBudgetRecord row.record = true ∧
        row.record.taskDigest = key.taskDigest ∧ row.record.remoteDigest = key.remoteDigest ∧
        row.record.prNumber = countOf key.prNumber ∧ row.record.revision = row.revision ∧
        some row.record.issueBindingDigest = snapshot.issueBinding.map (·.bindingDigest) then
      some (some row.record)
    else none

def blocked (reason : CiRepairBudgetBlockReason) (record : Option CiRepairBudgetRecord) :
    CiRepairBudgetResult := .blocked reason record

def scope (call : Call) (row : Option Row) : Except CiRepairBudgetResult Scope :=
  if !call.context.stillAuthorized then .error (blocked .authorityDenied none)
  else if !validContext key call.context then .error (blocked .invalidBinding none)
  else match call.snapshot, call.draft with
    | some snapshot, some draft =>
      if !liveDraft key snapshot draft then .error (blocked .invalidBinding none)
      else
        let now := countOf call.now
        let limits := call.context.limits.counts
        if !(ciRepairCount call.now && safeCount (now + limits.maxRuntimeMs)) then .error (blocked .invalidInput none)
        else match load key snapshot row with
          | none => .error (blocked .storageUnavailable none)
          | some current =>
            if current.any fun record => decide (now < record.updatedAtMs) then .error (blocked .clockDrift current)
            else .ok ⟨call,snapshot,draft,limits,now,current⟩
    | _, _ => .error (blocked .invalidBinding none)

end Scopes

section Operations

variable (key : RowKey)

/-- What a call comes to: an answer, or a record that is to be written, with the reason to answer with
when it is. -/
inductive Work where
  | answered (result : CiRepairBudgetResult)
  | persists (record : CiRepairBudgetRecord) (reason : Option CiRepairBudgetBlockReason)

def expected (current : Option CiRepairBudgetRecord) : Option Number → Bool
  | none => current.isNone
  | some revision =>
    ciRepairCount revision && current.any fun record => decide (record.revision = countOf revision)

variable (scope : Scope)

def readScope : CiRepairBudgetResult :=
  match scope.current with
  | none => .available none
  | some current =>
    let effective := tightenedCiRepairBudget current scope.limits
    match ciRepairExhaustion effective scope.now with
    | none => .available (some effective)
    | some reason => blocked reason (some effective)

def acceptScope (revision : Option Number) : Work :=
  if !expected scope.current revision then .answered (blocked .staleRevision scope.current)
  else match scope.current with
    | none => .answered (.available none)
    | some current =>
      let effective := tightenedCiRepairBudget current scope.limits
      match (effective.attempts.find? isActive).filter
          (·.runId != scope.call.context.runId) with
      | some active =>
        .persists (settleCiRepairAttempt effective active.attemptId .interrupted scope.now) (some .recoveryRequired)
      | none =>
        if current.limits = effective.limits then match ciRepairExhaustion effective scope.now with
          | none => .answered (.replayed current)
          | some reason => .answered (blocked reason (some current))
        else .persists { effective with revision := current.revision + 1, updatedAtMs := scope.now } none

def validBegin (input : CiRepairBegin) : Bool :=
  ciRepairId input.attemptId && input.expectedRevision.all ciRepairCount &&
    ciRepairDigest input.failureSignatureDigest && isGitObjectId input.headSha &&
    isGitObjectId input.baseSha

def beginRefusal (input : CiRepairBegin) : Option CiRepairBudgetBlockReason :=
  if !validBegin input then some .invalidInput
  else
    let observedBase := scope.snapshot.ciReadinessBaseSha.getD scope.draft.baseSha
    if input.headSha ≠ scope.draft.headSha ∨ input.baseSha ≠ observedBase then some .invalidBinding
    else none

def replayedBegin (input : CiRepairBegin) (current : CiRepairBudgetRecord)
    (prior : CiRepairAttempt) : CiRepairBudgetResult :=
  if prior.status = .active ∧ prior.runId = scope.call.context.runId ∧
      prior.headSha = input.headSha ∧ prior.baseSha = input.baseSha ∧
      prior.failureSignatureDigest = input.failureSignatureDigest ∧ prior.kind = input.kind then
    let record := tightenedCiRepairBudget current scope.limits
    match ciRepairExhaustion record scope.now with
    | none => .replayed record
    | some reason => blocked reason (some record)
  else blocked .attemptReplayed (some current)

def firstAttempt (input : CiRepairBegin) : Work :=
  if ciRepairMaxRecords ≤ scope.call.records then .answered (blocked .storageCapacity none)
  else
    .persists
      { revision := 0
        taskDigest := key.taskDigest
        remoteDigest := key.remoteDigest
        issueBindingDigest := (scope.snapshot.issueBinding.map (·.bindingDigest)).getD []
        prNumber := countOf key.prNumber
        startedAtMs := scope.now
        updatedAtMs := scope.now
        deadlineMs := scope.now + scope.limits.maxRuntimeMs
        limits := scope.limits
        toolCalls := 0
        promptTokens := 0
        failedAttempts := 0
        attempts := [newCiRepairAttempt scope.call.context.runId input scope.now] } none

def persistTightening (current record : CiRepairBudgetRecord) (now : ℕ) (reason : CiRepairBudgetBlockReason) : Work :=
  if current.limits = record.limits then .answered (blocked reason (some record))
  else .persists { record with revision := record.revision + 1, updatedAtMs := now } (some reason)

def nextAttempt (input : CiRepairBegin) (current : CiRepairBudgetRecord) : Work :=
  let record := tightenedCiRepairBudget current scope.limits
  match record.attempts.find? isActive with
  | some active =>
    if active.runId = scope.call.context.runId then .answered (blocked .attemptActive (some record))
    else acceptScope scope input.expectedRevision
  | none =>
    match ciRepairExhaustion record scope.now with
    | some reason => persistTightening current record scope.now reason
    | none =>
      .persists { record with
          revision := record.revision + 1
          updatedAtMs := scope.now
          attempts := record.attempts ++ [newCiRepairAttempt scope.call.context.runId input scope.now] } none

def beginScope (input : CiRepairBegin) : Work :=
  match beginRefusal scope input with
  | some refusal => .answered (blocked refusal scope.current)
  | none =>
    match scope.current with
    | none =>
      if !expected none input.expectedRevision then .answered (blocked .staleRevision none)
      else firstAttempt key scope input
    | some current =>
      match current.attempts.find? fun attempt => attempt.attemptId == input.attemptId with
      | some prior => .answered (replayedBegin scope input current prior)
      | none =>
        if !expected (some current) input.expectedRevision then
          .answered (blocked .staleRevision (some current))
        else nextAttempt scope input current

def validChargeInput (input : CiRepairChargeInput) : Bool :=
  ciRepairId input.attemptId && ciRepairId input.chargeId && ciRepairCount input.expectedRevision &&
    ciRepairCount input.toolCalls && ciRepairCount input.promptTokens &&
    decide (0 < input.counts.toolCalls + input.counts.promptTokens)

def priorChargeResult (record : CiRepairBudgetRecord) (input : CiRepairChargeInput) : Option CiRepairBudgetResult :=
  match (record.attempts.find? fun attempt => attempt.attemptId == input.attemptId).bind
      fun attempt => attempt.charges.find? fun charge => charge.chargeId == input.chargeId with
  | none => none
  | some prior =>
    some (if prior.toolCalls = input.counts.toolCalls ∧
        prior.promptTokens = input.counts.promptTokens then .replayed record
      else blocked .invalidInput (some record))

def chargeScope (input : CiRepairChargeInput) : Work :=
  if !validChargeInput input then .answered (blocked .invalidInput scope.current)
  else match scope.current with
    | none => .answered (blocked .attemptMissing none)
    | some record =>
      match record.attempts.find? fun attempt =>
          attempt.attemptId == input.attemptId && isActive attempt with
      | none => .answered (blocked .attemptMissing (some record))
      | some active =>
        if active.runId ≠ scope.call.context.runId then .answered (blocked .recoveryRequired (some record))
        else match priorChargeResult record input with
          | some result => .answered result
          | none =>
            if !expected (some record) (some input.expectedRevision) then
              .answered (blocked .staleRevision (some record))
            else if ciRepairMaxCharges ≤ active.charges.length then .answered (blocked .storageCapacity (some record))
            else .persists (chargeCiRepairAttempt (tightenedCiRepairBudget record scope.limits)
                input.attemptId input.counts scope.now) none

def validSettle (input : CiRepairSettle) : Bool :=
  ciRepairId input.attemptId && ciRepairCount input.expectedRevision

def settleScope (input : CiRepairSettle) : Work :=
  if !validSettle input then .answered (blocked .invalidInput scope.current)
  else match scope.current with
    | none => .answered (blocked .attemptMissing none)
    | some current =>
      match current.attempts.find? fun attempt => attempt.attemptId == input.attemptId with
      | none => .answered (blocked .attemptMissing (some current))
      | some attempt =>
        if attempt.runId ≠ scope.call.context.runId then .answered (blocked .recoveryRequired (some current))
        else if attempt.status ≠ .active then .answered (if attempt.status = input.outcome.status then .replayed current
            else blocked .attemptReplayed (some current))
        else if !expected (some current) (some input.expectedRevision) then
          .answered (blocked .staleRevision (some current))
        else .persists (settleCiRepairAttempt (tightenedCiRepairBudget current scope.limits)
            input.attemptId input.outcome.status scope.now) none

def work : Work :=
  match scope.call.operation with
  | .read => .answered (readScope scope)
  | .accept revision => acceptScope scope revision
  | .begin input => beginScope key scope input
  | .charge input => chargeScope scope input
  | .settle input => settleScope scope input

end Operations

section Writes

variable (key : RowKey)

structure Proposal where
  current : Option CiRepairBudgetRecord
  record : CiRepairBudgetRecord
  reason : Option CiRepairBudgetBlockReason
  now : ℕ
  deriving DecidableEq

inductive Prepared where
  | answered (result : CiRepairBudgetResult)
  | persists (proposal : Proposal)

def prepare (call : Call) (row : Option Row) : Prepared :=
  match scope key call row with
  | .error result => .answered result
  | .ok scope =>
    match work key scope with
    | .answered result => .answered result
    | .persists record reason => .persists ⟨scope.current,record,reason,scope.now⟩

def unchanged : Option CiRepairBudgetRecord → Option Row → Bool
  | none, none => true
  | some current, some row => decide (row.revision = current.revision)
  | _, _ => false

def persistRefusal (authorized : Bool) (proposal : Proposal) (row : Option Row) : Option CiRepairBudgetBlockReason :=
  if !authorized then some .authorityDenied
  else if !isCiRepairBudgetRecord proposal.record then some .storageCapacity
  else if ciRepairMaxRecordBytes < proposal.record.bytes then some .storageCapacity
  else if !unchanged proposal.current row then some .staleRevision
  else none

def persistResult (proposal : Proposal) : CiRepairBudgetResult :=
  match proposal.reason.or (ciRepairExhaustion proposal.record proposal.now) with
  | none => .recorded proposal.record
  | some reason => blocked reason (some proposal.record)

def persist (authorized : Bool) (proposal : Proposal) (row : Option Row) : Option Row × CiRepairBudgetResult :=
  match persistRefusal authorized proposal row with
  | some reason => (row,blocked reason proposal.current)
  | none => (some ⟨proposal.record.revision,proposal.record⟩,persistResult proposal)

end Writes

section Runs

variable (key : RowKey)

structure Pending where
  call : Call
  proposal : Proposal
  deriving DecidableEq

structure State where
  row : Option Row
  pending : OrderedMap ℕ Pending

inductive Event where
  | call (id : ℕ) (call : Call)
  | write (id : ℕ) (authorized : Bool)
  deriving DecidableEq

inductive Note where
  | answered (call : Call) (result : CiRepairBudgetResult)
  | charged (attemptId : Text) (charge : CiRepairCharge ℕ)
  deriving DecidableEq

def step (state : State) : Event → State
  | .call id call =>
    match prepare key call state.row with
    | .answered _ => state
    | .persists proposal => { state with pending := state.pending.set id ⟨call,proposal⟩ }
  | .write id authorized =>
    match state.pending.get? id with
    | none => state
    | some pending =>
      ⟨(persist authorized pending.proposal state.row).1,state.pending.delete id⟩

def chargeNotes (pending : Pending) : List Note :=
  match pending.call.operation with
  | .charge input => [.charged input.attemptId input.counts]
  | _ => []

def notes (state : State) : Event → List Note
  | .call _ call =>
    match prepare key call state.row with
    | .answered result => [.answered call result]
    | .persists _ => []
  | .write id authorized =>
    match state.pending.get? id with
    | none => []
    | some pending =>
      .answered pending.call (persist authorized pending.proposal state.row).2 ::
        (if (persistRefusal authorized pending.proposal state.row).isNone then chargeNotes pending else [])

def machine : Machine State Event Note where
  start := ⟨none,.empty⟩
  step := step key
  notes := notes key

end Runs

end Keiko.CiRepairBudget
