import Keiko.Library.JsonText

/-! The public events of a run of the coding runtime: their closed vocabularies, what the
validator of the contract demands of an event, and the event as the JSON text that is counted. A
list of errors of the source is only ever asked whether it is empty, so a validator is a test. -/
namespace Keiko.Runtime
open Keiko.Library

section Vocabulary

inductive CodingWorkbenchRuntimeStateName where
  | idle
  | starting
  | ready
  | running
  | paused
  | awaitingApproval
  | stopping
  | succeeded
  | failed
  | cancelled
  | takenOver
  | recoveryRequired
  deriving DecidableEq, Repr

def CodingWorkbenchRuntimeStateName.text : CodingWorkbenchRuntimeStateName → String
  | .idle => "idle"
  | .starting => "starting"
  | .ready => "ready"
  | .running => "running"
  | .paused => "paused"
  | .awaitingApproval => "awaiting-approval"
  | .stopping => "stopping"
  | .succeeded => "succeeded"
  | .failed => "failed"
  | .cancelled => "cancelled"
  | .takenOver => "taken-over"
  | .recoveryRequired => "recovery-required"

inductive CodingWorkbenchRuntimeFailureCode where
  | runtimeUnavailable
  | activeRunConflict
  | invalidIntent
  | approvalActivationFailed
  | authorityResolutionFailed
  | authorityExpired
  | authorityReplayed
  | taskDrift
  | workspaceDrift
  | projectDrift
  | branchDrift
  | scopeDrift
  | budgetDrift
  | authorityBudgetExceeded
  | sourceDrift
  | runtimeFailed
  | revoked
  | recoveryRequired
  | replayCapExhausted
  | issueContextUnavailable
  | questionAnswerRejected
  | deliveryNotEvidenced
  | verificationNotEvidenced
  | modelUnavailable
  | workspaceUnqualified
  | promptAllowanceExhausted
  | envelopeDurationExhausted
  | outputExhaustedRepeated
  | providerUnavailable
  | modelTurnFailed
  | editsBlocked
  | editRetriesExhausted
  deriving DecidableEq, Repr

def CodingWorkbenchRuntimeFailureCode.text : CodingWorkbenchRuntimeFailureCode → String
  | .runtimeUnavailable => "runtime-unavailable"
  | .activeRunConflict => "active-run-conflict"
  | .invalidIntent => "invalid-intent"
  | .approvalActivationFailed => "approval-activation-failed"
  | .authorityResolutionFailed => "authority-resolution-failed"
  | .authorityExpired => "authority-expired"
  | .authorityReplayed => "authority-replayed"
  | .taskDrift => "task-drift"
  | .workspaceDrift => "workspace-drift"
  | .projectDrift => "project-drift"
  | .branchDrift => "branch-drift"
  | .scopeDrift => "scope-drift"
  | .budgetDrift => "budget-drift"
  | .authorityBudgetExceeded => "authority-budget-exceeded"
  | .sourceDrift => "source-drift"
  | .runtimeFailed => "runtime-failed"
  | .revoked => "revoked"
  | .recoveryRequired => "recovery-required"
  | .replayCapExhausted => "replay-cap-exhausted"
  | .issueContextUnavailable => "issue-context-unavailable"
  | .questionAnswerRejected => "question-answer-rejected"
  | .deliveryNotEvidenced => "delivery-not-evidenced"
  | .verificationNotEvidenced => "verification-not-evidenced"
  | .modelUnavailable => "model-unavailable"
  | .workspaceUnqualified => "workspace-unqualified"
  | .promptAllowanceExhausted => "prompt-allowance-exhausted"
  | .envelopeDurationExhausted => "envelope-duration-exhausted"
  | .outputExhaustedRepeated => "output-exhausted-repeated"
  | .providerUnavailable => "provider-unavailable"
  | .modelTurnFailed => "model-turn-failed"
  | .editsBlocked => "edits-blocked"
  | .editRetriesExhausted => "edit-retries-exhausted"

inductive CodingWorkbenchTurnFailureCode where
  | providerFailed
  | streamIncomplete
  | turnRejected
  | outputExhausted
  | emptyAnswer
  | invalidToolCall
  deriving DecidableEq, Repr

def CodingWorkbenchTurnFailureCode.text : CodingWorkbenchTurnFailureCode → String
  | .providerFailed => "provider-failed"
  | .streamIncomplete => "stream-incomplete"
  | .turnRejected => "turn-rejected"
  | .outputExhausted => "output-exhausted"
  | .emptyAnswer => "empty-answer"
  | .invalidToolCall => "invalid-tool-call"

inductive CodingWorkbenchRuntimeEventKind where
  | runtimeStarted
  | runtimeStopped
  | runtimeHealth
  | taskSubmitted
  | observationStreamed
  | nativeRetryChanged
  | permissionRequested
  | diffSummarized
  | verificationSummarized
  | artifactProduced
  | researchPerformed
  | skillInvoked
  | childRunStarted
  | childRunCompleted
  | operatorDecision
  | failureRedacted
  deriving DecidableEq, Repr

def CodingWorkbenchRuntimeEventKind.text : CodingWorkbenchRuntimeEventKind → String
  | .runtimeStarted => "runtime-started"
  | .runtimeStopped => "runtime-stopped"
  | .runtimeHealth => "runtime-health"
  | .taskSubmitted => "task-submitted"
  | .observationStreamed => "observation-streamed"
  | .nativeRetryChanged => "native-retry-changed"
  | .permissionRequested => "permission-requested"
  | .diffSummarized => "diff-summarized"
  | .verificationSummarized => "verification-summarized"
  | .artifactProduced => "artifact-produced"
  | .researchPerformed => "research-performed"
  | .skillInvoked => "skill-invoked"
  | .childRunStarted => "child-run-started"
  | .childRunCompleted => "child-run-completed"
  | .operatorDecision => "operator-decision"
  | .failureRedacted => "failure-redacted"

inductive CodingWorkbenchGatewayEventKind where
  | modelGatewayRetrying
  | modelGatewayRecovered
  | modelGatewayRetryStopped
  deriving DecidableEq, Repr

def CodingWorkbenchGatewayEventKind.text : CodingWorkbenchGatewayEventKind → String
  | .modelGatewayRetrying => "model-gateway-retrying"
  | .modelGatewayRecovered => "model-gateway-recovered"
  | .modelGatewayRetryStopped => "model-gateway-retry-stopped"

inductive CodingWorkbenchAuxiliaryStatus where
  | accepted
  | denied
  | unavailable
  | limitReached
  | stopped
  deriving DecidableEq, Repr

def CodingWorkbenchAuxiliaryStatus.text : CodingWorkbenchAuxiliaryStatus → String
  | .accepted => "accepted"
  | .denied => "denied"
  | .unavailable => "unavailable"
  | .limitReached => "limit-reached"
  | .stopped => "stopped"

inductive VerificationKind where
  | test
  | targetedTest
  | typecheck
  | lint
  | build
  deriving DecidableEq, Repr

def VerificationKind.text : VerificationKind → String
  | .test => "test"
  | .targetedTest => "targeted-test"
  | .typecheck => "typecheck"
  | .lint => "lint"
  | .build => "build"

inductive VerificationOutcome where
  | passed
  | failed
  | partly
  deriving DecidableEq, Repr

def VerificationOutcome.text : VerificationOutcome → String
  | .passed => "passed"
  | .failed => "failed"
  | .partly => "partial"

end Vocabulary

section Events

/-- The code of a failure of the run, or of one of its turns. -/
inductive FailureCode where
  | run (code : CodingWorkbenchRuntimeFailureCode)
  | turn (code : CodingWorkbenchTurnFailureCode)
  deriving DecidableEq, Repr

def FailureCode.text : FailureCode → String
  | .run code => code.text
  | .turn code => code.text

inductive SseEventKind where
  | adapter (kind : CodingWorkbenchRuntimeEventKind)
  | gateway (kind : CodingWorkbenchGatewayEventKind)
  deriving DecidableEq, Repr

def SseEventKind.text : SseEventKind → String
  | .adapter kind => kind.text
  | .gateway kind => kind.text

inductive CodingWorkbenchContentTrust where
  | untrusted
  deriving DecidableEq, Repr

structure CodingWorkbenchVerificationSummary where
  verifierId : VerificationKind
  status : VerificationOutcome
  passedCount : Number
  failedCount : Number
  skippedCount : Number
  durationMs : Number
  deriving DecidableEq

structure CodingWorkbenchNativeRetry where
  attempt : Number
  scheduledAt : Text
  deriving DecidableEq

/-- What an event of kind `runtime-event` has beside the fields of a status. A native retry is
absent, cleared or given. -/
structure RuntimeEventFacts where
  eventKind : SseEventKind
  auxiliaryOutcome : Option CodingWorkbenchAuxiliaryStatus
  nativeRetry : Option (Option CodingWorkbenchNativeRetry)
  verificationSummary : Option CodingWorkbenchVerificationSummary
  contentTrust : Option CodingWorkbenchContentTrust
  deriving DecidableEq

structure CodingRuntimeEventHubInput where
  runId : Text
  state : CodingWorkbenchRuntimeStateName
  revision : Number
  failureCode : Option FailureCode
  facts : Option RuntimeEventFacts
  deriving DecidableEq

structure CodingWorkbenchRuntimeSseEvent extends CodingRuntimeEventHubInput where
  cursor : Text
  sequence : Nat
  occurredAt : Text
  deriving DecidableEq

end Events

section Validation

def maxSafeInteger : Nat := 2 ^ 53 - 1

/-- A whole number of at least `least` that is exact in the language. -/
def isSafeIntegerFrom (least : Nat) : Number → Bool
  | .finite value => value.den == 1 && decide ((least : ℤ) ≤ value.num) &&
      decide (value.num ≤ maxSafeInteger)
  | _ => false

def isFiniteNonNegative : Number → Bool
  | .finite value => decide (0 ≤ value)
  | _ => false

def isAlphanumeric (c : Char) : Bool :=
  Text.isDigit c || ('A' ≤ c && c ≤ 'Z') || ('a' ≤ c && c ≤ 'z')

/-- `/^[A-Za-z0-9][A-Za-z0-9._:-]{0,127}$/u`. -/
def isSafeIdentifier : Text → Bool
  | [] => false
  | first :: rest =>
    isAlphanumeric first && decide (rest.length ≤ 127) &&
      rest.all fun c => isAlphanumeric c || ['.','_',':','-'].contains c

def apiIdMaxChars : Nat := 128

def validateSafeId (id : Text) : Bool :=
  decide (Text.utf16Length id ≤ apiIdMaxChars) && isSafeIdentifier id

def daysInMonth (year month : Nat) : Nat :=
  if month = 2 then if year % 4 = 0 ∧ (year % 100 ≠ 0 ∨ year % 400 = 0) then 29 else 28
  else if month ∈ [4,6,9,11] then 30 else 31

def readFields : List (Nat × Text) → Text → Option (List Nat × Text)
  | [], text => some ([],text)
  | (width,separator) :: fields, text =>
    let digits := text.take width
    let rest := text.drop width
    if digits.length = width ∧ digits.all Text.isDigit ∧ separator.isPrefixOf rest then
      (readFields fields (rest.drop separator.length)).map fun read =>
        (Text.decimal digits :: read.1,read.2)
    else none

/-- `YYYY-MM-DDTHH:MM:SS`, of a moment that the calendar has, and what follows it. -/
def readInstant (text : Text) : Option Text :=
  match readFields [(4,['-']),(2,['-']),(2,['T']),(2,[':']),(2,[':']),(2,[])] text with
  | some ([year,month,day,hour,minute,second],rest) =>
    if 1 ≤ month ∧ month ≤ 12 ∧ 1 ≤ day ∧ day ≤ daysInMonth year month ∧ hour ≤ 23 ∧
        minute ≤ 59 ∧ second ≤ 59 then some rest
    else none
  | _ => none

def isMilliseconds (text : Text) : Bool :=
  match text with
  | ['.',first,second,third,'Z'] => [first,second,third].all Text.isDigit
  | _ => false

def isStrictUtcInstant (text : Text) : Bool :=
  match readInstant text with
  | some rest => rest == ['Z'] || isMilliseconds rest
  | none => false

def isCodingWorkbenchNativeRetry (retry : CodingWorkbenchNativeRetry) : Bool :=
  isSafeIntegerFrom 1 retry.attempt && ((readInstant retry.scheduledAt).any isMilliseconds)

def isCodingWorkbenchVerificationSummary (summary : CodingWorkbenchVerificationSummary) : Bool :=
  [summary.passedCount,summary.failedCount,summary.skippedCount].all (isSafeIntegerFrom 0) &&
    isFiniteNonNegative summary.durationMs

def validateSseNativeRetry (facts : Option RuntimeEventFacts) : Bool :=
  match facts with
  | none => true
  | some facts =>
    if facts.eventKind = .adapter .nativeRetryChanged then match facts.nativeRetry with
      | none => false
      | some none => true
      | some (some retry) => isCodingWorkbenchNativeRetry retry
    else facts.nativeRetry.isNone

def validateSseVerificationSummary (facts : Option RuntimeEventFacts) : Bool :=
  match facts with
  | none => true
  | some facts =>
    match facts.verificationSummary with
    | none => true
    | some summary => facts.eventKind == .adapter .verificationSummarized &&
        isCodingWorkbenchVerificationSummary summary

variable (event : CodingWorkbenchRuntimeSseEvent)

def validateSseEventKind : Bool :=
  match event.facts with
  | none => true
  | some facts =>
    match facts.eventKind with
    | .gateway _ => event.failureCode.isNone && facts.auxiliaryOutcome.isNone &&
        facts.contentTrust.isNone
    | .adapter _ => true

def validateSseContentTrust (facts : Option RuntimeEventFacts) : Bool :=
  match facts with
  | none => true
  | some facts =>
    if facts.eventKind = .adapter .researchPerformed ∧ facts.auxiliaryOutcome = some .accepted then
      facts.contentTrust.isSome
    else facts.contentTrust.isNone

def validateSseFailureCode : Bool :=
  match event.failureCode with
  | none => true
  | some (.run _) => true
  | some (.turn _) =>
    event.facts.any fun facts => facts.eventKind == .adapter .failureRedacted

def validateCodingWorkbenchRuntimeSseEvent : Bool :=
  validateSafeId event.cursor && decide (event.sequence ≤ maxSafeInteger) &&
    isStrictUtcInstant event.occurredAt && validateSafeId event.runId &&
    isSafeIntegerFrom 0 event.revision && validateSseEventKind event &&
    validateSseContentTrust event.facts && validateSseFailureCode event &&
    validateSseVerificationSummary event.facts && validateSseNativeRetry event.facts

end Validation

section Json

def textField (name : String) (text : Text) : Text × Json := (name.toList,.string text)

def optionalField {α : Type} (name : String) (value : Option α) (write : α → Json) : List (Text × Json) :=
  (value.map fun value => (name.toList,write value)).toList

def CodingWorkbenchVerificationSummary.toJson (summary : CodingWorkbenchVerificationSummary) :
    Json :=
  .object [textField "verifierId" summary.verifierId.text.toList,
    textField "status" summary.status.text.toList,
    ("passedCount".toList,.number summary.passedCount),
    ("failedCount".toList,.number summary.failedCount),
    ("skippedCount".toList,.number summary.skippedCount),
    ("durationMs".toList,.number summary.durationMs)]

def CodingWorkbenchNativeRetry.toJson (retry : CodingWorkbenchNativeRetry) : Json :=
  .object [("attempt".toList,.number retry.attempt),textField "scheduledAt" retry.scheduledAt]

def RuntimeEventFacts.fields (facts : RuntimeEventFacts) : List (Text × Json) :=
  textField "eventKind" facts.eventKind.text.toList ::
    (optionalField "auxiliaryOutcome" facts.auxiliaryOutcome fun outcome =>
        .string outcome.text.toList) ++
    (optionalField "contentTrust" facts.contentTrust fun _ => .string "untrusted".toList) ++
    optionalField "verificationSummary" facts.verificationSummary
      CodingWorkbenchVerificationSummary.toJson ++
    optionalField "nativeRetry" facts.nativeRetry fun retry =>
      (retry.map CodingWorkbenchNativeRetry.toJson).getD .null

/-- The fields of an event; their order is that of the input, and no length depends on it. -/
def CodingWorkbenchRuntimeSseEvent.toJson (event : CodingWorkbenchRuntimeSseEvent) : Json :=
  .object ([textField "schemaVersion" ['1'],
      textField "kind" (if event.facts.isSome then "runtime-event" else "status").toList,
      textField "runId" event.runId,textField "state" event.state.text.toList,
      ("revision".toList,.number event.revision)] ++
    (optionalField "failureCode" event.failureCode fun code => .string code.text.toList) ++
    (event.facts.map RuntimeEventFacts.fields).getD [] ++
    [textField "cursor" event.cursor,("sequence".toList,.number (.ofNat event.sequence)),
      textField "occurredAt" event.occurredAt])

/-- `Buffer.byteLength(JSON.stringify(event), "utf8")`. -/
def CodingWorkbenchRuntimeSseEvent.bytes (event : CodingWorkbenchRuntimeSseEvent) : Nat :=
  Text.byteLength (Json.stringify event.toJson)

end Json

end Keiko.Runtime
