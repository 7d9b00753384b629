import Keiko.Library.JsonText
import Keiko.Library.NestedMap
import Keiko.Library.Trace

/-! The registry of the live editor sessions: their snapshots, their bridges, and for each session a
bounded queue of actions that wait for a result of the browser, every one with a timer of its own. A
handle of a timer also numbers the admission that it was armed for. -/
namespace Keiko.EditorAgent
open Keiko.Library

section Vocabulary

inductive ActionType where
  | openFile
  | focusTab
  | setSelection
  | moveTab
  | splitPane
  | format
  | save
  | applyTextEdits
  | applyPatch
  | applyChangeset
  | requestVerification
  | navigateSymbol
  | searchWorkspace
  | queryGit
  deriving DecidableEq, Repr

def ActionType.text : ActionType → String
  | .openFile => "openFile"
  | .focusTab => "focusTab"
  | .setSelection => "setSelection"
  | .moveTab => "moveTab"
  | .splitPane => "splitPane"
  | .format => "format"
  | .save => "save"
  | .applyTextEdits => "applyTextEdits"
  | .applyPatch => "applyPatch"
  | .applyChangeset => "applyChangeset"
  | .requestVerification => "requestVerification"
  | .navigateSymbol => "navigateSymbol"
  | .searchWorkspace => "searchWorkspace"
  | .queryGit => "queryGit"

inductive ActionEffectClass where
  | navigation
  | layout
  | workspaceRead
  | contentMutation
  | externalEffect
  | execution
  deriving DecidableEq, Repr

def ActionType.effectClass : ActionType → ActionEffectClass
  | .openFile | .focusTab | .setSelection => .navigation
  | .moveTab | .splitPane => .layout
  | .format | .save | .applyTextEdits | .applyPatch | .applyChangeset => .contentMutation
  | .requestVerification => .execution
  | .navigateSymbol | .searchWorkspace | .queryGit => .workspaceRead

def isMutatingEditorAgentAction (type : ActionType) : Bool :=
  decide (type.effectClass = .contentMutation) || decide (type.effectClass = .externalEffect)

inductive ActionStatus where
  | queued
  | succeeded
  | failed
  | conflict
  deriving DecidableEq, Repr

inductive FileActionStatus where
  | succeeded
  | failed
  | conflict
  | notSelected
  deriving DecidableEq, Repr

inductive ConflictCode where
  | dirty
  | versionMismatch
  | contentHashMismatch
  | noActiveSession
  | noActiveBridge
  | invalidEdits
  | outOfScope
  | decomposePerRoot
  | preconditionRequired
  | policyDenied
  | approvalRequired
  deriving DecidableEq, Repr

inductive FailureCode where
  | timedOut
  | queueFull
  | cancelled
  | providerUnavailable
  | unsupportedOperation
  | limitExceeded
  | duplicateAction
  | mutationInFlight
  deriving DecidableEq, Repr

end Vocabulary

section Records

structure RootBinding where
  rootRef : Text
  rootIdentityDigest : Text
  others : Json.Fields

structure AuthorityReference where
  runId : Text
  envelopeDigest : Text

structure Action where
  actionId : Text
  sessionId : Text
  type : ActionType
  rootBinding : Option RootBinding
  authorityRef : Option AuthorityReference
  others : Json.Fields

structure RootAttribution where
  rootRef : Text
  rootIdentityDigest : Text

structure ConflictDetail where
  code : ConflictCode
  message : String
  file : Option Text

structure ActionFailure where
  code : FailureCode
  message : String

structure FileActionResult where
  file : Text
  status : FileActionStatus
  message : Option String
  conflict : Option ConflictDetail

structure ActionResult where
  actionId : Text
  sessionId : Text
  rootAttribution : Option RootAttribution
  status : ActionStatus
  message : Option String
  conflict : Option ConflictDetail
  failure : Option ActionFailure
  files : Option (List FileActionResult)
  data : Option Json

structure Snapshot where
  sessionId : Text
  windowId : Text
  workspaceRoot : Text
  dirtyFiles : List Text
  updatedAt : ℚ
  others : Json.Fields

inductive Payload where
  | session (snapshot : Snapshot)
  | action (action : Action)
  | result (result : ActionResult)
  | heartbeat (updatedAt : ℚ)

structure AgentEvent where
  eventId : ℕ
  payload : Payload

def resultRootAttribution (action : Action) : Option RootAttribution :=
  action.rootBinding.map fun binding => ⟨binding.rootRef,binding.rootIdentityDigest⟩

def lifecycleFailure (action : Action) (code : FailureCode) (message : String) : ActionResult :=
  ⟨action.actionId,action.sessionId,resultRootAttribution action,.failed,some message,none,
    some ⟨code,message⟩,none,none⟩

def cancelledRuntimeResult (action : Action) : ActionResult :=
  ⟨action.actionId,action.sessionId,resultRootAttribution action,.failed,
    some "The runtime action was cancelled.",none,none,none,none⟩

def eventSessionId (event : AgentEvent) : Option Text :=
  match event.payload with
  | .session snapshot => some snapshot.sessionId
  | .action action => some action.sessionId
  | .result result => some result.sessionId
  | .heartbeat _ => none

def withheldDetail : String := "Result detail is available only on the session-scoped bridge."

def bodyFreeConflict (conflict : ConflictDetail) : ConflictDetail :=
  ⟨conflict.code,withheldDetail,conflict.file⟩

def bodyFreeFile (file : FileActionResult) : FileActionResult :=
  ⟨file.file,file.status,none,file.conflict.map bodyFreeConflict⟩

def bodyFreeResult (result : ActionResult) : ActionResult where
  actionId := result.actionId
  sessionId := result.sessionId
  rootAttribution := result.rootAttribution
  status := result.status
  message := none
  conflict := result.conflict.map bodyFreeConflict
  failure := result.failure.map fun failure => ⟨failure.code,withheldDetail⟩
  files := result.files.map fun files => files.map bodyFreeFile
  data := none

def observerEvent (event : AgentEvent) : Option AgentEvent :=
  match event.payload with
  | .result result => some { event with payload := .result (bodyFreeResult result) }
  | .heartbeat _ => some event
  | _ => none

def RootBinding.json (binding : RootBinding) : Json :=
  .object (("rootRef".toList,.string binding.rootRef) ::
    ("rootIdentityDigest".toList,.string binding.rootIdentityDigest) :: binding.others)

def AuthorityReference.json (reference : AuthorityReference) : Json :=
  .object [("runId".toList,.string reference.runId),
    ("envelopeDigest".toList,.string reference.envelopeDigest)]

def Action.json (action : Action) : Json :=
  .object (("actionId".toList,.string action.actionId) ::
    ("sessionId".toList,.string action.sessionId) ::
    ("type".toList,.string action.type.text.toList) ::
    ((action.rootBinding.map fun binding => ("rootBinding".toList,binding.json)).toList ++
      (action.authorityRef.map fun reference => ("authorityRef".toList,reference.json)).toList ++
      action.others))

def serializedActionBytes (action : Action) : ℕ := (Json.stringify action.json).byteLength

end Records

section State

structure Limits where
  actionTimeoutMs : ℕ
  reviewTimeoutMs : ℕ
  maxQueuedPerSession : ℕ
  maxQueuedBytesPerSession : ℕ
  maxQueuedBytesTotal : ℕ
  maxSessions : ℕ
  deriving DecidableEq

structure SnapshotTests where
  isEditorBufferSafetySnapshot : Snapshot → Bool
  isDeepStrictEqual : Snapshot → Snapshot → Bool

structure PendingAction where
  action : Action
  timer : ℕ
  runtimeOwned : Bool
  bytes : ℕ

structure Timer where
  action : Action
  ms : ℕ

/-- `timers` are the timers of the runtime that are armed, of as many as there have been. -/
structure Registry where
  sessions : OrderedMap Text Snapshot
  capabilityDigests : OrderedMap Text Text
  bufferSessions : OrderedMap Text Unit
  bridges : OrderedMap Text (List ℕ)
  observers : List ℕ
  pending : NestedMap Text Text PendingAction
  eventSeq : ℕ
  timers : OrderedMap ℕ Timer
  armed : ℕ

def createRegistryState : Registry := ⟨.empty,.empty,.empty,.empty,[],.empty,0,.empty,0⟩

inductive QueueRefusalReason where
  | queueCount
  | sessionBytes
  | processBytes
  deriving DecidableEq, Repr

structure QueueRefusal where
  reason : QueueRefusalReason
  actionBytes : ℕ
  sessionQueuedCount : ℕ
  sessionQueuedBytes : ℕ
  processQueuedBytes : ℕ

inductive QueueOutcome where
  | queued (result : ActionResult)
  | rejected (result : ActionResult) (queueRefusal : Option QueueRefusal)

inductive Event where
  | connect (sessionId : Option Text) (send : ℕ)
  | connectAuthenticated (sessionId capabilityDigest : Text) (send : ℕ)
  | disconnect (sessionId : Option Text) (send : ℕ)
  | registerSnapshot (snapshot : Snapshot) (capabilityDigest : Option Text)
  | refreshSnapshot (snapshot : Snapshot) (capabilityDigest : Text)
  | rotateSnapshotCapability (snapshot : Snapshot) (capabilityDigest : Text)
  | registerBufferSnapshot (snapshot : Snapshot) (capabilityDigest : Text)
  | refreshBufferSnapshot (snapshot : Snapshot) (capabilityDigest : Text)
  | releaseBufferSnapshot (sessionId capabilityDigest : Text)
  | queueAction (action emitAction : Action) (runtimeOwned : Bool)
  | takePendingAction (sessionId actionId capabilityDigest : Text)
  | timer (handle : ℕ)
  | cancelPendingByAuthorityRun (runId : Text)
  | reportResult (result : ActionResult)
  | reset

inductive Cause where
  | taken
  | timedOut
  | cancelled
  | reset
  deriving DecidableEq, Repr

inductive Receiver where
  | bridge (sessionId : Text) (send : ℕ)
  | observer (send : ℕ)
  deriving DecidableEq

inductive Note where
  | admitted (number : ℕ) (action : Action)
  | left (number : ℕ) (cause : Cause)
  | emitted (about : Option ℕ) (event : AgentEvent)
  | delivered (receiver : Receiver) (event : AgentEvent)
  | outcome (outcome : QueueOutcome)
  | claimed (action : Option Action)
  | cancelled (count : ℕ)
  | accepted (answer : Bool)

end State

section Delivery

def deliveries (registry : Registry) (event : AgentEvent) : List Note :=
  let observed := match observerEvent event with
    | none => []
    | some observable => registry.observers.map fun send => .delivered (.observer send) observable
  let bridged := match eventSessionId event with
    | none => registry.bridges.entries.flatMap fun entry =>
        entry.2.map fun send => .delivered (.bridge entry.1 send) event
    | some sessionId => ((registry.bridges.get? sessionId).getD []).map fun send =>
        .delivered (.bridge sessionId send) event
  observed ++ bridged

def emit (about : Option ℕ) (payload : Payload) : Effect Registry Note := fun registry =>
  let event : AgentEvent := ⟨registry.eventSeq + 1,payload⟩
  ({ registry with eventSeq := registry.eventSeq + 1 },.emitted about event :: deliveries registry event)

def Registry.liveBridgeCount (registry : Registry) (sessionId : Text) : ℕ :=
  ((registry.bridges.get? sessionId).getD []).length

/-- `/^[a-f0-9]{64}$/u`. -/
def isCapabilityDigest (value : Text) : Bool :=
  value.length == 64 && value.all fun c => Text.isDigit c || ('a' ≤ c && c ≤ 'f')

def digestMatches (stored : Option Text) (candidate : Text) : Bool :=
  match stored with
  | none => false
  | some stored =>
    isCapabilityDigest stored && isCapabilityDigest candidate && decide (stored = candidate)

def Registry.hasValidBridgeLease (registry : Registry) (sessionId capabilityDigest : Text) : Bool :=
  !registry.bufferSessions.has sessionId && decide (0 < registry.liveBridgeCount sessionId) &&
    digestMatches (registry.capabilityDigests.get? sessionId) capabilityDigest

def addSubscriber (send : ℕ) (subscribers : List ℕ) : List ℕ :=
  if send ∈ subscribers then subscribers else subscribers ++ [send]

def connect (sessionId : Option Text) (send : ℕ) : Effect Registry Note := fun registry =>
  match sessionId with
  | none => ({ registry with observers := addSubscriber send registry.observers },[.accepted true])
  | some sessionId =>
    if registry.bufferSessions.has sessionId then (registry,[.accepted true])
    else
      let set := (registry.bridges.get? sessionId).getD []
      ({ registry with bridges := registry.bridges.set sessionId (addSubscriber send set) },[.accepted true])

def connectAuthenticated (sessionId capabilityDigest : Text) (send : ℕ) : Effect Registry Note :=
  fun registry =>
    if registry.bufferSessions.has sessionId then (registry,[.accepted false])
    else if digestMatches (registry.capabilityDigests.get? sessionId) capabilityDigest then
      connect (some sessionId) send registry
    else (registry,[.accepted false])

/-- What the function that `connect` answers does when it is called. -/
def disconnect (sessionId : Option Text) (send : ℕ) : Effect Registry Note := fun registry =>
  match sessionId with
  | none => ({ registry with observers := registry.observers.filter (· ≠ send) },[])
  | some sessionId =>
    match registry.bridges.get? sessionId with
    | none => (registry,[])
    | some current =>
      let others := current.filter (· ≠ send)
      if others.isEmpty then ({ registry with bridges := registry.bridges.delete sessionId },[])
      else ({ registry with bridges := registry.bridges.set sessionId others },[])

end Delivery

section Queue

variable (limits : Limits)

def Registry.pendingCount (registry : Registry) (sessionId : Text) : ℕ :=
  (NestedMap.inner registry.pending sessionId).size

def Registry.sessionQueuedBytes (registry : Registry) (sessionId : Text) : ℕ :=
  NestedMap.innerTotal PendingAction.bytes registry.pending sessionId

def Registry.processQueuedBytes (registry : Registry) : ℕ :=
  NestedMap.total PendingAction.bytes registry.pending

def hasPendingMutation (inner : OrderedMap Text PendingAction) : Bool :=
  inner.values.any fun entry => isMutatingEditorAgentAction entry.action.type

def actionTimeoutMs (action : Action) : ℕ :=
  match action.type with
  | .applyPatch | .applyChangeset => limits.reviewTimeoutMs
  | _ => limits.actionTimeoutMs

def queueRejection (action : Action) (inner : OrderedMap Text PendingAction) : Option QueueOutcome :=
  if inner.has action.actionId then some (.rejected (lifecycleFailure action .duplicateAction
      "An action with this id is already in flight for this session.") none)
  else if isMutatingEditorAgentAction action.type && hasPendingMutation inner then
    some (.rejected (lifecycleFailure action .mutationInFlight
      "A mutating editor action is already awaiting a terminal result.") none)
  else none

def capacityRefusal (registry : Registry) (action : Action) (actionBytes : ℕ) : Option QueueRefusal :=
  let facts (reason : QueueRefusalReason) : QueueRefusal :=
    ⟨reason,actionBytes,registry.pendingCount action.sessionId,
      registry.sessionQueuedBytes action.sessionId,registry.processQueuedBytes⟩
  if limits.maxQueuedPerSession ≤ registry.pendingCount action.sessionId then some (facts .queueCount)
  else if limits.maxQueuedBytesPerSession < registry.sessionQueuedBytes action.sessionId + actionBytes then
    some (facts .sessionBytes)
  else if limits.maxQueuedBytesTotal < registry.processQueuedBytes + actionBytes then some (facts .processBytes)
  else none

def queueFullMessage : QueueRefusalReason → String
  | .queueCount => "The editor action queue for this session is full; " ++
      "retry once an action completes."
  | .sessionBytes => "The editor action queue for this session holds too many bytes; " ++
      "retry once an action completes."
  | .processBytes => "The editor action queues hold too many bytes across sessions; " ++
      "retry once an action completes."

def queueFullOutcome (action : Action) (queueRefusal : QueueRefusal) : QueueOutcome :=
  .rejected (lifecycleFailure action .queueFull (queueFullMessage queueRefusal.reason)) (some queueRefusal)

def queuedResult (action : Action) : ActionResult :=
  ⟨action.actionId,action.sessionId,resultRootAttribution action,.queued,none,none,none,none,none⟩

def fillSlot (action : Action) (runtimeOwned : Bool) : Effect Registry Note := fun registry =>
  let entry : PendingAction :=
    ⟨action,registry.armed,runtimeOwned,serializedActionBytes action⟩
  ({ registry with
      pending := NestedMap.insert registry.pending action.sessionId action.actionId entry
      timers := registry.timers.set registry.armed ⟨action,actionTimeoutMs limits action⟩
      armed := registry.armed + 1 },[.admitted registry.armed action])

def queueAction (action emitAction : Action) (runtimeOwned : Bool) : Effect Registry Note :=
  fun registry =>
    match queueRejection action (NestedMap.inner registry.pending action.sessionId) with
    | some rejection => (registry,[.outcome rejection])
    | none =>
      match capacityRefusal limits registry action (serializedActionBytes action) with
      | some refusal => (registry,[.outcome (queueFullOutcome action refusal)])
      | none =>
        (((fillSlot limits action runtimeOwned).andThen (emit none (.action emitAction))).andThen
          (Effect.note (.outcome (.queued (queuedResult action))))) registry

def clearTimer (handle : ℕ) : Effect Registry Note :=
  Effect.update fun registry => { registry with timers := registry.timers.delete handle }

def leave (cause : Cause) (sessionId actionId : Text) (entry : PendingAction) : Effect Registry Note := fun registry =>
  ({ registry with pending := NestedMap.remove registry.pending sessionId actionId },[.left entry.timer cause])

def release (cause : Cause) (sessionId actionId : Text) (entry : PendingAction) : Effect Registry Note :=
  (clearTimer entry.timer).andThen (leave cause sessionId actionId entry)

def takePendingAction (sessionId actionId capabilityDigest : Text) : Effect Registry Note :=
  fun registry =>
    if registry.hasValidBridgeLease sessionId capabilityDigest then
      match NestedMap.find? registry.pending sessionId actionId with
      | none => (registry,[.claimed none])
      | some entry => ((release .taken sessionId actionId entry).andThen
          (Effect.note (.claimed (some entry.action)))) registry
    else (registry,[.claimed none])

def timedOutMessage : String := "The browser bridge did not report a result before the deadline."

def onTimeout (action : Action) : Effect Registry Note := fun registry =>
  match NestedMap.find? registry.pending action.sessionId action.actionId with
  | none => (registry,[])
  | some entry =>
    ((leave .timedOut action.sessionId action.actionId entry).andThen
      (emit (some entry.timer) (.result (lifecycleFailure action .timedOut timedOutMessage))))
      registry

/-- An armed timer fires, once. -/
def timer (handle : ℕ) : Effect Registry Note := fun registry =>
  match registry.timers.get? handle with
  | none => (registry,[])
  | some armed => ((clearTimer handle).andThen (onTimeout armed.action)) registry

def isRuntimeActionForRun (entry : PendingAction) (runId : Text) : Bool :=
  entry.runtimeOwned && decide (entry.action.authorityRef.map AuthorityReference.runId = some runId)

def cancelEntry (runId : Text) (item : (Text × Text) × PendingAction) : Effect Registry Note :=
  if isRuntimeActionForRun item.2 runId then (release .cancelled item.1.1 item.1.2 item.2).andThen
      (emit (some item.2.timer) (.result (cancelledRuntimeResult item.2.action)))
  else Effect.skip

def cancelPendingByAuthorityRun (runId : Text) : Effect Registry Note := fun registry =>
  let items := NestedMap.items registry.pending
  ((Effect.forEach (cancelEntry runId) items).andThen
    (Effect.note (.cancelled (items.countP fun item => isRuntimeActionForRun item.2 runId))))
    registry

def reset : Effect Registry Note := fun registry =>
  ((Effect.forEach (fun item : (Text × Text) × PendingAction =>
      release .reset item.1.1 item.1.2 item.2) (NestedMap.items registry.pending)).andThen
    (Effect.update fun registry => { registry with
      sessions := .empty
      capabilityDigests := .empty
      bufferSessions := .empty
      bridges := .empty
      observers := []
      pending := .empty
      eventSeq := 0 })) registry

end Queue

section Snapshots

variable (limits : Limits) (tests : SnapshotTests)

def Registry.storeSnapshot (registry : Registry) (snapshot : Snapshot) : Registry :=
  { registry with sessions := registry.sessions.set snapshot.sessionId snapshot }

def Registry.storeCapability (registry : Registry) (sessionId capabilityDigest : Text) : Registry :=
  { registry with
    capabilityDigests := registry.capabilityDigests.set sessionId capabilityDigest }

def Registry.forget (registry : Registry) (sessionId : Text) : Registry :=
  { registry with
    sessions := registry.sessions.delete sessionId
    capabilityDigests := registry.capabilityDigests.delete sessionId
    bufferSessions := registry.bufferSessions.delete sessionId }

def Registry.sessionMustBeRetained (registry : Registry) (sessionId : Text) : Bool :=
  decide (0 < registry.liveBridgeCount sessionId) || decide (0 < registry.pendingCount sessionId) ||
    (registry.sessions.get? sessionId).any fun snapshot => !snapshot.dirtyFiles.isEmpty

def evictOldestIdleSession (registry : Registry) (keepSessionId : Text) : Registry :=
  match registry.sessions.keys.find? fun sessionId =>
      !(decide (sessionId = keepSessionId) || registry.sessionMustBeRetained sessionId) with
  | none => registry
  | some sessionId => registry.forget sessionId

def registerSnapshot (snapshot : Snapshot) (capabilityDigest : Option Text) : Effect Registry Note := fun registry =>
  if registry.sessions.has snapshot.sessionId || capabilityDigest.any (!isCapabilityDigest ·) then
    (registry,[.accepted false])
  else
    let stored := registry.storeSnapshot snapshot
    let seeded := match capabilityDigest with
      | none => stored
      | some digest => stored.storeCapability snapshot.sessionId digest
    let bounded := if limits.maxSessions < seeded.sessions.size then evictOldestIdleSession seeded snapshot.sessionId
      else seeded
    ((emit none (.session snapshot)).andThen (Effect.note (.accepted true))) bounded

def refreshSnapshot (snapshot : Snapshot) (capabilityDigest : Text) : Effect Registry Note :=
  fun registry =>
    if registry.bufferSessions.has snapshot.sessionId then (registry,[.accepted false])
    else if digestMatches (registry.capabilityDigests.get? snapshot.sessionId) capabilityDigest then
      ((emit none (.session snapshot)).andThen (Effect.note (.accepted true))) (registry.storeSnapshot snapshot)
    else (registry,[.accepted false])

def rotateSnapshotCapability (snapshot : Snapshot) (capabilityDigest : Text) : Effect Registry Note := fun registry =>
  if registry.bufferSessions.has snapshot.sessionId || !registry.sessions.has snapshot.sessionId ||
      !isCapabilityDigest capabilityDigest ||
      decide (0 < registry.liveBridgeCount snapshot.sessionId) ||
      decide (0 < registry.pendingCount snapshot.sessionId) then
    (registry,[.accepted false])
  else ((emit none (.session snapshot)).andThen (Effect.note (.accepted true)))
      ((registry.storeSnapshot snapshot).storeCapability snapshot.sessionId capabilityDigest)

def registerBufferSnapshot (snapshot : Snapshot) (capabilityDigest : Text) : Effect Registry Note := fun registry =>
  if !tests.isEditorBufferSafetySnapshot snapshot || registry.sessions.has snapshot.sessionId ||
      !isCapabilityDigest capabilityDigest then
    (registry,[.accepted false])
  else
    let bounded := if limits.maxSessions ≤ registry.sessions.size then
        evictOldestIdleSession registry snapshot.sessionId
      else registry
    if limits.maxSessions ≤ bounded.sessions.size then (bounded,[.accepted false])
    else
      let stored := (bounded.storeSnapshot snapshot).storeCapability snapshot.sessionId capabilityDigest
      ({ stored with bufferSessions := stored.bufferSessions.set snapshot.sessionId () },[.accepted true])

def isMonotonicBufferSnapshot (current snapshot : Snapshot) : Bool :=
  decide (current.updatedAt < snapshot.updatedAt) ||
    (decide (snapshot.updatedAt = current.updatedAt) && tests.isDeepStrictEqual current snapshot)

def refreshBufferSnapshot (snapshot : Snapshot) (capabilityDigest : Text) : Effect Registry Note := fun registry =>
  let refreshed := tests.isEditorBufferSafetySnapshot snapshot && registry.bufferSessions.has snapshot.sessionId &&
    digestMatches (registry.capabilityDigests.get? snapshot.sessionId) capabilityDigest &&
    (registry.sessions.get? snapshot.sessionId).any fun current =>
      decide (current.workspaceRoot = snapshot.workspaceRoot) && decide (current.windowId = snapshot.windowId) &&
        isMonotonicBufferSnapshot tests current snapshot
  if refreshed then (registry.storeSnapshot snapshot,[.accepted true])
  else (registry,[.accepted false])

def releaseBufferSnapshot (sessionId capabilityDigest : Text) : Effect Registry Note :=
  fun registry =>
    let released := registry.bufferSessions.has sessionId &&
      digestMatches (registry.capabilityDigests.get? sessionId) capabilityDigest &&
      (registry.sessions.get? sessionId).any fun snapshot => snapshot.dirtyFiles.isEmpty
    if released then (registry.forget sessionId,[.accepted true])
    else (registry,[.accepted false])

end Snapshots

section Machine

variable (limits : Limits) (tests : SnapshotTests)

def effect : Event → Effect Registry Note
  | .connect sessionId send => connect sessionId send
  | .connectAuthenticated sessionId digest send => connectAuthenticated sessionId digest send
  | .disconnect sessionId send => disconnect sessionId send
  | .registerSnapshot snapshot digest => registerSnapshot limits snapshot digest
  | .refreshSnapshot snapshot digest => refreshSnapshot snapshot digest
  | .rotateSnapshotCapability snapshot digest => rotateSnapshotCapability snapshot digest
  | .registerBufferSnapshot snapshot digest => registerBufferSnapshot limits tests snapshot digest
  | .refreshBufferSnapshot snapshot digest => refreshBufferSnapshot tests snapshot digest
  | .releaseBufferSnapshot sessionId digest => releaseBufferSnapshot sessionId digest
  | .queueAction action emitAction runtimeOwned =>
    queueAction limits action emitAction runtimeOwned
  | .takePendingAction sessionId actionId digest => takePendingAction sessionId actionId digest
  | .timer handle => timer handle
  | .cancelPendingByAuthorityRun runId => cancelPendingByAuthorityRun runId
  | .reportResult result => emit none (.result result)
  | .reset => reset

def machine : Machine Registry Event Note where
  start := createRegistryState
  step registry event := (effect limits tests event registry).1
  notes registry event := (effect limits tests event registry).2

end Machine

end Keiko.EditorAgent
