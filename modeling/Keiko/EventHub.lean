import Keiko.Library.Machine
import Keiko.RuntimeEvent
import Mathlib.Data.List.DropRight
import Mathlib.Logic.Function.Basic

/-! The event hub: for each run a bounded buffer of its last events, which is replayed behind a
cursor and fanned out to the subscribers that are attached. A hub is driven by calls; what a write
to a subscriber answers is part of the call that makes it, and every subscribe brings a subscriber
of its own. -/
namespace Keiko.EventHub
open Keiko.Library Keiko.Runtime

section State

def positiveInteger (value : Option Number) (fallback : Nat) : Nat :=
  match value with
  | some (.finite value) =>
    if isSafeIntegerFrom 1 (.finite value) then value.num.toNat else fallback
  | _ => fallback

structure EventHubOptions where
  maxEvents : Option Number
  maxBytes : Option Number
  maxSubscribers : Option Number
  deriving DecidableEq

structure EventHubLimits where
  maxEvents : Nat
  maxBytes : Nat
  maxSubscribers : Nat
  deriving DecidableEq, Repr

def EventHubOptions.limits (options : EventHubOptions) : EventHubLimits where
  maxEvents := positiveInteger options.maxEvents 256
  maxBytes := positiveInteger options.maxBytes (1024 * 1024)
  maxSubscribers := positiveInteger options.maxSubscribers 32

structure RetainedEvent where
  event : CodingWorkbenchRuntimeSseEvent
  bytes : Nat
  critical : Bool
  deriving DecidableEq

structure RunBuffer where
  nextSequence : Nat
  bytes : ℤ
  terminal : Bool
  events : List RetainedEvent
  subscribers : List Nat
  deriving DecidableEq

def newRun : RunBuffer := ⟨0,0,false,[],[]⟩

structure Hub where
  runs : Text → Option RunBuffer
  subscribed : Nat

def Hub.empty : Hub := ⟨fun _ => none,0⟩

def Hub.buffer (hub : Hub) (runId : Text) : RunBuffer := (hub.runs runId).getD newRun

def Hub.set (hub : Hub) (runId : Text) (run : RunBuffer) : Hub :=
  { hub with runs := Function.update hub.runs runId (some run) }

end State

section Kinds

variable (event : CodingWorkbenchRuntimeSseEvent)

def terminalStates : List CodingWorkbenchRuntimeStateName := [.succeeded,.failed,.cancelled,.takenOver]

def hasKind (kind : CodingWorkbenchRuntimeEventKind) : Bool :=
  event.facts.any fun facts => facts.eventKind == .adapter kind

def isTerminal : Bool := terminalStates.contains event.state || hasKind event .runtimeStopped

def isTurnFailure : Bool := hasKind event .failureRedacted

def isContainment : Bool := isTerminal event || event.state == .recoveryRequired

def isCritical : Bool :=
  isTerminal event || event.state == .awaitingApproval || event.state == .recoveryRequired ||
    event.failureCode == some (.run .revoked) || hasKind event .permissionRequested ||
    hasKind event .failureRedacted

end Kinds

section Publish

def validNativeRetryInput (input : CodingRuntimeEventHubInput) : Bool :=
  match input.facts.bind RuntimeEventFacts.nativeRetry with
  | some (some retry) => isCodingWorkbenchNativeRetry retry
  | _ => true

def cursorText (runId : Text) (sequence : Nat) : Text := runId ++ ':' :: Text.numberText sequence

def sseEvent (input : CodingRuntimeEventHubInput) (sequence : Nat) (occurredAt : Text) :
    CodingWorkbenchRuntimeSseEvent :=
  { input with cursor := cursorText input.runId sequence, sequence, occurredAt }

def retain (event : CodingWorkbenchRuntimeSseEvent) : RetainedEvent :=
  ⟨event,event.bytes,isCritical event⟩

@[simp] theorem retain_event (event : CodingWorkbenchRuntimeSseEvent) : (retain event).event = event := rfl

def RunBuffer.remove (run : RunBuffer) (removed : RetainedEvent) (left : List RetainedEvent) :
    RunBuffer :=
  { run with bytes := run.bytes - removed.bytes, events := left }

def removeLossy (run : RunBuffer) : RunBuffer :=
  { run with
    bytes := run.bytes - ((run.events.filter fun retained => !retained.critical).map RetainedEvent.bytes).sum
    events := run.events.filter RetainedEvent.critical }

def demotePriorTurnFailures (run : RunBuffer) : RunBuffer :=
  { run with events := run.events.map fun retained =>
      if isTurnFailure retained.event then { retained with critical := false } else retained }

def firstLossy : List RetainedEvent → Option (RetainedEvent × List RetainedEvent)
  | [] => none
  | retained :: events =>
    if retained.critical then (firstLossy events).map fun found => (found.1,retained :: found.2)
    else some (retained,events)

variable (limits : EventHubLimits)

def overfull (run : RunBuffer) (incoming : RetainedEvent) : Bool :=
  decide (limits.maxEvents ≤ run.events.length) || decide (limits.maxBytes < run.bytes + incoming.bytes)

/-- The loop that evicts lossy events until the incoming one fits, which takes at most one round
for each event and one more. -/
def evictLossy (limits : EventHubLimits) (incoming : RetainedEvent) : Nat → RunBuffer → Bool × RunBuffer
  | 0, run => (false,run)
  | rounds + 1, run =>
    if overfull limits run incoming then match firstLossy run.events with
      | none => (false,run)
      | some (removed,left) => evictLossy limits incoming rounds (run.remove removed left)
    else (true,run)

def criticalEvents (run : RunBuffer) : List RetainedEvent := run.events.filter RetainedEvent.critical

def totalBytes (events : List RetainedEvent) : Nat := (events.map RetainedEvent.bytes).sum

/-- A critical event that contains nothing leaves a slot, and as many bytes as its own. -/
def reserveExceeded (run : RunBuffer) (incoming : RetainedEvent) : Bool :=
  incoming.critical && !isContainment incoming.event && (decide (limits.maxEvents - 1 ≤ (criticalEvents run).length) ||
      decide (limits.maxBytes < totalBytes (criticalEvents run) + incoming.bytes * 2))

def makeCapacity (run : RunBuffer) (incoming : RetainedEvent) : Bool × RunBuffer :=
  if limits.maxBytes < incoming.bytes then (false,run)
  else if reserveExceeded limits run incoming then (false,run)
  else evictLossy limits incoming (run.events.length + 1) run

inductive PublishRefusal where
  | invalidEvent
  | sequenceExhausted
  | capacityPressure
  | terminalRun
  deriving DecidableEq, Repr

abbrev PublishResult := Except PublishRefusal CodingWorkbenchRuntimeSseEvent

def prepared (run : RunBuffer) (event : CodingWorkbenchRuntimeSseEvent) : RunBuffer :=
  let run := if isContainment event then removeLossy run else run
  if isTurnFailure event then demotePriorTurnFailures run else run

def accept (run : RunBuffer) (incoming : RetainedEvent) : RunBuffer :=
  { run with
    nextSequence := run.nextSequence + 1
    events := run.events ++ [incoming]
    bytes := run.bytes + incoming.bytes
    terminal := isTerminal incoming.event }

def publishTo (run : RunBuffer) (input : CodingRuntimeEventHubInput)
    (occurredAt : Text) : RunBuffer × PublishResult :=
  if maxSafeInteger ≤ run.nextSequence then (run,.error .sequenceExhausted)
  else
    let event := sseEvent input run.nextSequence occurredAt
    if !validateCodingWorkbenchRuntimeSseEvent event then (run,.error .invalidEvent)
    else match makeCapacity limits (prepared run event) (retain event) with
      | (false,run) => (run,.error .capacityPressure)
      | (true,run) => (accept run (retain event),.ok event)

end Publish

section Replay

inductive ResetReason where
  | cursorMalformed
  | cursorForeign
  | cursorFuture
  | cursorEvicted
  | subscriberCapacity
  deriving DecidableEq, Repr

abbrev Replay := Except ResetReason (List CodingWorkbenchRuntimeSseEvent)

/-- `/^(?:0|[1-9]\d*)$/u`. -/
def isCanonicalNumber : Text → Bool
  | [] => false
  | ['0'] => true
  | first :: rest => first != '0' && (first :: rest).all Text.isDigit

def parseCursor (value : Text) : Option (Text × Nat) :=
  if value = [] ∨ 128 < Text.utf16Length value then none
  else
    -- The last delimiter splits the value.
    let sequenceText := value.rtakeWhile (· != ':')
    let runId := (value.rdropWhile (· != ':')).dropLast
    if runId = [] ∨ isSafeIdentifier runId = false ∨ isCanonicalNumber sequenceText = false then none
    else if Text.decimal sequenceText ≤ maxSafeInteger then some (runId,Text.decimal sequenceText)
    else none

def validateReplayCursor (runId : Text) (run : Option RunBuffer) (lastEventId : Text) :
    Except ResetReason (Nat × RunBuffer) :=
  match parseCursor lastEventId with
  | none => .error .cursorMalformed
  | some (cursorRun,sequence) =>
    if cursorRun ≠ runId then .error .cursorForeign
    else match run with
      | none => .error .cursorFuture
      | some run =>
        if run.nextSequence ≤ sequence then .error .cursorFuture else .ok (sequence,run)

def RunBuffer.history (run : RunBuffer) : List CodingWorkbenchRuntimeSseEvent :=
  run.events.map RetainedEvent.event

def replay (hub : Hub) (runId lastEventId : Text) : Replay :=
  if lastEventId = [] then .ok (((hub.runs runId).map RunBuffer.history).getD [])
  else do
    let (sequence,run) ← validateReplayCursor runId (hub.runs runId) lastEventId
    if run.events.head?.any fun earliest => sequence < earliest.event.sequence then throw .cursorEvicted
    return run.history.filter fun event => decide (sequence < event.sequence)

end Replay

section Calls

inductive Note where
  | accepted (event : CodingWorkbenchRuntimeSseEvent)
  | written (subscriber : Nat) (event : CodingWorkbenchRuntimeSseEvent)
  | attached (subscriber : Nat) (runId : Text)
  | left (subscriber : Nat)
  | deleted (runId : Text)
  deriving DecidableEq

def fanOut (takes : Nat → Bool) (event : CodingWorkbenchRuntimeSseEvent) (subscribers : List Nat) :
    List Nat × List Note :=
  (subscribers.filter takes,subscribers.flatMap fun subscriber =>
    .written subscriber event :: if takes subscriber then [] else [.left subscriber])

structure Publish where
  input : CodingRuntimeEventHubInput
  occurredAt : Text
  takes : Nat → Bool

def closeSubscribers (run : RunBuffer) : RunBuffer × List Note :=
  ({ run with subscribers := [] },run.subscribers.map .left)

variable (limits : EventHubLimits)

def publishRun (run : RunBuffer) (call : Publish) : RunBuffer × PublishResult × List Note :=
  match publishTo limits run call.input call.occurredAt with
  | (run,.error refusal) => (run,.error refusal,[])
  | (run,.ok event) =>
    let (subscribers,notes) := fanOut call.takes event run.subscribers
    let run := { run with subscribers }
    if run.terminal then
      let (run,closed) := closeSubscribers run
      (run,.ok event,.accepted event :: notes ++ closed)
    else (run,.ok event,.accepted event :: notes)

def publish (hub : Hub) (call : Publish) : Hub × PublishResult × List Note :=
  if !validNativeRetryInput call.input then (hub,.error .invalidEvent,[])
  else
    let (run,result,notes) := publishRun limits (hub.buffer call.input.runId) call
    (hub.set call.input.runId run,result,notes)

/-- `publishTurnFailure` and `publishModelGatewayFact`: a publish that a settled run refuses. -/
def publishUnlessTerminal (hub : Hub) (call : Publish) : Hub × PublishResult × List Note :=
  if (hub.runs call.input.runId).any RunBuffer.terminal then (hub,.error .terminalRun,[])
  else publish limits hub call

def turnFailureInput (runId : Text) (state : CodingWorkbenchRuntimeStateName) (revision : Number)
    (failureCode : CodingWorkbenchTurnFailureCode) : CodingRuntimeEventHubInput :=
  ⟨runId,state,revision,some (.turn failureCode),some ⟨.adapter .failureRedacted,none,none,none,none⟩⟩

def modelGatewayFactInput (runId : Text) (state : CodingWorkbenchRuntimeStateName) (revision : Number)
    (eventKind : CodingWorkbenchGatewayEventKind) : CodingRuntimeEventHubInput :=
  ⟨runId,state,revision,none,some ⟨.gateway eventKind,none,none,none,none⟩⟩

def writeReplay (subscriber : Nat) (takes : CodingWorkbenchRuntimeSseEvent → Bool) :
    List CodingWorkbenchRuntimeSseEvent → Bool × List Note
  | [] => (true,[])
  | event :: events =>
    if takes event then
      let (all,notes) := writeReplay subscriber takes events
      (all,.written subscriber event :: notes)
    else (false,[.written subscriber event,.left subscriber])

structure Subscribe where
  runId : Text
  lastEventId : Text
  takes : CodingWorkbenchRuntimeSseEvent → Bool

def subscribe (hub : Hub) (call : Subscribe) : Hub × Except ResetReason Unit × List Note :=
  let subscriber := hub.subscribed
  let hub := { hub with subscribed := hub.subscribed + 1 }
  match replay hub call.runId call.lastEventId with
  | .error reason => (hub,.error reason,[])
  | .ok events =>
    let run := hub.buffer call.runId
    let hub := hub.set call.runId run
    if limits.maxSubscribers ≤ run.subscribers.length then (hub,.error .subscriberCapacity,[])
    else match writeReplay subscriber call.takes events with
      | (false,notes) => (hub,.ok (),notes)
      | (true,notes) =>
        if run.terminal then (hub,.ok (),notes ++ [.left subscriber])
        else (hub.set call.runId { run with subscribers := run.subscribers ++ [subscriber] },.ok (),
          notes ++ [.attached subscriber call.runId])

/-- `detach` of an attached subscriber, which does nothing when it has left. -/
def detach (hub : Hub) (runId : Text) (subscriber : Nat) : Hub × List Note :=
  match hub.runs runId with
  | none => (hub,[])
  | some run =>
    if subscriber ∈ run.subscribers then
      (hub.set runId { run with subscribers := run.subscribers.erase subscriber },[.left subscriber])
    else (hub,[])

/-- One round of the loop of `deleteRuns`. -/
def deleteRun (hub : Hub) (runId : Text) : Hub × List Note :=
  match hub.runs runId with
  | none => (hub,[])
  | some run =>
    ({ hub with runs := Function.update hub.runs runId none },(closeSubscribers run).2 ++ [.deleted runId])

inductive Call where
  | publish (call : Publish)
  | publishUnlessTerminal (call : Publish)
  | subscribe (call : Subscribe)
  | detach (runId : Text) (subscriber : Nat)
  | deleteRun (runId : Text)

def apply (hub : Hub) : Call → Hub × List Note
  | .publish call => ((publish limits hub call).1,(publish limits hub call).2.2)
  | .publishUnlessTerminal call =>
    ((publishUnlessTerminal limits hub call).1,(publishUnlessTerminal limits hub call).2.2)
  | .subscribe call => ((subscribe limits hub call).1,(subscribe limits hub call).2.2)
  | .detach runId subscriber => detach hub runId subscriber
  | .deleteRun runId => deleteRun hub runId

def machine : Machine Hub Call Note where
  start := Hub.empty
  step hub call := (apply limits hub call).1
  notes hub call := (apply limits hub call).2

end Calls

end Keiko.EventHub
