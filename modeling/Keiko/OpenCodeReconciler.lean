import Keiko.Library.JsonText
import Keiko.Library.OrderedMap
import Keiko.Library.Trace
import Keiko.RuntimeEvent

/-! The reconciliation of the OpenCode history. A batch is staged on a copy of the store, which
replaces the store when it is committed, unless the store has changed since. Staging bounds what is
retained: events, and with them their identities and digests, and checkpoints of aggregates. -/
namespace Keiko.OpenCode
open Keiko.Library Keiko.Runtime

section Events

inductive OpenCodeEventKind where
  | observation
  | permission
  | question
  | tool
  | terminal
  | terminalControl
  | terminalFailure
  deriving DecidableEq, Repr

def OpenCodeEventKind.text : OpenCodeEventKind → String
  | .observation => "observation"
  | .permission => "permission"
  | .question => "question"
  | .tool => "tool"
  | .terminal => "terminal"
  | .terminalControl => "terminal-control"
  | .terminalFailure => "terminal-failure"

structure OpenCodeReconciliationEvent where
  id : Text
  aggregateId : Text
  sequence : Number
  digest : Text
  kind : OpenCodeEventKind
  compaction : Option Json
  providerTokenUsage : Option Json

/-- A projection has the fields of its event. -/
abbrev OpenCodeProjection := OpenCodeReconciliationEvent

variable (event : OpenCodeReconciliationEvent)

def project : OpenCodeProjection := event

/-- `String(sequence)`. -/
def sequenceText : Number → Text
  | .finite value => Decimal.numberText value
  | .infinity => "Infinity".toList
  | .negInfinity => "-Infinity".toList
  | .nan => "NaN".toList

def eventIdentity : Text :=
  event.aggregateId ++ Char.ofNat 0 :: sequenceText event.sequence

def OpenCodeReconciliationEvent.position : ℕ :=
  match event.sequence with
  | .finite value => value.num.toNat
  | _ => 0

def optionalField (name : String) (value : Option Json) : Json.Fields :=
  (value.map fun value => (name.toList,value)).toList

def OpenCodeReconciliationEvent.json : Json :=
  .object ([("id".toList,.string event.id),("aggregateId".toList,.string event.aggregateId),
    ("sequence".toList,.number event.sequence),("digest".toList,.string event.digest),
    ("kind".toList,.string event.kind.text.toList)] ++ optionalField "compaction" event.compaction ++
      optionalField "providerTokenUsage" event.providerTokenUsage)

def eventBytes : ℕ := (Json.stringify event.json).byteLength

end Events

section Validation

/-- `/^[0-9a-f]{64}$/u`. -/
def isSha256 (value : Text) : Bool :=
  value.length == 64 && value.all fun c => Text.isDigit c || ('a' ≤ c && c ≤ 'f')

def exactActivity (fields : Json.Fields) (keys : List String) (optionalKeys : List String) : Bool :=
  (keys.all fun key => (Json.field fields key.toList).isSome) &&
    fields.all fun field => (keys ++ optionalKeys).any fun key => field.1 == key.toList

def isBoolean : Json → Bool
  | .bool _ => true
  | _ => false

def isTextThat (test : Text → Bool) : Json → Bool
  | .string text => test text
  | _ => false

def isTrue : Json → Bool
  | .bool value => value
  | _ => false

def isFalse : Json → Bool
  | .bool value => !value
  | _ => false

def hasField (fields : Json.Fields) (key : String) (test : Json → Bool) : Bool :=
  (Json.field fields key.toList).any test

def optionalCompactionBoolean (fields : Json.Fields) (key : String) : Bool :=
  (Json.field fields key.toList).all isBoolean

def optionalCompactionDigest (fields : Json.Fields) (key : String) : Bool :=
  (Json.field fields key.toList).all (isTextThat isSha256)

def validCompactionId (fields : Json.Fields) : Bool :=
  hasField fields "compactionIdSha256" (isTextThat isSha256)

/-- `/^[A-Za-z][A-Za-z0-9_.-]{0,63}$/u`. -/
def isErrorKind : Text → Bool
  | [] => false
  | first :: rest =>
    isAlphanumeric first && !Text.isDigit first && decide (rest.length ≤ 63) &&
      rest.all fun c => isAlphanumeric c || ['_','.','-'].contains c

def startedActivity (fields : Json.Fields) : Bool :=
  exactActivity fields ["event","compactionIdSha256","auto","retainedTail"] ["overflow"] &&
    validCompactionId fields && hasField fields "auto" isBoolean &&
    optionalCompactionBoolean fields "overflow" && hasField fields "retainedTail" isFalse

def tailRetainedActivity (fields : Json.Fields) : Bool :=
  exactActivity fields ["event","compactionIdSha256","auto","retainedTail"]
      ["overflow","tailStartIdSha256"] &&
    validCompactionId fields && optionalCompactionDigest fields "tailStartIdSha256" &&
    hasField fields "auto" isBoolean && optionalCompactionBoolean fields "overflow" &&
    hasField fields "retainedTail" isTrue

def completedActivity (fields : Json.Fields) : Bool :=
  exactActivity fields ["event","compactionIdSha256"] ["retainedTail"] &&
    validCompactionId fields && optionalCompactionBoolean fields "retainedTail"

def failedActivity (fields : Json.Fields) : Bool :=
  exactActivity fields ["event","compactionIdSha256","errorKind","finishReason"] [] &&
    validCompactionId fields && hasField fields "errorKind" (isTextThat isErrorKind) &&
    hasField fields "finishReason" (isTextThat fun reason =>
      ["content-filter","error","length","unknown"].any fun reviewed => reason == reviewed.toList)

/-- The validators by the name of their activity. A table inherits a few methods too, whose answer to
any activity counts as a yes. -/
def compactionActivityValidators (event : Text) (fields : Json.Fields) : Bool :=
  if event = "started".toList then startedActivity fields
  else if event = "tail-retained".toList then tailRetainedActivity fields
  else if event = "completed".toList then completedActivity fields
  else if event = "failed".toList then failedActivity fields
  else ["constructor","toString","toLocaleString","valueOf"].any fun method => event == method.toList

def isOpenCodeCompactionActivity : Option Json → Bool
  | none => true
  | some (.object fields) =>
    match Json.text? (Json.field fields "event".toList) with
    | none => false
    | some event => compactionActivityValidators event fields
  | some _ => false

def isOpenCodeProviderTokenUsage : Option Json → Bool
  | none => true
  | some (.object [(name,.number inputTokens)]) =>
    name == "inputTokens".toList && isSafeIntegerFrom 0 inputTokens
  | some _ => false

def valid (event : OpenCodeReconciliationEvent) : Bool :=
  !event.id.isEmpty && !event.aggregateId.isEmpty && isSafeIntegerFrom 0 event.sequence &&
    isSha256 event.digest && isOpenCodeCompactionActivity event.compaction &&
    isOpenCodeProviderTokenUsage event.providerTokenUsage

end Validation

section Staging

structure Limits where
  maxEvents : ℕ
  maxBytes : ℤ
  deriving DecidableEq

def defaultLimits : Limits := ⟨256,1024 * 1024⟩

structure Retained where
  checkpoint : OrderedMap Text ℕ
  identities : OrderedMap Text Text
  digests : OrderedMap Text Unit
  staged : List OpenCodeReconciliationEvent
  acknowledged : OrderedMap Text Unit
  stagedBytes : ℤ
  lastObservationAt : Number

structure ReconcilerStore extends Retained where
  revision : ℕ

inductive Note where
  | prepared (handle : ℕ)
  | committed (handle : ℕ)
  | repeated (handle : ℕ)
  | refused (handle : ℕ)
  | acknowledged (identity : Text)
  | evicted (event : OpenCodeReconciliationEvent)
  | forgotten (aggregateId : Text)
  | applied (event : OpenCodeReconciliationEvent)
  | projected (projection : OpenCodeProjection)

/-- A prepared state keeps in `trail` what is noted of the staging when it is committed. -/
structure PreparedReconciliationState extends Retained where
  projections : List OpenCodeProjection
  applied : ℕ
  trail : List Note

inductive Failure where
  | sequenceGap
  | sequenceConflict
  | stagingOverflow
  | invalidEvent
  deriving DecidableEq, Repr

inductive Sequence where
  | historical
  | next
  deriving DecidableEq, Repr

def transactionalState (store : ReconcilerStore) : PreparedReconciliationState :=
  ⟨store.toRetained,[],0,[]⟩

def sequenceDisposition (checkpoint : OrderedMap Text ℕ) (event : OpenCodeReconciliationEvent) :
    Except Failure Sequence :=
  match checkpoint.get? event.aggregateId with
  | none => if event.position ≠ 0 then .error .sequenceGap else .ok .next
  | some expected =>
    if event.position = expected + 1 then .ok .next
    else if event.position ≤ expected then .ok .historical
    else .error .sequenceGap

def takeEvictable (acknowledged : OrderedMap Text Unit) : List OpenCodeReconciliationEvent →
      Option (OpenCodeReconciliationEvent × List OpenCodeReconciliationEvent)
  | [] => none
  | event :: staged =>
    if event.kind = .observation ∨ acknowledged.has (eventIdentity event) = true then some (event,staged)
    else (takeEvictable acknowledged staged).map fun taken => (taken.1,event :: taken.2)

def makeRoom (limits : Limits) (acknowledged : OrderedMap Text Unit) (incomingBytes : ℤ) :
    ℕ → ℤ → List OpenCodeReconciliationEvent →
      Option (List OpenCodeReconciliationEvent × List OpenCodeReconciliationEvent)
  | 0, _, _ => none
  | rounds + 1, bytes, staged =>
    if limits.maxEvents ≤ staged.length ∨ limits.maxBytes < bytes + incomingBytes then
      match takeEvictable acknowledged staged with
      | none => none
      | some (removed,others) =>
        (makeRoom limits acknowledged incomingBytes rounds (bytes - eventBytes removed) others).map
          fun made => (removed :: made.1,made.2)
    else some ([],staged)

def releaseEvictedIndexes (evicted : List OpenCodeReconciliationEvent) (retained : Retained) :
    Retained :=
  evicted.foldl (fun retained event =>
    { retained with
      identities := retained.identities.delete (eventIdentity event)
      acknowledged := retained.acknowledged.delete (eventIdentity event)
      digests := retained.digests.delete event.digest }) retained

/-- The checkpoint that is given up for a new aggregate, if one is, or nothing where none can be. -/
def makeCheckpointRoom (retained : Retained) (aggregateId : Text) (maxCheckpoints : ℕ) : Option (Option Text) :=
  if retained.checkpoint.has aggregateId = true ∨ retained.checkpoint.size < maxCheckpoints then some none
  else (retained.checkpoint.keys.find? fun known =>
      !retained.staged.any fun event => event.aggregateId == known).map some

/-- `observedAt - lastObservationAt < 100`. -/
def isRecent (observedAt lastObservationAt : Number) : Bool :=
  match observedAt, lastObservationAt with
  | .finite now, .finite last =>
    match Binary64.round (now - last) with
    | .finite elapsed => decide (elapsed < 100)
    | .negInfinity => true
    | _ => false
  | .negInfinity, .finite _ => true
  | .finite _, .infinity => true
  | .negInfinity, .infinity => true
  | _, _ => false

def projectEvent (observedAt : Number) (event : OpenCodeReconciliationEvent)
    (state : PreparedReconciliationState) : PreparedReconciliationState :=
  if event.kind = .observation ∧ event.compaction.isNone = true ∧
      isRecent observedAt state.lastObservationAt = true then state
  else { state with
      projections := state.projections ++ [project event]
      trail := state.trail ++ [.projected (project event)]
      lastObservationAt := if event.kind = .observation then observedAt else state.lastObservationAt }

/-- The event takes its place behind what is retained. -/
def applyEvent (event : OpenCodeReconciliationEvent) (state : PreparedReconciliationState) :
    PreparedReconciliationState :=
  { state with
    staged := state.staged ++ [event]
    stagedBytes := (state.staged.map fun item => (eventBytes item : ℤ)).sum + eventBytes event
    identities := state.identities.set (eventIdentity event) event.digest
    digests := state.digests.set event.digest ()
    checkpoint := state.checkpoint.set event.aggregateId event.position
    applied := state.applied + 1
    trail := state.trail ++ [.applied event] }

def evictEvents (evicted staged : List OpenCodeReconciliationEvent)
    (state : PreparedReconciliationState) : PreparedReconciliationState :=
  { state with
    toRetained := releaseEvictedIndexes evicted { state.toRetained with staged := staged }
    trail := state.trail ++ evicted.map .evicted }

def forgetCheckpoint (forgotten : Option Text) (state : PreparedReconciliationState) :
    PreparedReconciliationState :=
  match forgotten with
  | none => state
  | some aggregateId =>
    { state with
      checkpoint := state.checkpoint.delete aggregateId
      trail := state.trail ++ [.forgotten aggregateId] }

def admitEvent (limits : Limits) (observedAt : Number) (state : PreparedReconciliationState)
    (event : OpenCodeReconciliationEvent) : Except Failure PreparedReconciliationState :=
  match makeRoom limits state.acknowledged (eventBytes event) (state.staged.length + 1)
      state.stagedBytes state.staged with
  | none => .error .stagingOverflow
  | some (evicted,staged) =>
    let roomy := evictEvents evicted staged state
    match makeCheckpointRoom roomy.toRetained event.aggregateId limits.maxEvents with
    | none => .error .stagingOverflow
    | some forgotten =>
      .ok (projectEvent observedAt event (applyEvent event (forgetCheckpoint forgotten roomy)))

def stageEvent (limits : Limits) (clock : ℕ → Number) (state : PreparedReconciliationState)
    (event : OpenCodeReconciliationEvent) : Except Failure PreparedReconciliationState :=
  if !valid event then .error .invalidEvent
  else match state.identities.get? (eventIdentity event) with
    | some known => if known = event.digest then .ok state else .error .sequenceConflict
    | none =>
      match sequenceDisposition state.checkpoint event with
      | .error failure => .error failure
      | .ok .historical => .ok state
      | .ok .next =>
        if state.digests.has event.digest then .ok state
        else admitEvent limits (clock state.applied) state event

def stageEvents (limits : Limits) (clock : ℕ → Number) (state : PreparedReconciliationState) :
    List OpenCodeReconciliationEvent → Except Failure PreparedReconciliationState
  | [] => .ok state
  | event :: events =>
    match stageEvent limits clock state event with
    | .error failure => .error failure
    | .ok state => stageEvents limits clock state events

end Staging

section Reconciler

variable (limits : Limits)

structure Preparation where
  preparedRevision : ℕ
  state : PreparedReconciliationState
  committed : Bool

structure Reconciler where
  store : ReconcilerStore
  preparations : List Preparation

/-- The readings of the clock during a call are part of it. -/
inductive Event where
  | prepare (events : List OpenCodeReconciliationEvent) (clock : ℕ → Number)
  | commit (handle : ℕ)
  | acknowledge (projections : List OpenCodeProjection)

def emptyStore : ReconcilerStore := ⟨⟨.empty,.empty,.empty,[],.empty,0,.negInfinity⟩,0⟩

def acknowledgeProjection (projection : OpenCodeProjection) : Effect ReconcilerStore Note :=
  fun store =>
    if store.identities.get? (eventIdentity projection) ≠ some projection.digest ∨
        store.acknowledged.has (eventIdentity projection) = true then (store,[])
    else ({ store with
          acknowledged := store.acknowledged.set (eventIdentity projection) ()
          revision := store.revision + 1 },
        [.acknowledged (eventIdentity projection)])

def prepareReconciliation (events : List OpenCodeReconciliationEvent) (clock : ℕ → Number)
    (store : ReconcilerStore) : Except Failure PreparedReconciliationState :=
  stageEvents limits clock (transactionalState store) events

def prepare (events : List OpenCodeReconciliationEvent) (clock : ℕ → Number) : Effect Reconciler Note :=
  fun reconciler =>
    match prepareReconciliation limits events clock reconciler.store with
    | .error _ => (reconciler,[])
    | .ok state =>
      ({ reconciler with
          preparations := reconciler.preparations ++ [⟨reconciler.store.revision,state,false⟩] },
        [.prepared reconciler.preparations.length])

def commitPreparedState (state : PreparedReconciliationState) (store : ReconcilerStore) :
    ReconcilerStore := ⟨state.toRetained,store.revision + 1⟩

def commit (handle : ℕ) : Effect Reconciler Note := fun reconciler =>
  match reconciler.preparations[handle]? with
  | none => (reconciler,[])
  | some preparation =>
    if preparation.committed then (reconciler,[.repeated handle])
    else if reconciler.store.revision ≠ preparation.preparedRevision then (reconciler,[.refused handle])
    else (⟨commitPreparedState preparation.state reconciler.store,
          reconciler.preparations.set handle { preparation with committed := true }⟩,
        .committed handle :: preparation.state.trail)

def acknowledge (projections : List OpenCodeProjection) : Effect Reconciler Note :=
  fun reconciler =>
    let done := Effect.forEach acknowledgeProjection projections reconciler.store
    ({ reconciler with store := done.1 },done.2)

def effect : Event → Effect Reconciler Note
  | .prepare events clock => prepare limits events clock
  | .commit handle => commit handle
  | .acknowledge projections => acknowledge projections

def machine : Machine Reconciler Event Note where
  start := ⟨emptyStore,[]⟩
  step reconciler event := (effect limits event reconciler).1
  notes reconciler event := (effect limits event reconciler).2

end Reconciler

end Keiko.OpenCode
