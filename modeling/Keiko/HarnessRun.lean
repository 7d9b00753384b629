import Keiko.Library.JsonText
import Keiko.Library.Record

/-! The state of an agent run and the ports around it. A port is a function of the world that
hands back another world, so one choice of ports and world stands for one behaviour of model,
tools, clock, sinks and cancellation; what the run does to the outside is kept as its trace. -/
namespace Keiko.Harness
open Keiko.Library

inductive HarnessStateName where
  | intake
  | planning
  | contextSelection
  | modelCall
  | toolCall
  | patchProposal
  | verification
  | reporting
  | completed
  | cancelled
  | failed
  | limitExceeded
  deriving DecidableEq, Repr

def terminalStates : List HarnessStateName := [.completed,.cancelled,.failed,.limitExceeded]

def isTerminalHarnessState (state : HarnessStateName) : Bool := terminalStates.contains state

inductive HarnessCode where
  | limitIterations
  | limitModelCalls
  | limitToolCalls
  | limitCommandExec
  | limitContextSize
  | limitPatchSize
  | limitWallTime
  | limitFailureAttempts
  | modelError
  | toolError
  | internal
  deriving DecidableEq, Repr

def HarnessCode.text : HarnessCode → Text
  | .limitIterations => "HARNESS_LIMIT_ITERATIONS".toList
  | .limitModelCalls => "HARNESS_LIMIT_MODEL_CALLS".toList
  | .limitToolCalls => "HARNESS_LIMIT_TOOL_CALLS".toList
  | .limitCommandExec => "HARNESS_LIMIT_COMMAND_EXECUTIONS".toList
  | .limitContextSize => "HARNESS_LIMIT_CONTEXT_SIZE".toList
  | .limitPatchSize => "HARNESS_LIMIT_PATCH_SIZE".toList
  | .limitWallTime => "HARNESS_LIMIT_WALL_TIME".toList
  | .limitFailureAttempts => "HARNESS_LIMIT_FAILURE_ATTEMPTS".toList
  | .modelError => "HARNESS_MODEL_ERROR".toList
  | .toolError => "HARNESS_TOOL_ERROR".toList
  | .internal => "HARNESS_INTERNAL".toList

/-- `category.startsWith("HARNESS_LIMIT_")`. -/
def HarnessCode.isLimit (code : HarnessCode) : Bool := "HARNESS_LIMIT_".toList.isPrefixOf code.text

structure HarnessFailure where
  category : HarnessCode
  message : Text

structure HarnessLimits where
  maxIterations : Nat
  maxModelCalls : Nat
  maxToolCalls : Nat
  maxContextBytes : Nat
  maxPatchBytes : Nat
  maxWallTimeMs : Nat
  maxFailureAttempts : Nat

structure RunCounters where
  iterations : Nat
  modelCalls : Nat
  toolCalls : Nat
  failureAttempts : Nat

section Messages

inductive MessageRole where
  | system
  | user
  | assistant
  | tool
  deriving DecidableEq

structure NormalizedToolCall where
  id : Text
  name : Text
  arguments : Json.Fields
  invocation : Option Json

structure ChatMessage where
  role : MessageRole
  content : Text
  reasoningContent : Option Text
  contentParts : Option (List Json)
  toolCallId : Option Text
  toolCalls : Option (List NormalizedToolCall)

inductive FinishReason where
  | stop
  | toolCalls
  | length
  | contentFilter
  | error
  | cancelled
  deriving DecidableEq

structure UsageMetadata where
  requestId : Text
  promptTokens : Number
  completionTokens : Number
  latencyMs : Number

structure NormalizedResponse where
  content : Text
  finishReason : FinishReason
  toolCalls : List NormalizedToolCall
  usage : UsageMetadata

structure TaskPlan where
  allowsTools : Bool
  allowsPatch : Bool
  targetFile : Text
  rationale : Text

def MessageRole.text : MessageRole → Text
  | .system => "system".toList
  | .user => "user".toList
  | .assistant => "assistant".toList
  | .tool => "tool".toList

def optionalField (name : Text) (value : Option Json) : Json.Fields :=
  (value.map fun value => (name,value)).toList

def toolCallJson (call : NormalizedToolCall) : Json := .object
  (optionalField "invocation".toList call.invocation ++
    [("id".toList,.string call.id),("name".toList,.string call.name),
      ("arguments".toList,.object call.arguments)])

def messageJson (message : ChatMessage) : Json := .object
  (optionalField "reasoningContent".toList (message.reasoningContent.map .string) ++
    [("role".toList,.string message.role.text),("content".toList,.string message.content)] ++
    optionalField "contentParts".toList (message.contentParts.map .array) ++
    optionalField "toolCallId".toList (message.toolCallId.map .string) ++
    optionalField "toolCalls".toList
      (message.toolCalls.map fun calls => .array (calls.map toolCallJson)))

def contextBytes (messages : List ChatMessage) : Nat :=
  Text.byteLength (Json.stringify (.array (messages.map messageJson)))

end Messages

section Events

inductive AuditEvent where
  | sandboxConfigured
  | commandExecuted
  | patchApplied

inductive ToolShapingDegradedReason where
  | shaperThrew
  | unserializableObservation

inductive HarnessEvent where
  | stateTransition (fromState toState : HarnessStateName) (reason : Text)
  | modelCallStarted (modelId : Text) (messageCount contextBytes : Nat)
  | modelCallCompleted (modelId : Text) (finishReason : FinishReason) (toolCallCount : Nat)
      (usage : UsageMetadata)
  | modelCallFailed (modelId errorCode message : Text)
  | toolCallStarted (toolName toolCallId : Text)
  | toolCallCompleted (toolName toolCallId : Text) (durationMs : Number)
  | toolCallFailed (toolName toolCallId errorCode message : Text)
  | toolShapingDegraded (toolCallId toolName : Text) (reason : ToolShapingDegradedReason)
  | audit (event : AuditEvent)
  | reasoningTrace (phase : HarnessStateName) (rationale : Text) (modelResponse : Option Text)
  | patchProposed (targetFile : Text) (patchBytes : Nat) (diff : Text)
  | verificationResult (passed : Bool) (detail : Text)
  | contextCompacted (messagesDropped : Number) (bytesBefore bytesAfter : Nat)
  | runCompleted (report : Text) (patchDiff : Option Text)
  | runCancelled (atState : HarnessStateName) (reason : Option Text)
  | runFailed (failure : HarnessFailure) (atState : HarnessStateName)

structure GatewayRequest where
  modelId : Text
  messages : List ChatMessage
  toolCatalog : Option Json

/-- What a run does to the outside: it emits events and sends requests to the model. -/
inductive Effect where
  | emitted (event : HarnessEvent)
  | requested (request : GatewayRequest)

end Events

section Ports

/-- A thrown value, as far as the handlers look at it. -/
structure Thrown where
  cancelled : Bool
  gateway : Option (Text × Bool)
  toolCode : Option Text
  catalog : Option HarnessCode
  message : Option Text

structure ToolCallResult (Observation : Type) where
  toolCallId : Text
  output : Text
  durationMs : Number
  shapedObservation : Option Observation

structure HarnessCompactionResult where
  messages : List ChatMessage
  messagesEvicted : Option Number

structure CatalogRun (World Observation : Type) where
  outcome : Except Thrown (ToolCallResult Observation)
  toolCalls : Nat
  audit : List AuditEvent
  world : World

structure HarnessPorts (World Observation : Type) where
  /-- The sinks, which may also cancel the run. -/
  emit : HarnessEvent → World → World
  now : World → ℤ × World
  aborted : World → Bool
  cancelReason : World → Option Text
  /-- An `await`: whether the callback of the wall-time deadline ran meanwhile. -/
  wait : World → Bool × World
  catalogAdvertisement : World → Except Thrown (Option Json) × World
  callModel : GatewayRequest → World → Except Thrown NormalizedResponse × World
  /-- The check of the tool calls of a response against the bound catalog. -/
  bindToolCalls : NormalizedResponse → World → Except Thrown NormalizedResponse × World
  executeCatalogCall : NormalizedToolCall → Nat → World → CatalogRun World Observation
  shaperPort : Option (ToolCallResult Observation → NormalizedToolCall → World →
    Except Thrown (Option Observation) × World)
  /-- The compact message of an observation, when it can be written. -/
  compactObservationContent : Observation → Option Text
  compactionPort : Option (List ChatMessage → Nat → World → Except Thrown (Option HarnessCompactionResult) × World)

end Ports

structure RunContext (World Observation : Type) where
  limits : HarnessLimits
  modelId : Text
  plan : TaskPlan
  startedAt : ℤ
  counters : RunCounters
  messages : List ChatMessage
  lastResponse : Option NormalizedResponse
  patchDiff : Option Text
  report : Option Text
  failure : Option HarnessFailure
  cancelledAtState : Option HarnessStateName
  shapedObservations : List Observation
  compactedToolMessages : Record ChatMessage
  world : World
  trace : List Effect

structure StateStep where
  toState : HarnessStateName
  reason : Text

namespace RunContext

variable {World Observation : Type} (ports : HarnessPorts World Observation) (ctx : RunContext World Observation)

def emit (event : HarnessEvent) : RunContext World Observation :=
  { ctx with world := ports.emit event ctx.world, trace := ctx.trace ++ [.emitted event] }

def now : ℤ × RunContext World Observation :=
  ((ports.now ctx.world).1,{ ctx with world := (ports.now ctx.world).2 })

def aborted : Bool := ports.aborted ctx.world

/-- `ctx.failure = toFailure(category, message)`. -/
def fail (category : HarnessCode) (message : Text) : RunContext World Observation :=
  { ctx with failure := some ⟨category,message⟩ }

def wallTimeFailure : HarnessFailure := ⟨.limitWallTime,"wall-time budget exhausted".toList⟩

/-- While the run waits, the deadline may claim the failure slot. -/
def await : RunContext World Observation :=
  { ctx with
    world := (ports.wait ctx.world).2
    failure := if (ports.wait ctx.world).1 then ctx.failure.or (some wallTimeFailure) else ctx.failure }

end RunContext

end Keiko.Harness
