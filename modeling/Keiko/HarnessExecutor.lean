import Keiko.HarnessRun

/-! The handlers of the states of an agent run. Each one takes the run to a step of the state
machine; what the model or a tool throws ends in a step as well, and only the values that a
handler itself decides on are written to the run. -/
namespace Keiko.Harness
open Keiko.Library

variable {World Observation : Type} (ports : HarnessPorts World Observation)

abbrev Handled (World Observation : Type) := StateStep × RunContext World Observation

section Planner

def contextSizeMessage (bytes limit : Nat) : Text :=
  "context ".toList ++ Text.numberText bytes ++ " bytes exceeds limit ".toList ++
    Text.numberText limit

def handlePlanning (ctx : RunContext World Observation) : Handled World Observation :=
  (⟨.contextSelection,"plan constructed".toList⟩,
    ctx.emit ports (.reasoningTrace .planning ctx.plan.rationale none))

def handleContextSelection (ctx : RunContext World Observation) : Handled World Observation :=
  let bytes := contextBytes ctx.messages
  if ctx.limits.maxContextBytes < bytes then
    (⟨.limitExceeded,"maxContextBytes exceeded".toList⟩,
      ctx.fail .limitContextSize (contextSizeMessage bytes ctx.limits.maxContextBytes))
  else (⟨.modelCall,"context assembled within byte budget".toList⟩,ctx)

end Planner

section Model

variable (ctx : RunContext World Observation)

def buildRequest : Except Thrown GatewayRequest × RunContext World Observation :=
  if ctx.plan.allowsTools then
    let advertised := ports.catalogAdvertisement ctx.world
    (advertised.1.map fun toolCatalog => ⟨ctx.modelId,ctx.messages,toolCatalog⟩,{ ctx with world := advertised.2 })
  else (.ok ⟨ctx.modelId,ctx.messages,none⟩,ctx)

def captureModelToolCalls (response : NormalizedResponse) :
    Except Thrown NormalizedResponse × RunContext World Observation :=
  if !ctx.plan.allowsTools || response.toolCalls.isEmpty then (.ok response,ctx)
  else
    let bound := ports.bindToolCalls response ctx.world
    (bound.1,{ ctx with world := bound.2 })

/-- `await ctx.model.call(request, ctx.signal)`. -/
def sendRequest (request : GatewayRequest) :
    Except Thrown NormalizedResponse × RunContext World Observation :=
  let called := ports.callModel request ctx.world
  let ctx := { ctx with world := called.2, trace := ctx.trace ++ [Effect.requested request] }
  (called.1,ctx.await ports)

/-- The body of the `try` of a model call. -/
def callModel : Except Thrown NormalizedResponse × RunContext World Observation :=
  match buildRequest ports ctx with
  | (.error thrown,ctx) => (.error thrown,ctx)
  | (.ok request,ctx) =>
    match sendRequest ports ctx request with
    | (.error thrown,ctx) => (.error thrown,ctx)
    | (.ok response,ctx) => captureModelToolCalls ports ctx response

def routeAfterModel (response : NormalizedResponse) : Handled World Observation :=
  if response.finishReason = .toolCalls then if !ctx.plan.allowsTools then
      (⟨.failed,"tool_calls finishReason forbidden for this task type".toList⟩,
        ctx.fail .internal "model requested tool calls on a read-only task type".toList)
    else (⟨.toolCall,"model requested tool calls".toList⟩,ctx)
  else if ctx.plan.allowsPatch then
    (⟨.patchProposal,"model produced final content; assembling patch".toList⟩,ctx)
  else (⟨.reporting,"model produced final content; read-only task".toList⟩,ctx)

def failureState (category : HarnessCode) : HarnessStateName :=
  if category.isLimit then .limitExceeded else .failed

def onCatalogDispatchError (category : HarnessCode)
    (message : Text) : Handled World Observation :=
  (⟨failureState category,"catalog dispatch failed before the model call completed".toList⟩,
    ctx.fail category message)

def claimedByWallTime : Bool :=
  ctx.failure.any fun failure => failure.category = .limitWallTime

def onModelCallAborted : Handled World Observation :=
  if claimedByWallTime ctx then
    (⟨.limitExceeded,"maxWallTimeMs exceeded during model call".toList⟩,ctx)
  else (⟨.cancelled,"abort detected during model call".toList⟩,ctx)

def onModelError (thrown : Thrown) : Handled World Observation :=
  if ctx.aborted ports || thrown.cancelled then onModelCallAborted ctx
  else
    let code := (thrown.gateway.map Prod.fst).getD "UNKNOWN".toList
    let message := thrown.message.getD "model call failed".toList
    let ctx := ctx.emit ports (.modelCallFailed ctx.modelId code message)
    match thrown.catalog with
    | some category => onCatalogDispatchError ctx category message
    | none =>
      if !(thrown.gateway.any Prod.snd) then
        (⟨.failed,"non-retryable model error".toList⟩,ctx.fail .modelError message)
      else
        let ctx := { ctx with counters.failureAttempts := ctx.counters.failureAttempts + 1 }
        if ctx.limits.maxFailureAttempts ≤ ctx.counters.failureAttempts then
          (⟨.limitExceeded,"maxFailureAttempts exceeded".toList⟩,
            ctx.fail .limitFailureAttempts "max failure attempts reached".toList)
        else (⟨.planning,"retryable model error; re-planning".toList⟩,ctx)

def assistantMessage (response : NormalizedResponse) : ChatMessage :=
  ⟨.assistant,response.content,none,none,none,if response.toolCalls.isEmpty then none else some response.toolCalls⟩

def onModelResponse (response : NormalizedResponse) : Handled World Observation :=
  let ctx := ctx.emit ports (.modelCallCompleted ctx.modelId response.finishReason
    response.toolCalls.length response.usage)
  let ctx := ctx.emit ports (.reasoningTrace .modelCall
    "evaluated model response and selected next state".toList (some response.content))
  routeAfterModel { ctx with messages := ctx.messages ++ [assistantMessage response], lastResponse := some response }
    response

def startModelCall : RunContext World Observation :=
  let ctx := { ctx with counters.modelCalls := ctx.counters.modelCalls + 1 }
  ctx.emit ports (.modelCallStarted ctx.modelId ctx.messages.length (contextBytes ctx.messages))

def handleModelCall : Handled World Observation :=
  match callModel ports (startModelCall ports ctx) with
  | (.error thrown,ctx) => onModelError ports ctx thrown
  | (.ok response,ctx) => onModelResponse ports ctx response

end Model

section Tool

def toolFailureCode (thrown : Thrown) : Text := thrown.toolCode.getD "TOOL_ERROR".toList

structure ToolMessageCandidate where
  raw : ChatMessage
  compact : Option ChatMessage

structure ToolMessageState where
  messages : List ChatMessage
  results : List ChatMessage
  before : List ChatMessage
  changed : Bool

structure ToolMessageSelection where
  messages : List ChatMessage
  results : List ChatMessage
  message : ChatMessage

def toolMessage (content toolCallId : Text) : ChatMessage :=
  ⟨.tool,content,none,none,some toolCallId,none⟩

/-- The model-facing messages of a result; `none` when its observation cannot be written. -/
def toolMessageCandidate (result : ToolCallResult Observation) : Option ToolMessageCandidate :=
  let raw := toolMessage result.output result.toolCallId
  match result.shapedObservation with
  | none => some ⟨raw,none⟩
  | some observation =>
    (ports.compactObservationContent observation).map fun content =>
      ⟨raw,some (toolMessage content result.toolCallId)⟩

def compactFor (compacted : Record ChatMessage) (message : ChatMessage) : Option ChatMessage :=
  if message.role ≠ .tool then none
  else match message.toolCallId.bind compacted.get? with
    | some compact => if compact.content = message.content then none else some compact
    | none => none

def compactToolMessages (messages : List ChatMessage) (compacted : Record ChatMessage) : List ChatMessage × Bool :=
  (messages.map fun message => (compactFor compacted message).getD message,
    messages.any fun message => (compactFor compacted message).isSome)

variable (ctx : RunContext World Observation)

def unchangedToolMessageState (results : List ChatMessage) :
    ToolMessageState := ⟨ctx.messages,results,ctx.messages ++ results,false⟩

def compactedToolMessageState (results : List ChatMessage) :
    ToolMessageState :=
  let messages := compactToolMessages ctx.messages ctx.compactedToolMessages
  let compactedResults := compactToolMessages results ctx.compactedToolMessages
  ⟨messages.1,compactedResults.1,messages.1 ++ compactedResults.1,messages.2 || compactedResults.2⟩

def selectIfFits (state : ToolMessageState)
    (message : ChatMessage) : Option ToolMessageSelection :=
  if ctx.limits.maxContextBytes < contextBytes (state.before ++ [message]) then none
  else some ⟨state.messages,state.results,message⟩

def toolOutputBudgetExceeded (bytes : Nat) : Handled World Observation :=
  (⟨.limitExceeded,"maxContextBytes exceeded after tool output".toList⟩,
    ctx.fail .limitContextSize (contextSizeMessage bytes ctx.limits.maxContextBytes))

/-- The messages with a tool result, or the step that ends the run, in `Except`. -/
def selectToolMessage (results : List ChatMessage)
    (candidate : ToolMessageCandidate) : Except (Handled World Observation) ToolMessageSelection :=
  let rawState := unchangedToolMessageState ctx results
  match selectIfFits ctx rawState candidate.raw with
  | some raw => .ok raw
  | none =>
    let rawBytes := contextBytes (rawState.before ++ [candidate.raw])
    let compactedState := compactedToolMessageState ctx results
    match compactedState.changed, selectIfFits ctx compactedState candidate.raw with
    | true, some rawAfterPriorCompaction => .ok rawAfterPriorCompaction
    | _, _ =>
      match candidate.compact.bind (selectIfFits ctx compactedState) with
      | some compact => .ok compact
      | none => .error (toolOutputBudgetExceeded ctx rawBytes)

def abortDuringTool (reason : Text) : Handled World Observation :=
  if claimedByWallTime ctx then
    (⟨.limitExceeded,"maxWallTimeMs exceeded during tool call".toList⟩,ctx)
  else (⟨.cancelled,reason⟩,ctx)

def enrichWithObservation (call : NormalizedToolCall)
    (result : ToolCallResult Observation) :
    Except Thrown (ToolCallResult Observation) × RunContext World Observation :=
  match ports.shaperPort with
  | none => (.ok result,ctx)
  | some shaper =>
    let shaped := shaper result call ctx.world
    (shaped.1.map fun observation => match observation with
      | none => result
      | some observation => { result with shapedObservation := some observation },
      { ctx with world := shaped.2 })

def rawCandidate (result : ToolCallResult Observation) : ToolMessageCandidate :=
  (toolMessageCandidate ports result).getD ⟨toolMessage result.output result.toolCallId,none⟩

def shapeOrFallBackToRaw (call : NormalizedToolCall)
    (result : ToolCallResult Observation) : ToolMessageCandidate × RunContext World Observation :=
  match enrichWithObservation ports ctx call result with
  | (.error _,ctx) =>
    (rawCandidate ports result,ctx.emit ports (.toolShapingDegraded call.id call.name .shaperThrew))
  | (.ok enriched,ctx) =>
    match toolMessageCandidate ports enriched with
    | some candidate =>
      (candidate,{ ctx with
        shapedObservations := ctx.shapedObservations ++ enriched.shapedObservation.toList
        compactedToolMessages := match candidate.compact with
          | some compact => ctx.compactedToolMessages.set call.id compact
          | none => ctx.compactedToolMessages })
    | none =>
      (rawCandidate ports result,ctx.emit ports (.toolShapingDegraded call.id call.name .unserializableObservation))

def completeToolCall (call : NormalizedToolCall)
    (result : ToolCallResult Observation) : ToolMessageCandidate × RunContext World Observation :=
  shapeOrFallBackToRaw ports (ctx.emit ports (.toolCallCompleted call.name call.id result.durationMs)) call result

def executeCatalogCall (call : NormalizedToolCall) :
    Except Thrown (ToolCallResult Observation) × RunContext World Observation :=
  let run := ports.executeCatalogCall call ctx.counters.toolCalls ctx.world
  let ctx := { ctx with counters.toolCalls := run.toolCalls, world := run.world }
  (run.outcome,(run.audit.foldl (fun ctx event => ctx.emit ports (.audit event)) ctx).await ports)

def onToolError (call : NormalizedToolCall) (thrown : Thrown) :
    Handled World Observation :=
  let message := thrown.message.getD "tool execution failed".toList
  let ctx := ctx.emit ports (.toolCallFailed call.name call.id (toolFailureCode thrown) message)
  if ctx.aborted ports || thrown.cancelled then
    abortDuringTool ctx "abort detected during tool call".toList
  else
    let code := thrown.catalog.getD .toolError
    (⟨failureState code,"tool execution failed".toList⟩,ctx.fail code message)

def runOneTool (call : NormalizedToolCall) :
    Except (Handled World Observation) (ToolMessageCandidate × RunContext World Observation) :=
  match executeCatalogCall ports (ctx.emit ports (.toolCallStarted call.name call.id)) call with
  | (.error thrown,ctx) => .error (onToolError ports ctx call thrown)
  | (.ok result,ctx) => .ok (completeToolCall ports ctx call result)

def runTools (ctx : RunContext World Observation) (results : List ChatMessage) :
    List NormalizedToolCall → Handled World Observation
  | [] => (⟨.modelCall,"tool results fed back to model".toList⟩,
      { ctx with messages := ctx.messages ++ results })
  | call :: calls =>
    if ctx.aborted ports then abortDuringTool ctx "abort detected before tool call".toList
    else match runOneTool ports ctx call with
      | .error ended => ended
      | .ok (candidate,ctx) =>
        let ctx := ctx.await ports
        match selectToolMessage ctx results candidate with
        | .error ended => ended
        | .ok selected =>
          runTools { ctx with messages := selected.messages } (selected.results ++ [selected.message]) calls

def handleToolCall : Handled World Observation :=
  runTools ports ctx [] ((ctx.lastResponse.map NormalizedResponse.toolCalls).getD [])

end Tool

section Patcher

variable (ctx : RunContext World Observation)

def handlePatchProposal : Handled World Observation :=
  let diff := (ctx.lastResponse.map NormalizedResponse.content).getD []
  let bytes := Text.byteLength diff
  if ctx.limits.maxPatchBytes < bytes then
    (⟨.limitExceeded,"maxPatchBytes exceeded".toList⟩,
      ctx.fail .limitPatchSize ("patch ".toList ++ Text.numberText bytes ++
        " bytes exceeds limit ".toList ++ Text.numberText ctx.limits.maxPatchBytes))
  else
    (⟨.verification,"patch assembled and proposed (not applied)".toList⟩,
      { ctx with patchDiff := some diff }.emit ports (.patchProposed ctx.plan.targetFile bytes diff))

def handleVerification : Handled World Observation :=
  let passed := !(Text.trim (ctx.patchDiff.getD [])).isEmpty
  let ctx := ctx.emit ports (.verificationResult passed
    (if passed then "non-empty patch produced".toList else "empty patch".toList))
  if passed then (⟨.reporting,"verification passed".toList⟩,ctx)
  else
    let ctx := { ctx with counters.failureAttempts := ctx.counters.failureAttempts + 1 }
    if ctx.limits.maxFailureAttempts ≤ ctx.counters.failureAttempts then
      (⟨.limitExceeded,"maxFailureAttempts exceeded after verification".toList⟩,
        ctx.fail .limitFailureAttempts "verification kept failing".toList)
    else (⟨.planning,"verification failed; re-planning".toList⟩,ctx)

def handleReporting : Handled World Observation :=
  let report := (ctx.lastResponse.map NormalizedResponse.content).getD "no model output".toList
  (⟨.completed,"report generated".toList⟩,{ ctx with report := some report })

end Patcher

end Keiko.Harness
