import Keiko.HarnessExecutor

/-! The driver of an agent run. It looks at cancellation and at the limits before it gives a
state to its handler, tells every change of state, and ends a run with one terminal event;
a bound on the number of steps stands in for the `for` loop. -/
namespace Keiko.Harness
open Keiko.Library

variable {World Observation : Type} (ports : HarnessPorts World Observation)

abbrev Checked (World Observation : Type) := Option StateStep × RunContext World Observation

def HarnessStateName.text : HarnessStateName → Text
  | .intake => "intake".toList
  | .planning => "planning".toList
  | .contextSelection => "context-selection".toList
  | .modelCall => "model-call".toList
  | .toolCall => "tool-call".toList
  | .patchProposal => "patch-proposal".toList
  | .verification => "verification".toList
  | .reporting => "reporting".toList
  | .completed => "completed".toList
  | .cancelled => "cancelled".toList
  | .failed => "failed".toList
  | .limitExceeded => "limit-exceeded".toList

section Checks

def abortStep (reason : Text) : StateStep := ⟨.cancelled,reason⟩

def wallTimeStep : StateStep := ⟨.limitExceeded,"maxWallTimeMs exceeded".toList⟩

variable (ctx : RunContext World Observation)

def checkWallTime : Checked World Observation :=
  let (now,ctx) := ctx.now ports
  if (ctx.limits.maxWallTimeMs : ℤ) < now - ctx.startedAt then
    (some wallTimeStep,{ ctx with failure := some RunContext.wallTimeFailure })
  else (none,ctx)

def protectedPostDispatchStates : List HarnessStateName := [.failed,.cancelled]

def checkWallTimePostDispatch (dispatched : StateStep) :
    Checked World Observation :=
  if protectedPostDispatchStates.contains dispatched.toState then (none,ctx)
  else
    let (now,ctx) := ctx.now ports
    if now - ctx.startedAt ≤ ctx.limits.maxWallTimeMs then (none,ctx)
    else (some wallTimeStep,{ ctx with failure := ctx.failure.or (some RunContext.wallTimeFailure) })

def checkLoopLimits : Checked World Observation :=
  match checkWallTime ports ctx with
  | (some step,ctx) => (some step,ctx)
  | (none,ctx) =>
    if ctx.limits.maxIterations ≤ ctx.counters.iterations then
      (some ⟨.limitExceeded,"maxIterations exceeded".toList⟩,
        ctx.fail .limitIterations "iteration budget exhausted".toList)
    else (none,ctx)

def messagesDropped (reported : Option Number) (messagesBefore messagesAfter : Nat) : Number :=
  let netShrink := Number.ofNat (messagesBefore - messagesAfter)
  match reported with
  | some (.finite reported) =>
    if reported.isInt ∧ 0 ≤ reported ∧ reported ≤ messagesBefore then .finite reported
    else netShrink
  | _ => netShrink

def tryCompact : Bool × RunContext World Observation :=
  match ports.compactionPort with
  | none => (false,ctx)
  | some compactionPort =>
    let compacted := compactionPort ctx.messages ctx.limits.maxContextBytes ctx.world
    let before := ctx.messages
    let ctx := { ctx with world := compacted.2 }
    match compacted.1 with
    | .error _ => (false,ctx)
    | .ok none => (false,ctx)
    | .ok (some result) =>
      if ctx.limits.maxContextBytes < contextBytes result.messages then (false,ctx)
      else
        let ctx := { ctx with messages := result.messages }
        (true,ctx.emit ports (.contextCompacted
          (messagesDropped result.messagesEvicted before.length result.messages.length)
          (contextBytes before) (contextBytes result.messages)))

def checkModelCallLimits : Checked World Observation :=
  if ctx.limits.maxModelCalls ≤ ctx.counters.modelCalls then
    (some ⟨.limitExceeded,"maxModelCalls exceeded".toList⟩,
      ctx.fail .limitModelCalls "model-call budget exhausted".toList)
  else
    let bytes := contextBytes ctx.messages
    if bytes ≤ ctx.limits.maxContextBytes then (none,ctx)
    else match tryCompact ports ctx with
      | (true,ctx) => (none,ctx)
      | (false,ctx) =>
        (some ⟨.limitExceeded,"maxContextBytes exceeded".toList⟩,
          ctx.fail .limitContextSize (contextSizeMessage bytes ctx.limits.maxContextBytes))

def checkToolLimits : Checked World Observation :=
  let pending := ((ctx.lastResponse.map NormalizedResponse.toolCalls).getD []).length
  if ctx.limits.maxToolCalls < ctx.counters.toolCalls + pending then
    (some ⟨.limitExceeded,"maxToolCalls exceeded".toList⟩,
      ctx.fail .limitToolCalls "tool-call budget exhausted".toList)
  else (none,ctx)

def checkEntryGuards (state : HarnessStateName) : Checked World Observation :=
  match checkWallTime ports ctx with
  | (some step,ctx) => (some step,ctx)
  | (none,ctx) =>
    if ctx.aborted ports then (some (abortStep "abort detected before state entry".toList),ctx)
    else if state = .modelCall then checkModelCallLimits ports ctx
    else if state = .toolCall then checkToolLimits ctx
    else (none,ctx)

end Checks

section Loop

def dispatch (ctx : RunContext World Observation) (state : HarnessStateName) : Handled World Observation :=
  match state with
  | .planning =>
    handlePlanning ports { ctx with counters.iterations := ctx.counters.iterations + 1 }
  | .contextSelection => handleContextSelection ctx
  | .modelCall => handleModelCall ports ctx
  | .toolCall => handleToolCall ports ctx
  | .patchProposal => handlePatchProposal ports ctx
  | .verification => handleVerification ports ctx
  | .reporting => handleReporting ctx
  | state =>
    (⟨.failed,"internal: unhandled state".toList⟩,
      ctx.fail .internal ("no handler for state ".toList ++ state.text))

def transition (ctx : RunContext World Observation) (fromState : HarnessStateName)
    (step : StateStep) : HarnessStateName × RunContext World Observation :=
  let ctx := if step.toState = .cancelled then { ctx with cancelledAtState := some fromState } else ctx
  (step.toState,ctx.emit ports (.stateTransition fromState step.toState step.reason))

def terminalFailure (failure : Option HarnessFailure) (state : HarnessStateName) : Option HarnessFailure :=
  if state ≠ .failed ∧ state ≠ .limitExceeded then none
  else some (failure.getD ⟨.internal,"run failed without a failure record".toList⟩)

def emitTerminal (ctx : RunContext World Observation) (state : HarnessStateName) : RunContext World Observation :=
  if state = .completed then
    ctx.emit ports (.runCompleted (ctx.report.getD "no model output".toList) ctx.patchDiff)
  else if state = .cancelled then ctx.emit ports
      (.runCancelled (ctx.cancelledAtState.getD state) (ports.cancelReason ctx.world))
  else match terminalFailure ctx.failure state with
    | some failure => { ctx with failure := some failure }.emit ports (.runFailed failure state)
    | none => ctx

def checkGuards (ctx : RunContext World Observation) (state : HarnessStateName) : Checked World Observation :=
  if state = .planning then checkLoopLimits ports ctx else checkEntryGuards ports ctx state

def loopBody (ctx : RunContext World Observation) (state : HarnessStateName) :
    HarnessStateName × RunContext World Observation :=
  match checkGuards ports ctx state with
  | (some guard,ctx) => transition ports ctx state guard
  | (none,ctx) =>
    let (dispatched,ctx) := dispatch ports ctx state
    let (postDispatchGuard,ctx) := checkWallTimePostDispatch ports (ctx.await ports) dispatched
    transition ports ctx state (postDispatchGuard.getD dispatched)

/-- The `for` loop with a number of steps to go. -/
def runSteps : Nat → HarnessStateName × RunContext World Observation → HarnessStateName × RunContext World Observation
  | 0, (state,ctx) => (state,ctx)
  | steps + 1, (state,ctx) =>
    if isTerminalHarnessState state then (state,ctx)
    else if ctx.aborted ports then
      transition ports ctx state (abortStep "abort detected at top of loop".toList)
    else runSteps steps (loopBody ports ctx state)

def settle (ctx : RunContext World Observation) (state : HarnessStateName) :
    HarnessStateName × RunContext World Observation :=
  if isTerminalHarnessState state then (state,ctx)
  else
    transition ports (ctx.fail .internal "state-machine safety step limit exceeded".toList) state
      ⟨.failed,"internal: state-machine step limit exceeded".toList⟩

def maxLoopSteps : Nat := 10000

/-- The step out of `intake`. -/
def intake (ctx : RunContext World Observation) : HarnessStateName × RunContext World Observation :=
  transition ports ctx .intake ⟨.planning,"task validated".toList⟩

def runLoopWithin (steps : Nat) (ctx : RunContext World Observation) :
    HarnessStateName × RunContext World Observation :=
  let looped := runSteps ports steps (intake ports ctx)
  let settled := settle ports looped.2 looped.1
  (settled.1,emitTerminal ports settled.2 settled.1)

def runLoop (ctx : RunContext World Observation) :
    HarnessStateName × RunContext World Observation := runLoopWithin ports maxLoopSteps ctx

end Loop

section Session

def newCounters : RunCounters := ⟨0,0,0,0⟩

def buildContext (limits : HarnessLimits) (modelId : Text) (plan : TaskPlan)
    (messages : List ChatMessage) (world : World) : RunContext World Observation :=
  let (startedAt,world) := ports.now world
  { limits,modelId,plan,startedAt,counters := newCounters,messages,lastResponse := none,
    patchDiff := none,report := none,failure := none,cancelledAtState := none,
    shapedObservations := [],compactedToolMessages := Record.empty,world,trace := [] }

end Session

end Keiko.Harness
