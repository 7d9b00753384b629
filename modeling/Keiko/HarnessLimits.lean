import Keiko.HarnessLoop
import Mathlib.Tactic.Linarith

/-! What an agent run may do under its limits. Every handler and every check is quiet but for
the model call, which is counted and announced before its request goes out; the guards of the
loop admit it only below the limits, so that every run keeps within them. -/
namespace Keiko.Harness
open Keiko.Library List

variable {World Observation : Type}

section Effects

def HarnessEvent.isTerminal : HarnessEvent → Bool
  | .runCompleted _ _ => true
  | .runCancelled _ _ => true
  | .runFailed _ _ => true
  | _ => false

def Effect.isTerminal : Effect → Bool
  | .emitted event => event.isTerminal
  | .requested _ => false

def Effect.isStart : Effect → Bool
  | .emitted (.modelCallStarted _ _ _) => true
  | _ => false

def Effect.isRequest : Effect → Bool
  | .requested _ => true
  | .emitted _ => false

def Effect.isQuiet (effect : Effect) : Bool :=
  !effect.isTerminal && !effect.isStart && !effect.isRequest

def Effect.Within (bytes : Nat) : Effect → Prop
  | .emitted (.modelCallStarted _ _ contextBytes) => contextBytes ≤ bytes
  | .emitted _ => True
  | .requested request => contextBytes request.messages ≤ bytes

def HarnessEvent.Tells (outcome : HarnessStateName) : HarnessEvent → Prop
  | .runCompleted _ _ => outcome = .completed
  | .runCancelled _ _ => outcome = .cancelled
  | .runFailed _ atState => (outcome = .failed ∨ outcome = .limitExceeded) ∧ atState = outcome
  | _ => False

theorem Effect.within_of_isQuiet {effect : Effect} (quiet : effect.isQuiet) (bytes : Nat) : effect.Within bytes := by
  unfold Effect.Within
  split
  · simp [Effect.isQuiet,Effect.isStart] at quiet
  · trivial
  · simp [Effect.isQuiet,Effect.isRequest] at quiet

theorem countP_eq_zero_of_isQuiet {effects : List Effect} (quiet : ∀ effect ∈ effects, effect.isQuiet) :
    effects.countP Effect.isStart = 0 ∧ effects.countP Effect.isRequest = 0 := by
  simp only [countP_eq_zero]
  constructor <;> intro effect mem <;> have := quiet effect mem <;>
    simp_all [Effect.isQuiet]

end Effects

structure Quiet (before after : RunContext World Observation) : Prop where
  limits : after.limits = before.limits
  iterations : after.counters.iterations = before.counters.iterations
  modelCalls : after.counters.modelCalls = before.counters.modelCalls
  effects : ∃ later, after.trace = before.trace ++ later ∧ ∀ effect ∈ later, effect.isQuiet

section Primitives

variable (ports : HarnessPorts World Observation) (ctx : RunContext World Observation)

theorem Quiet.silent {pre after : RunContext World Observation} (limits : after.limits = pre.limits)
    (iterations : after.counters.iterations = pre.counters.iterations)
    (modelCalls : after.counters.modelCalls = pre.counters.modelCalls)
    (trace : after.trace = pre.trace) : Quiet pre after :=
  ⟨limits,iterations,modelCalls,[],by simp [trace],by simp⟩

theorem Quiet.refl : Quiet ctx ctx := .silent rfl rfl rfl rfl

theorem Quiet.trans {a b third : RunContext World Observation}
    (pre : Quiet a b) (after : Quiet b third) : Quiet a third := by
  obtain ⟨early,extends_,calm⟩ := pre.effects
  obtain ⟨post,extended,silent⟩ := after.effects
  refine ⟨after.limits.trans pre.limits,after.iterations.trans pre.iterations,
    after.modelCalls.trans pre.modelCalls,early ++ post,?_,?_⟩
  · rw [extended,extends_,append_assoc]
  · intro effect mem
    rcases mem_append.mp mem with mem | mem
    · exact calm effect mem
    · exact silent effect mem

theorem quiet_emit (ev : HarnessEvent) (quiet : (Effect.emitted ev).isQuiet) :
    Quiet ctx (ctx.emit ports ev) := by
  refine ⟨rfl,rfl,rfl,[.emitted ev],rfl,?_⟩
  intro effect mem
  rwa [mem_singleton.mp mem]

theorem quiet_now : Quiet ctx (ctx.now ports).2 := .silent rfl rfl rfl rfl

theorem quiet_fail (category : HarnessCode) (message : Text) :
    Quiet ctx (ctx.fail category message) := .silent rfl rfl rfl rfl

theorem quiet_await : Quiet ctx (ctx.await ports) := .silent rfl rfl rfl rfl

end Primitives

section Handlers

variable (ports : HarnessPorts World Observation) (ctx : RunContext World Observation)

theorem quiet_handlePlanning : Quiet ctx (handlePlanning ports ctx).2 := quiet_emit ports ctx _ rfl

theorem quiet_handleContextSelection : Quiet ctx (handleContextSelection ctx).2 := by
  simp only [handleContextSelection]
  split
  · exact quiet_fail ctx _ _
  · exact .refl ctx

variable (response : NormalizedResponse)

theorem quiet_routeAfterModel : Quiet ctx (routeAfterModel ctx response).2 := by
  simp only [routeAfterModel]
  split
  · split
    · exact quiet_fail ctx _ _
    · exact .refl ctx
  · split <;> exact .refl ctx

theorem quiet_onModelCallAborted : Quiet ctx (onModelCallAborted ctx).2 := by
  simp only [onModelCallAborted]
  split <;> exact .refl ctx

theorem quiet_onModelError (thrown : Thrown) : Quiet ctx (onModelError ports ctx thrown).2 := by
  simp only [onModelError]
  split
  · exact quiet_onModelCallAborted ctx
  · have told := quiet_emit ports ctx (.modelCallFailed ctx.modelId
      ((thrown.gateway.map Prod.fst).getD "UNKNOWN".toList)
      (thrown.message.getD "model call failed".toList)) rfl
    refine told.trans ?_
    split
    · exact quiet_fail _ _ _
    · split
      · exact quiet_fail _ _ _
      · split <;> exact .silent rfl rfl rfl rfl

theorem quiet_onModelResponse : Quiet ctx (onModelResponse ports ctx response).2 := by
  have completed := quiet_emit ports ctx (.modelCallCompleted ctx.modelId response.finishReason
    response.toolCalls.length response.usage) rfl
  have traced := completed.trans (quiet_emit ports _ (.reasoningTrace .modelCall
    "evaluated model response and selected next state".toList (some response.content)) rfl)
  refine (traced.trans ?_).trans (quiet_routeAfterModel _ response)
  exact .silent rfl rfl rfl rfl

theorem quiet_captureModelToolCalls :
    Quiet ctx (captureModelToolCalls ports ctx response).2 := by
  simp only [captureModelToolCalls]
  split
  · exact .refl ctx
  · exact .silent rfl rfl rfl rfl

theorem quiet_buildRequest : Quiet ctx (buildRequest ports ctx).2 := by
  simp only [buildRequest]
  split
  · exact .silent rfl rfl rfl rfl
  · exact .refl ctx

theorem quiet_abortDuringTool (reason : Text) : Quiet ctx (abortDuringTool ctx reason).2 := by
  simp only [abortDuringTool]
  split <;> exact .refl ctx

theorem quiet_enrichWithObservation (call : NormalizedToolCall) (res : ToolCallResult Observation) :
    Quiet ctx (enrichWithObservation ports ctx call res).2 := by
  simp only [enrichWithObservation]
  split
  · exact .refl ctx
  · exact .silent rfl rfl rfl rfl

theorem quiet_shapeOrFallBackToRaw (call : NormalizedToolCall) (res : ToolCallResult Observation) :
    Quiet ctx (shapeOrFallBackToRaw ports ctx call res).2 := by
  have enriched := quiet_enrichWithObservation ports ctx call res
  simp only [shapeOrFallBackToRaw]
  split
  next equal =>
    rw [equal] at enriched
    exact enriched.trans (quiet_emit ports _ _ rfl)
  next equal =>
    rw [equal] at enriched
    split
    · exact enriched.trans (.silent rfl rfl rfl rfl)
    · exact enriched.trans (quiet_emit ports _ _ rfl)

theorem quiet_completeToolCall (call : NormalizedToolCall) (res : ToolCallResult Observation) :
    Quiet ctx (completeToolCall ports ctx call res).2 :=
  (quiet_emit ports ctx _ rfl).trans (quiet_shapeOrFallBackToRaw ports _ call res)

theorem quiet_audit (evs : List AuditEvent) :
    Quiet ctx (evs.foldl (fun ctx ev => ctx.emit ports (.audit ev)) ctx) := by
  induction evs generalizing ctx with
  | nil => exact .refl ctx
  | cons ev evs ih => exact (quiet_emit ports ctx _ rfl).trans (ih _)

theorem quiet_executeCatalogCall (call : NormalizedToolCall) : Quiet ctx (executeCatalogCall ports ctx call).2 := by
  simp only [executeCatalogCall]
  refine Quiet.trans (.trans ?_ (quiet_audit ports _ _)) (quiet_await ports _)
  exact .silent rfl rfl rfl rfl

theorem quiet_onToolError (call : NormalizedToolCall) (thrown : Thrown) :
    Quiet ctx (onToolError ports ctx call thrown).2 := by
  simp only [onToolError]
  split
  · exact (quiet_emit ports ctx _ rfl).trans (quiet_abortDuringTool _ _)
  · exact (quiet_emit ports ctx _ rfl).trans (quiet_fail _ _ _)

theorem quiet_runOneTool (call : NormalizedToolCall) :
    (∀ ended, runOneTool ports ctx call = .error ended → Quiet ctx ended.2) ∧
      ∀ c after, runOneTool ports ctx call = .ok (c,after) → Quiet ctx after := by
  have executed := (quiet_emit ports ctx (.toolCallStarted call.name call.id) rfl).trans
    (quiet_executeCatalogCall ports _ call)
  simp only [runOneTool]
  split
  next equal =>
    rw [equal] at executed
    refine ⟨?_,by simp⟩
    intro ended same
    cases same
    exact executed.trans (quiet_onToolError ports _ call _)
  next res _ equal =>
    rw [equal] at executed
    refine ⟨by simp,?_⟩
    intro c after same
    have completed := executed.trans (quiet_completeToolCall ports _ call res)
    rwa [Except.ok.inj same] at completed

theorem quiet_of_selectToolMessage_error {results : List ChatMessage}
    {c : ToolMessageCandidate} {ended : Handled World Observation}
    (refused : selectToolMessage ctx results c = .error ended) : Quiet ctx ended.2 := by
  simp only [selectToolMessage] at refused
  split at refused
  · cases refused
  · split at refused
    · cases refused
    · split at refused <;> cases refused
      exact quiet_fail ctx _ _

theorem quiet_runTools (results : List ChatMessage) (calls : List NormalizedToolCall) :
    Quiet ctx (runTools ports ctx results calls).2 := by
  induction calls generalizing ctx results with
  | nil => exact .silent rfl rfl rfl rfl
  | cons call calls ih =>
    have ran := quiet_runOneTool ports ctx call
    simp only [runTools]
    split
    · exact quiet_abortDuringTool ctx _
    · split
      next ended equal => exact ran.1 ended equal
      next c after equal =>
        have waited := (ran.2 c after equal).trans (quiet_await ports after)
        split
        next ended refused => exact waited.trans (quiet_of_selectToolMessage_error _ refused)
        next selected _ =>
          refine (waited.trans ?_).trans (ih _ _)
          exact .silent rfl rfl rfl rfl

theorem quiet_handlePatchProposal : Quiet ctx (handlePatchProposal ports ctx).2 := by
  simp only [handlePatchProposal]
  split
  · exact quiet_fail ctx _ _
  · refine Quiet.trans ?_ (quiet_emit ports _ _ rfl)
    exact .silent rfl rfl rfl rfl

theorem quiet_handleVerification : Quiet ctx (handleVerification ports ctx).2 := by
  simp only [handleVerification]
  split
  · exact quiet_emit ports ctx _ rfl
  · have told := quiet_emit ports ctx (.verificationResult
      (!(Text.trim (ctx.patchDiff.getD [])).isEmpty) "empty patch".toList) rfl
    refine told.trans ?_
    split
    · exact .silent rfl rfl rfl rfl
    · exact .silent rfl rfl rfl rfl

theorem quiet_handleReporting : Quiet ctx (handleReporting ctx).2 := .silent rfl rfl rfl rfl

end Handlers

section Guards

variable (ports : HarnessPorts World Observation) (ctx : RunContext World Observation)

theorem quiet_checkWallTime : Quiet ctx (checkWallTime ports ctx).2 := by
  simp only [checkWallTime]
  split
  · exact .silent rfl rfl rfl rfl
  · exact quiet_now ports ctx

theorem quiet_checkWallTimePostDispatch (dispatched : StateStep) :
    Quiet ctx (checkWallTimePostDispatch ports ctx dispatched).2 := by
  simp only [checkWallTimePostDispatch]
  split
  · exact .refl ctx
  · split
    · exact quiet_now ports ctx
    · exact .silent rfl rfl rfl rfl

structure Admitted (state : HarnessStateName) (ctx : RunContext World Observation) : Prop where
  planning : state = .planning → ctx.counters.iterations < ctx.limits.maxIterations
  modelCall : state = .modelCall → ctx.counters.modelCalls < ctx.limits.maxModelCalls ∧
    contextBytes ctx.messages ≤ ctx.limits.maxContextBytes

theorem quiet_tryCompact : Quiet ctx (tryCompact ports ctx).2 := by
  simp only [tryCompact]
  split
  · exact .refl ctx
  · split
    · exact .silent rfl rfl rfl rfl
    · exact .silent rfl rfl rfl rfl
    · split
      · exact .silent rfl rfl rfl rfl
      · refine Quiet.trans ?_ (quiet_emit ports _ _ rfl)
        exact .silent rfl rfl rfl rfl

theorem contextBytes_of_tryCompact (compacted : (tryCompact ports ctx).1 = true) :
    contextBytes (tryCompact ports ctx).2.messages ≤ (tryCompact ports ctx).2.limits.maxContextBytes := by
  unfold tryCompact at compacted ⊢
  split at compacted
  · cases compacted
  · simp only at compacted ⊢
    split at compacted
    · cases compacted
    · cases compacted
    · split at compacted
      · cases compacted
      · next fits =>
        rw [if_neg fits]
        exact Nat.le_of_not_lt fits

theorem checkModelCallLimits_spec : Quiet ctx (checkModelCallLimits ports ctx).2 ∧
    ((checkModelCallLimits ports ctx).1 = none → Admitted .modelCall (checkModelCallLimits ports ctx).2) := by
  have quiet := quiet_tryCompact ports ctx
  have fits := contextBytes_of_tryCompact ports ctx
  simp only [checkModelCallLimits]
  split
  · exact ⟨quiet_fail ctx _ _,by simp⟩
  next below =>
    split
    next small => exact ⟨.refl ctx,fun _ => ⟨by simp,fun _ => ⟨Nat.lt_of_not_le below,small⟩⟩⟩
    next =>
      split
      next equal =>
        rw [equal] at quiet fits
        refine ⟨quiet,fun _ => ⟨by simp,fun _ => ⟨?_,fits rfl⟩⟩⟩
        rw [quiet.modelCalls,quiet.limits]
        exact Nat.lt_of_not_le below
      next equal =>
        rw [equal] at quiet
        exact ⟨quiet.trans (quiet_fail _ _ _),by simp⟩

theorem quiet_checkToolLimits : Quiet ctx (checkToolLimits ctx).2 := by
  simp only [checkToolLimits]
  split
  · exact quiet_fail ctx _ _
  · exact .refl ctx

theorem checkLoopLimits_spec : Quiet ctx (checkLoopLimits ports ctx).2 ∧ ((checkLoopLimits ports ctx).1 = none →
      Admitted .planning (checkLoopLimits ports ctx).2) := by
  have timed := quiet_checkWallTime ports ctx
  simp only [checkLoopLimits]
  split
  next equal =>
    rw [equal] at timed
    exact ⟨timed,by simp⟩
  next equal =>
    rw [equal] at timed
    split
    · exact ⟨timed.trans (quiet_fail _ _ _),by simp⟩
    next below => exact ⟨timed,fun _ => ⟨fun _ => Nat.lt_of_not_le below,by simp⟩⟩

theorem checkEntryGuards_spec (s : HarnessStateName) (other : s ≠ .planning) :
    Quiet ctx (checkEntryGuards ports ctx s).2 ∧
    ((checkEntryGuards ports ctx s).1 = none → Admitted s (checkEntryGuards ports ctx s).2) := by
  have timed := quiet_checkWallTime ports ctx
  simp only [checkEntryGuards]
  split
  next equal =>
    rw [equal] at timed
    exact ⟨timed,by simp⟩
  next timedCtx equal =>
    rw [equal] at timed
    split
    · exact ⟨timed,by simp⟩
    · split
      next isModelCall =>
        obtain ⟨quiet,admitted⟩ := checkModelCallLimits_spec ports timedCtx
        rw [isModelCall]
        exact ⟨timed.trans quiet,admitted⟩
      next notModelCall =>
        have trivially (ctx : RunContext World Observation) : Admitted s ctx :=
          ⟨fun equal => absurd equal other,fun equal => absurd equal notModelCall⟩
        split
        · exact ⟨timed.trans (quiet_checkToolLimits _),fun _ => trivially _⟩
        · exact ⟨timed,fun _ => trivially _⟩

theorem checkGuards_spec (s : HarnessStateName) : Quiet ctx (checkGuards ports ctx s).2 ∧
    ((checkGuards ports ctx s).1 = none → Admitted s (checkGuards ports ctx s).2) := by
  unfold checkGuards
  split
  next isPlanning =>
    rw [isPlanning]
    exact checkLoopLimits_spec ports ctx
  next other => exact checkEntryGuards_spec ports ctx s other

end Guards

section ModelCalls

variable (ports : HarnessPorts World Observation) (ctx : RunContext World Observation)

/-- At most one request goes out, and it carries the messages of the run. -/
def Asked (messages : List ChatMessage) (requests : List Effect) : Prop :=
  requests.length ≤ 1 ∧ ∀ effect ∈ requests, ∃ request, effect = .requested request ∧ request.messages = messages

theorem messages_of_buildRequest {req : GatewayRequest}
    (built : (buildRequest ports ctx).1 = .ok req) : req.messages = ctx.messages := by
  simp only [buildRequest] at built
  split at built
  · cases advertised : (ports.catalogAdvertisement ctx.world).1 with
    | error thrown => simp [advertised,Except.map] at built
    | ok toolCatalog =>
      simp only [advertised,Except.map,Except.ok.injEq] at built
      rw [← built]
  · rw [← Except.ok.inj built]

theorem trace_buildRequest : (buildRequest ports ctx).2.trace = ctx.trace := by
  simp only [buildRequest]
  split <;> rfl

theorem callModel_spec : ∃ requests, Asked ctx.messages requests ∧
    Quiet { ctx with trace := ctx.trace ++ requests } (callModel ports ctx).2 := by
  have quiet := quiet_buildRequest ports ctx
  have untouched := trace_buildRequest ports ctx
  have carried := @messages_of_buildRequest _ _ ports ctx
  simp only [callModel]
  split
  next equal =>
    rw [equal] at quiet
    exact ⟨[],⟨by simp,by simp⟩,by simpa using quiet⟩
  next req built equal =>
    rw [equal] at quiet untouched carried
    have sent : Quiet { ctx with trace := ctx.trace ++ [Effect.requested req] }
        (sendRequest ports built req).2 := by
      refine .silent quiet.limits quiet.iterations quiet.modelCalls ?_
      exact congrArg (· ++ [Effect.requested req]) untouched
    refine ⟨[.requested req],⟨by simp,?_⟩,?_⟩
    · intro effect mem
      exact ⟨req,mem_singleton.mp mem,carried rfl⟩
    · split
      next equal =>
        rw [equal] at sent
        exact sent
      next equal =>
        rw [equal] at sent
        exact sent.trans (quiet_captureModelToolCalls ports _ _)

theorem handleModelCall_spec : ∃ requests, Asked ctx.messages requests ∧
    Quiet { startModelCall ports ctx with trace := (startModelCall ports ctx).trace ++ requests }
      (handleModelCall ports ctx).2 := by
  obtain ⟨requests,asked,quiet⟩ := callModel_spec ports (startModelCall ports ctx)
  refine ⟨requests,asked,quiet.trans ?_⟩
  simp only [handleModelCall]
  split
  next equal =>
    rw [equal]
    exact quiet_onModelError ports _ _
  next equal =>
    rw [equal]
    exact quiet_onModelResponse ports _ _

end ModelCalls

section Invariant

/-- The invariant of a run under its limits: the counters count what the run did, neither of
them passes its limit, and no model call carries more context than is allowed. -/
structure Bounded (limits : HarnessLimits) (ctx : RunContext World Observation) : Prop where
  governed : ctx.limits = limits
  iterations : ctx.counters.iterations ≤ limits.maxIterations
  modelCalls : ctx.counters.modelCalls ≤ limits.maxModelCalls
  started : ctx.trace.countP Effect.isStart = ctx.counters.modelCalls
  requested : ctx.trace.countP Effect.isRequest ≤ ctx.counters.modelCalls
  within : ∀ effect ∈ ctx.trace, effect.Within limits.maxContextBytes

def Unfinished (ctx : RunContext World Observation) : Prop :=
  ∀ effect ∈ ctx.trace, effect.isTerminal = false

def Running (limits : HarnessLimits) (ctx : RunContext World Observation) : Prop :=
  Bounded limits ctx ∧ Unfinished ctx

variable {limits : HarnessLimits} {ctx after : RunContext World Observation}

theorem Running.quiet (running : Running limits ctx) (quiet : Quiet ctx after) : Running limits after := by
  obtain ⟨bounded,unfinished⟩ := running
  obtain ⟨post,extended,calm⟩ := quiet.effects
  obtain ⟨noStart,noRequest⟩ := countP_eq_zero_of_isQuiet calm
  refine ⟨⟨quiet.limits.trans bounded.governed,?_,?_,?_,?_,?_⟩,?_⟩
  · rw [quiet.iterations]
    exact bounded.iterations
  · rw [quiet.modelCalls]
    exact bounded.modelCalls
  · rw [extended,countP_append,noStart,quiet.modelCalls]
    exact bounded.started
  · rw [extended,countP_append,noRequest,quiet.modelCalls]
    exact bounded.requested
  · intro effect mem
    rcases mem_append.mp (extended ▸ mem) with early | added
    · exact bounded.within effect early
    · exact Effect.within_of_isQuiet (calm effect added) _
  · intro effect mem
    rcases mem_append.mp (extended ▸ mem) with early | added
    · exact unfinished effect early
    · have silent := calm effect added
      simp only [Effect.isQuiet,Bool.and_eq_true,Bool.not_eq_true'] at silent
      exact silent.1.1

theorem Running.iterate (running : Running limits ctx) (below : ctx.counters.iterations < limits.maxIterations) :
    Running limits { ctx with counters.iterations := ctx.counters.iterations + 1 } := by
  obtain ⟨bounded,unfinished⟩ := running
  exact ⟨{ bounded with iterations := below },unfinished⟩

theorem Running.startModelCall (ports : HarnessPorts World Observation)
    (running : Running limits ctx) (below : ctx.counters.modelCalls < limits.maxModelCalls)
    (fits : contextBytes ctx.messages ≤ limits.maxContextBytes) {requests : List Effect}
    (asked : Asked ctx.messages requests) :
    Running limits { startModelCall ports ctx with
      trace := (startModelCall ports ctx).trace ++ requests } := by
  obtain ⟨bounded,unfinished⟩ := running
  obtain ⟨single,carried⟩ := asked
  have noStart : requests.countP Effect.isStart = 0 := by
    rw [countP_eq_zero]
    intro effect mem
    obtain ⟨req,equal,_⟩ := carried effect mem
    simp [equal,Effect.isStart]
  refine ⟨⟨bounded.governed,bounded.iterations,below,?_,?_,?_⟩,?_⟩
  · simp [Harness.startModelCall,RunContext.emit,countP_cons,noStart,Effect.isStart,bounded.started]
  · have atMost := (countP_le_length (p := Effect.isRequest) (l := requests)).trans single
    have pre := bounded.requested
    simp only [Harness.startModelCall,RunContext.emit,countP_append,countP_singleton,Effect.isRequest]
    simpa using (add_le_add pre atMost)
  · intro effect mem
    rcases mem_append.mp mem with mem | sent
    · rcases mem_append.mp mem with early | start
      · exact bounded.within effect early
      · rw [mem_singleton.mp start]
        exact fits
    · obtain ⟨req,equal,same⟩ := carried effect sent
      rw [equal,Effect.Within,same]
      exact fits
  · intro effect mem
    rcases mem_append.mp mem with mem | sent
    · rcases mem_append.mp mem with early | start
      · exact unfinished effect early
      · rw [mem_singleton.mp start]
        rfl
    · obtain ⟨req,equal,_⟩ := carried effect sent
      rw [equal]
      rfl

end Invariant

section Loop

variable (ports : HarnessPorts World Observation) {limits : HarnessLimits} {ctx : RunContext World Observation}

theorem running_dispatch (running : Running limits ctx) (s : HarnessStateName)
    (admitted : Admitted s ctx) : Running limits (dispatch ports ctx s).2 := by
  obtain ⟨planning,modelCall⟩ := admitted
  rw [running.1.governed] at planning modelCall
  cases s with
  | planning => exact (running.iterate (planning rfl)).quiet (quiet_handlePlanning ports _)
  | modelCall =>
    obtain ⟨below,fits⟩ := modelCall rfl
    obtain ⟨requests,asked,quiet⟩ := handleModelCall_spec ports ctx
    exact (running.startModelCall ports below fits asked).quiet quiet
  | contextSelection => exact running.quiet (quiet_handleContextSelection ctx)
  | toolCall => exact running.quiet (quiet_runTools ports ctx _ _)
  | patchProposal => exact running.quiet (quiet_handlePatchProposal ports ctx)
  | verification => exact running.quiet (quiet_handleVerification ports ctx)
  | reporting => exact running.quiet (quiet_handleReporting ctx)
  | _ => exact running.quiet (quiet_fail ctx _ _)

theorem quiet_transition (fromState : HarnessStateName) (step : StateStep) :
    Quiet ctx (transition ports ctx fromState step).2 := by
  simp only [transition]
  refine Quiet.trans ?_ (quiet_emit ports _ _ rfl)
  split
  · exact .silent rfl rfl rfl rfl
  · exact .refl ctx

theorem running_loopBody (running : Running limits ctx) (s : HarnessStateName) :
    Running limits (loopBody ports ctx s).2 := by
  obtain ⟨guarded,admitted⟩ := checkGuards_spec ports ctx s
  simp only [loopBody]
  split
  next equal =>
    rw [equal] at guarded
    exact running.quiet (guarded.trans (quiet_transition ports _ _))
  next checked equal =>
    rw [equal] at guarded admitted
    have dispatched := running_dispatch ports (running.quiet guarded) s (admitted rfl)
    have waited := dispatched.quiet (quiet_await ports _)
    have timed := waited.quiet (quiet_checkWallTimePostDispatch ports _ (dispatch ports checked s).1)
    exact timed.quiet (quiet_transition ports _ _)

theorem running_runSteps (steps : Nat) (s : HarnessStateName) (running : Running limits ctx) :
    Running limits (runSteps ports steps (s,ctx)).2 := by
  induction steps generalizing s ctx with
  | zero => exact running
  | succ steps ih =>
    simp only [runSteps]
    split
    · exact running
    · split
      · exact running.quiet (quiet_transition ports _ _)
      · exact ih _ (running_loopBody ports running s)

theorem settle_spec (running : Running limits ctx) (s : HarnessStateName) :
    isTerminalHarnessState (settle ports ctx s).1 ∧ Running limits (settle ports ctx s).2 := by
  simp only [settle]
  split
  next terminal => exact ⟨terminal,running⟩
  next => exact ⟨rfl,running.quiet ((quiet_fail _ _ _).trans (quiet_transition ports _ _))⟩

/-- A run that is over: its last effect is the one terminal event, which tells the outcome. -/
structure Finished (limits : HarnessLimits) (outcome : HarnessStateName)
    (ctx : RunContext World Observation) : Prop where
  bounded : Bounded limits ctx
  terminal : isTerminalHarnessState outcome
  told : ∃ earlier event, ctx.trace = earlier ++ [Effect.emitted event] ∧
    event.isTerminal ∧ event.Tells outcome ∧ ∀ effect ∈ earlier, effect.isTerminal = false

theorem Running.finish (running : Running limits ctx) {out : HarnessStateName}
    (terminal : isTerminalHarnessState out) (ev : HarnessEvent) (ends : ev.isTerminal)
    (tells : ev.Tells out) : Finished limits out (ctx.emit ports ev) := by
  obtain ⟨bounded,unfinished⟩ := running
  refine ⟨{ bounded with started := ?_, requested := ?_, within := ?_ },terminal,
    ctx.trace,ev,rfl,ends,tells,unfinished⟩
  · have noStart : (Effect.emitted ev).isStart = false := by
      cases ev <;> first | rfl | cases ends
    simp [RunContext.emit,noStart,bounded.started]
  · simpa [RunContext.emit,countP_cons,Effect.isRequest] using bounded.requested
  · intro effect mem
    rcases mem_append.mp mem with early | last
    · exact bounded.within effect early
    · rw [mem_singleton.mp last]
      cases ev <;> trivial

theorem finished_emitTerminal (running : Running limits ctx) {s : HarnessStateName}
    (terminal : isTerminalHarnessState s) :
    Finished limits s (emitTerminal ports ctx s) := by
  cases s with
  | completed => exact running.finish ports rfl _ rfl rfl
  | cancelled => exact running.finish ports rfl _ rfl rfl
  | failed =>
    have recorded : Running limits { ctx with failure := terminalFailure ctx.failure .failed } :=
      running.quiet (.silent rfl rfl rfl rfl)
    exact recorded.finish ports rfl (.runFailed (ctx.failure.getD _) .failed) rfl ⟨.inl rfl,rfl⟩
  | limitExceeded =>
    have recorded : Running limits { ctx with failure := terminalFailure ctx.failure .limitExceeded } :=
      running.quiet (.silent rfl rfl rfl rfl)
    exact recorded.finish ports rfl (.runFailed (ctx.failure.getD _) .limitExceeded) rfl ⟨.inr rfl,rfl⟩
  | _ => cases terminal

theorem finished_runLoopWithin (steps : Nat) (running : Running limits ctx) :
    Finished limits (runLoopWithin ports steps ctx).1 (runLoopWithin ports steps ctx).2 := by
  have started : Running limits (intake ports ctx).2 := running.quiet (quiet_transition ports _ _)
  have stepped := running_runSteps ports steps (intake ports ctx).1 started
  obtain ⟨terminal,settled⟩ := settle_spec ports stepped (runSteps ports steps (intake ports ctx)).1
  exact finished_emitTerminal ports settled terminal

theorem running_buildContext (limits : HarnessLimits) (modelId : Text) (plan : TaskPlan)
    (messages : List ChatMessage) (world : World) :
    Running limits (buildContext ports limits modelId plan messages world) :=
  ⟨⟨rfl,Nat.zero_le _,Nat.zero_le _,rfl,Nat.le_refl _,by simp [buildContext]⟩,by simp [Unfinished,buildContext]⟩

end Loop

/-- However model, tools, clock, sinks and cancellation behave: a run of a session keeps within
its limits after every number of steps of the loop, and ends with an outcome, which its single
terminal event tells. -/
theorem runLoop_withinLimits (ports : HarnessPorts World Observation) (limits : HarnessLimits)
    (modelId : Text) (plan : TaskPlan) (messages : List ChatMessage) (world : World) :
    let ctx := buildContext ports limits modelId plan messages world
    (∀ steps, Running limits (runSteps ports steps (intake ports ctx)).2) ∧
      Finished limits (runLoop ports ctx).1 (runLoop ports ctx).2 := by
  intro ctx
  have running := running_buildContext ports limits modelId plan messages world
  constructor
  · intro steps
    exact running_runSteps ports steps _ (running.quiet (quiet_transition ports _ _))
  · exact finished_runLoopWithin ports maxLoopSteps running

end Keiko.Harness
