import Keiko.GatewayError
import Keiko.Library.Machine
import Mathlib.Order.WithBot
import Mathlib.Algebra.Order.Field.Rat

/-! The retry loop of a gateway call. One round of the loop is an attempt with what follows
its failure; everything the loop does not decide itself (the answers, the readings of the
clock, the jitter, cancellation) comes with the round. -/
namespace Keiko.Retry
open Keiko.Library Keiko.Gateway

inductive RetryPolicy where
  | attempts
  | outageWindow
  deriving DecidableEq

inductive RetryRepairReason where
  | outputExhaustedRepair
  | emptyAnswerRepair
  deriving DecidableEq

def steeredAnswerRepair (error : GatewayError) : Option RetryRepairReason :=
  if error.kind = .providerOutputExhausted then some .outputExhaustedRepair
  else if error.kind = .providerEmptyAnswer ∧ error.afterReasoning then some .emptyAnswerRepair
  else none

structure RetryConfig where
  jitterProviderCooldown : Bool
  maxRetries : Nat
  retryBaseDelayMs : Nat
  timeoutMs : Option ℚ
  attemptTimeoutMs : Option ℚ
  retryWindowMs : Option ℚ
  repair : Option (GatewayError → Option RetryRepairReason)

/-- What `Math.random` returns. -/
structure Jitter where
  value : ℚ
  nonneg : 0 ≤ value
  lt_one : value < 1

def maxBackoffMs : ℚ := 30000

def repairReason (config : RetryConfig) (error : GatewayError) : Option RetryRepairReason :=
  config.repair.bind fun repair => repair error

section Delay

variable (config : RetryConfig) (error : GatewayError)

def decisionWindowMs : Option ℚ := if isNonProviderFault error then none else config.retryWindowMs

def retryPolicyFor : RetryPolicy :=
  if decisionWindowMs config error = none then .attempts else .outageWindow

def maxBackoffDelayMs (attempt : Int) (base : ℚ) : ℚ := min (base * 2 ^ (attempt - 1)) maxBackoffMs

def backoffDelayMs (attempt : Int) (base : ℚ) (random : Jitter) : ℚ :=
  ⌊maxBackoffDelayMs attempt base * (1 / 2 + 1 / 2 * random.value) + 1 / 2⌋

def isRetryableError : Bool := error.kind ≠ .foreign && error.retryable

def providerRetryAfterMs : Option Number :=
  if isRateLimitError error || isProviderError error then error.retryAfterMs else none

def retryDelayMs (attempt : Int) (base : ℚ) (random : Jitter) (jitterProviderCooldown : Bool) : ℚ :=
  match providerRetryAfterMs error with
  | some (.finite retryAfterMs) =>
    if 0 < retryAfterMs then
      let jitter := if jitterProviderCooldown then max 1 (backoffDelayMs attempt base random) else 0
      min (retryAfterMs + jitter) maxTimerDelayMs
    else backoffDelayMs attempt base random
  | _ => backoffDelayMs attempt base random

end Delay

inductive RetryDecision where
  | sleep (sleepMs : ℚ) (repair : Option RetryRepairReason)
  | terminal
  | maxRetries
  | budget (delayMs : ℚ) (remainingMs : WithTop ℚ)

structure RetryBudget where
  remainingMs : WithTop ℚ
  elapsedMs : ℚ

section Decision

variable (lastError : GatewayError) (config : RetryConfig) (budget : RetryBudget)

def repairDecision (repairs : Nat) : Option RetryDecision :=
  match if repairs = 0 then repairReason config lastError else none with
  | none => none
  | some repair =>
    if budget.remainingMs ≤ 0 then some (.budget 0 budget.remainingMs)
    else some (.sleep 0 (some repair))

def remainingForRetry : WithTop ℚ :=
  match decisionWindowMs config lastError with
  | none => budget.remainingMs
  | some windowMs => max 0 (min budget.remainingMs (windowMs - budget.elapsedMs : ℚ))

/-- `shouldRetry` is the answer of the callback, where the call has one. -/
def retryDecision (shouldRetry : Option Bool) (attempt : Int) (random : Jitter) : RetryDecision :=
  if !isRetryableError lastError || shouldRetry = some false then .terminal
  else if decisionWindowMs config lastError = none ∧ attempt > config.maxRetries then .maxRetries
  else
    let delayMs := retryDelayMs lastError attempt config.retryBaseDelayMs random config.jitterProviderCooldown
    let remainingMs := remainingForRetry lastError config budget
    if (delayMs : WithTop ℚ) ≥ remainingMs then .budget delayMs remainingMs
    else .sleep delayMs none

end Decision

/-- `Number.POSITIVE_INFINITY` where the call has no budget. -/
def remainingBudgetMs (timeoutMs : Option ℚ) (elapsedMs : ℚ) : WithTop ℚ :=
  match timeoutMs with
  | none => ⊤
  | some timeoutMs => (max 0 (timeoutMs - elapsedMs) : ℚ)

def attemptTimeoutFor (config : RetryConfig) (remainingMs : WithTop ℚ) : Option ℚ :=
  match min remainingMs (match config.attemptTimeoutMs with
    | none => ⊤
    | some bound => (bound : WithTop ℚ)) with
  | ⊤ => none
  | (bound : ℚ) => some (max 1 ⌊bound⌋)

def admissionBudgetFor (config : RetryConfig) (remainingMs : WithTop ℚ) (elapsedMs : ℚ) : WithTop ℚ :=
  match config.retryWindowMs with
  | none => remainingMs
  | some windowMs => max 1 (min remainingMs (windowMs - elapsedMs : ℚ))

inductive CircuitWaitReason where
  | providerCooldown
  | circuitCooldown
  | probeSaturated
  deriving DecidableEq

inductive CallOutcome where
  | answered
  | failed
  deriving DecidableEq

inductive GatewayRetryNotice where
  | scheduled (attempt : Int) (retryPolicy : RetryPolicy)
  | admissionWait (reason : CircuitWaitReason) (retryPolicy : RetryPolicy)
  | settled (outcome : CallOutcome)
  deriving DecidableEq

structure RetryAnnouncer where
  owed : Bool

structure Attempted where
  elapsedMs : ℚ
  remainingMs : WithTop ℚ
  attemptTimeoutMs : Option ℚ
  previousError : Option GatewayError
  admissionBudgetMs : WithTop ℚ

structure Scheduled where
  error : GatewayError
  repair : Option RetryRepairReason
  budgetElapsedMs : ℚ
  windowElapsedMs : ℚ
  sleepMs : ℚ

inductive Effect where
  | attempted (attempted : Attempted)
  | scheduled (scheduled : Scheduled)
  | notice (notice : GatewayRetryNotice)

structure RetryState where
  start : ℚ
  attempt : Nat
  repairs : Nat
  lastError : Option GatewayError
  announcer : Option RetryAnnouncer

section Announce

variable (state : RetryState)

def announce (notice : GatewayRetryNotice) : RetryState × List Effect :=
  match state.announcer with
  | none => ⟨state,[]⟩
  | some _ => ⟨{state with announcer := some ⟨true⟩},[.notice notice]⟩

def announceSettled (outcome : CallOutcome) : RetryState × List Effect :=
  match state.announcer with
  | none => ⟨state,[]⟩
  | some announcer =>
    if !announcer.owed then ⟨state,[]⟩
    else ⟨{state with announcer := some ⟨false⟩},[.notice (.settled outcome)]⟩

def announceWaits : RetryState → List (CircuitWaitReason × RetryPolicy) → RetryState × List Effect
  | state,[] => ⟨state,[]⟩
  | state,⟨reason,retryPolicy⟩ :: waits =>
    let first := announce state (.admissionWait reason retryPolicy)
    let rest := announceWaits first.1 waits
    ⟨rest.1,first.2 ++ rest.2⟩

def announceProviderRetry (error : GatewayError) (repair : Option RetryRepairReason)
    (retryPolicy : RetryPolicy) : RetryState × List Effect :=
  if repair.isSome || isNonProviderFault error then ⟨state,[]⟩
  else announce state (.scheduled (state.attempt - state.repairs) retryPolicy)

end Announce

inductive SleepOutcome where
  | completed
  | abortedBefore
  | abortedDuring
  | abortedAfter
  | rejected (error : GatewayError)

def sleepWithCancellation : SleepOutcome → Except GatewayError Unit
  | .completed => .ok ⟨⟩
  | .abortedBefore => .error (cancelledError "request cancelled during retry".toList)
  | .abortedDuring => .error (cancelledError "request cancelled during retry backoff".toList)
  | .abortedAfter => .error (cancelledError "request cancelled during retry".toList)
  | .rejected error => .error error

structure Backoff where
  failedAt : ℚ
  shouldRetry : Option Bool
  decidedAt : ℚ
  random : Jitter
  slept : SleepOutcome

inductive AttemptOutcome (α : Type) where
  | answered (value : α)
  | failed (error : GatewayError)
  /-- The admission was refused before the provider was called. -/
  | refused (error : GatewayError) (originalError : Option GatewayError)

structure Round (α : Type) where
  aborted : Bool
  startedAt : ℚ
  admittedAt : ℚ
  waits : List (CircuitWaitReason × RetryPolicy)
  outcome : AttemptOutcome α
  backoff : Backoff

inductive Loop (α : Type) where
  | resuming (state : RetryState) (failedAttempt : GatewayError)
  | attempting (state : RetryState)
  | answered (state : RetryState) (value : α)
  | failed (state : RetryState) (error : GatewayError)

section Loop

variable {α : Type} (config : RetryConfig) (state : RetryState)

/-- The `fail` of the loop. -/
def fail (error : GatewayError) : Loop α × List Effect :=
  let settled := announceSettled state .failed
  ⟨.failed settled.1 error,settled.2⟩

def recordFailedAttempt (error : GatewayError) (backoff : Backoff) : Loop α × List Effect :=
  let state := {state with lastError := some error}
  let failedMs := backoff.failedAt - state.start
  let budget : RetryBudget :=
    ⟨remainingBudgetMs config.timeoutMs failedMs,backoff.decidedAt - state.start⟩
  match (repairDecision error config budget state.repairs).getD
      (retryDecision error config budget backoff.shouldRetry (state.attempt - state.repairs) backoff.random) with
  | .sleep sleepMs repair =>
    let state := if repair.isSome then {state with repairs := state.repairs + 1} else state
    let announced := announceProviderRetry state error repair (retryPolicyFor config error)
    let scheduled := .scheduled ⟨error,repair,failedMs,budget.elapsedMs,sleepMs⟩
    match sleepWithCancellation backoff.slept with
    | .ok _ =>
      ⟨.attempting {announced.1 with attempt := announced.1.attempt + 1},scheduled :: announced.2⟩
    | .error error =>
      let failed := fail announced.1 error
      ⟨failed.1,scheduled :: announced.2 ++ failed.2⟩
  | _ => fail state error

def operationCall (round : Round α) : Attempted :=
  let elapsedMs := round.startedAt - state.start
  let remainingMs := remainingBudgetMs config.timeoutMs elapsedMs
  ⟨elapsedMs,remainingMs,attemptTimeoutFor config remainingMs,state.lastError,
    admissionBudgetFor config remainingMs (round.admittedAt - state.start)⟩

def executeRetryAttempt (round : Round α) : Loop α × List Effect :=
  if config.retryWindowMs = none ∧ (state.attempt : Int) - state.repairs > config.maxRetries + 1 then
    fail state (state.lastError.getD
      (cancelledError "request timeout budget exhausted after retries".toList))
  else if round.aborted then fail state (cancelledError "request cancelled during retry".toList)
  else if remainingBudgetMs config.timeoutMs (round.startedAt - state.start) ≤ 0 then fail state (state.lastError.getD
      (cancelledError "request timeout budget exhausted before provider call".toList))
  else
    let attempted := .attempted (operationCall config state round)
    let waited := announceWaits state round.waits
    match round.outcome with
    | .answered value =>
      let settled := announceSettled waited.1 .answered
      ⟨.answered settled.1 value,attempted :: waited.2 ++ settled.2⟩
    | .refused error originalError =>
      let failed := fail waited.1 (originalError.getD error)
      ⟨failed.1,attempted :: waited.2 ++ failed.2⟩
    | .failed error =>
      let recorded := recordFailedAttempt config waited.1 error round.backoff
      ⟨recorded.1,attempted :: waited.2 ++ recorded.2⟩

end Loop

structure RetryResume where
  failedAttempt : GatewayError
  attempts : Option Nat
  repairs : Option Nat

section Machine

variable {α : Type} (config : RetryConfig)

def advance (loop : Loop α) (round : Round α) : Loop α × List Effect :=
  match loop with
  | .resuming state failedAttempt => recordFailedAttempt config state failedAttempt round.backoff
  | .attempting state => executeRetryAttempt config state round
  | finished => ⟨finished,[]⟩

def executeWithRetry (α : Type) (start : ℚ) (announcer : Option RetryAnnouncer)
    (resume : Option RetryResume) : Machine (Loop α) (Round α) Effect where
  start := match resume with
    | none => .attempting ⟨start,1,0,none,announcer⟩
    | some resume =>
      .resuming ⟨start,resume.attempts.getD 1,resume.repairs.getD 0,none,announcer⟩ resume.failedAttempt
  step := fun loop round => (advance config loop round).1
  notes := fun loop round => (advance config loop round).2

end Machine

structure StreamAttemptState where
  count : Nat
  steered : Bool

section Call

variable {α : Type} (config : RetryConfig)

def streamResume (state : StreamAttemptState) (failedAttempt : Option GatewayError) : Option RetryResume :=
  failedAttempt.map fun failedAttempt =>
    ⟨failedAttempt,some state.count,some (if state.steered then 1 else 0)⟩

def prepareStreamAttempts (state : StreamAttemptState) (effects : List Effect) :
    StreamAttemptState :=
  effects.foldl (fun state effect =>
    match effect with
    | .attempted attempted =>
      ⟨state.count + 1,state.steered || (attempted.previousError.bind (repairReason config)).isSome⟩
    | _ => state) state

structure Leg (α : Type) where
  start : ℚ
  timeoutMs : Option ℚ
  retryWindowMs : ℚ
  announcer : Option RetryAnnouncer
  rounds : List (Round α)
  failedAttempt : GatewayError

def Leg.policy (leg : Leg α) : RetryConfig :=
  {config with
    timeoutMs := leg.timeoutMs
    retryWindowMs := config.retryWindowMs.map fun _ => leg.retryWindowMs}

/-- A call goes on after a loop that answered. -/
def callEffects (state : StreamAttemptState) (failedAttempt : Option GatewayError) : List (Leg α) → List Effect
  | [] => []
  | leg :: legs =>
    let loop := executeWithRetry (leg.policy config) α leg.start leg.announcer (streamResume state failedAttempt)
    let effects := loop.noted leg.rounds
    match loop.run leg.rounds with
    | .answered _ _ =>
      effects ++ callEffects (prepareStreamAttempts config state effects) (some leg.failedAttempt) legs
    | _ => effects

end Call

end Keiko.Retry
