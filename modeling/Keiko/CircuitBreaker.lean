import Keiko.GatewayError
import Keiko.Library.Text
import Keiko.Library.Except
import Keiko.Library.Machine

/-! The circuit breaker of a provider. An admission is granted in the generation the
breaker is in and settles once; every change of state starts a new generation. The
events of many callers form one machine, whose notes are the settlements that counted. -/
namespace Keiko.Breaker
open Keiko.Library Keiko.Gateway

/-- The configuration parser accepts positive integers only. -/
structure CircuitBreakerConfig where
  failureThreshold : Nat
  cooldownMs : Nat
  halfOpenProbes : Nat
  failureThreshold_pos : 0 < failureThreshold
  cooldownMs_pos : 0 < cooldownMs
  halfOpenProbes_pos : 0 < halfOpenProbes

inductive CircuitState where
  | closed
  | «open»
  | halfOpen
  deriving DecidableEq

structure CircuitBreaker where
  state : CircuitState
  generation : Nat
  consecutiveFailures : Nat
  openedAt : Option ℚ
  probesRemaining : Int
  probesInFlight : Nat
  providerCooldownUntil : ℚ
  rejectedSinceTransition : Nat
  deriving DecidableEq

def initialBreaker : CircuitBreaker :=
  ⟨.closed,0,0,none,0,0,0,0⟩

structure CircuitBreakerAdmission where
  generation : Nat
  halfOpen : Bool
  settled : Bool
  deriving DecidableEq

structure CircuitOpenError where
  message : Text
  deriving DecidableEq

inductive Outcome where
  | success
  | failure
  | nonProviderFault
  deriving DecidableEq

section Admit

variable (modelId : Text) (config : CircuitBreakerConfig) (now : ℚ) (breaker : CircuitBreaker)

def noteRejection : CircuitBreaker :=
  {breaker with rejectedSinceTransition := breaker.rejectedSinceTransition + 1}

def circuitOpenError : CircuitOpenError :=
  ⟨"circuit open for model '".toList ++ modelId ++ "'".toList⟩

def circuitHalfOpenError : CircuitOpenError :=
  ⟨"circuit half-open for model '".toList ++ modelId ++ "'".toList⟩

def cooledDown : Bool :=
  match breaker.openedAt with
  | some openedAt => now - openedAt ≥ config.cooldownMs
  | none => false

/-- A refusal is thrown with the breaker as it leaves it. -/
def enterHalfOpenOrReject : Except (CircuitOpenError × CircuitBreaker) CircuitBreaker :=
  if cooledDown config now breaker then .ok {breaker with
      state := .halfOpen
      generation := breaker.generation + 1
      probesRemaining := config.halfOpenProbes
      probesInFlight := 0
      rejectedSinceTransition := 0}
  else .error ⟨circuitOpenError modelId,noteRejection breaker⟩

def admitProbeOrReject : Except (CircuitOpenError × CircuitBreaker) CircuitBreaker :=
  if breaker.probesInFlight ≥ config.halfOpenProbes then .error ⟨circuitHalfOpenError modelId,noteRejection breaker⟩
  else .ok {breaker with probesInFlight := breaker.probesInFlight + 1}

def createAdmission : CircuitBreakerAdmission :=
  ⟨breaker.generation,breaker.state = .halfOpen,false⟩

def assertAllowed : Except (CircuitOpenError × CircuitBreaker) (CircuitBreakerAdmission × CircuitBreaker) := do
  let breaker ← if breaker.state = .open then enterHalfOpenOrReject modelId config now breaker else pure breaker
  let breaker ← if breaker.state = .halfOpen then admitProbeOrReject modelId config breaker else pure breaker
  pure ⟨createAdmission breaker,breaker⟩

end Admit

section Settle

variable (config : CircuitBreakerConfig) (now : ℚ) (breaker : CircuitBreaker)

def openBreaker : CircuitBreaker :=
  {breaker with
    state := .open
    generation := breaker.generation + 1
    openedAt := some now
    probesRemaining := 0
    probesInFlight := 0
    rejectedSinceTransition := 0}

def closeBreaker : CircuitBreaker :=
  {breaker with
    state := .closed
    generation := breaker.generation + 1
    consecutiveFailures := 0
    openedAt := none
    probesRemaining := 0
    probesInFlight := 0
    rejectedSinceTransition := 0}

/-- `Math.max(0, probesInFlight - 1)`. -/
def releaseProbe : CircuitBreaker := {breaker with probesInFlight := breaker.probesInFlight - 1}

def recordSuccess : CircuitBreaker :=
  if breaker.state = .halfOpen then
    let released := {releaseProbe breaker with probesRemaining := breaker.probesRemaining - 1}
    if released.probesRemaining ≤ 0 then closeBreaker released else released
  else {breaker with consecutiveFailures := 0}

def recordFailure : CircuitBreaker :=
  if breaker.state = .halfOpen then openBreaker now (releaseProbe breaker)
  else
    let counted := {breaker with consecutiveFailures := breaker.consecutiveFailures + 1}
    if counted.consecutiveFailures ≥ config.failureThreshold then openBreaker now counted
    else counted

def recordNonProviderFault : CircuitBreaker :=
  if breaker.state ≠ .halfOpen then breaker else releaseProbe breaker

def canExtendClosedGenerationOutage (origin : CircuitBreakerAdmission) : Bool :=
  !origin.halfOpen && breaker.state = .open && breaker.generation = origin.generation + 1

def announcedCooldown (outcome : Outcome) (error : Option GatewayError) : Option ℚ :=
  match outcome,error with
  | .failure,some error =>
    if (isProviderError error || isRateLimitError error) && error.retryable then match error.retryAfterMs with
      | some (.finite cooldown) => if cooldown ≤ 0 then none else some cooldown
      | _ => none
    else none
  | _,_ => none

def announceProviderCooldown (outcome : Outcome) (error : Option GatewayError) : CircuitBreaker :=
  match announcedCooldown outcome error with
  | none => breaker
  | some cooldown =>
    {breaker with
      providerCooldownUntil := max breaker.providerCooldownUntil (now + min cooldown maxTimerDelayMs)}

def recordOutcome : Outcome → CircuitBreaker
  | .success => recordSuccess breaker
  | .failure => recordFailure config now breaker
  | .nonProviderFault => recordNonProviderFault breaker

def settleAdmission (origin : CircuitBreakerAdmission) (outcome : Outcome)
    (error : Option GatewayError) : CircuitBreaker :=
  let current := origin.generation = breaker.generation
  if ¬current ∧ ¬canExtendClosedGenerationOutage breaker origin then breaker
  else
    let announced := announceProviderCooldown now breaker outcome error
    if current then recordOutcome config now announced outcome else announced

def settle (admission : CircuitBreakerAdmission) (outcome : Outcome)
    (error : Option GatewayError) : CircuitBreakerAdmission × CircuitBreaker :=
  if admission.settled then ⟨admission,breaker⟩
  else ⟨{admission with settled := true},settleAdmission config now breaker admission outcome error⟩

def failureOutcome (error : GatewayError) (providerAdmitted : Bool) : Outcome :=
  if providerAdmitted && !isNonProviderFault error then .failure else .nonProviderFault

end Settle

structure Traffic where
  breaker : CircuitBreaker
  admissions : List CircuitBreakerAdmission
  now : ℚ

inductive Event where
  | assertAllowed
  | settle (admission : Nat) (outcome : Outcome) (error : Option GatewayError)
  | advance (elapsed : ℚ)

structure Settlement where
  admission : Nat
  generation : Nat
  outcome : Outcome
  deriving DecidableEq

section Machine

variable (modelId : Text) (config : CircuitBreakerConfig)

def step (traffic : Traffic) : Event → Traffic
  | .assertAllowed =>
    match assertAllowed modelId config traffic.now traffic.breaker with
    | .ok ⟨admission,breaker⟩ =>
      {traffic with breaker := breaker, admissions := traffic.admissions ++ [admission]}
    | .error ⟨_,breaker⟩ => {traffic with breaker := breaker}
  | .settle index outcome error =>
    match traffic.admissions[index]? with
    | none => traffic
    | some admission =>
      let settled := settle config traffic.now traffic.breaker admission outcome error
      {traffic with
        breaker := settled.2
        admissions := traffic.admissions.set index settled.1}
  | .advance elapsed => {traffic with now := traffic.now + elapsed}

def counted (traffic : Traffic) : Event → List Settlement
  | .settle index outcome _ =>
    match traffic.admissions[index]? with
    | none => []
    | some admission =>
      if !admission.settled && admission.generation = traffic.breaker.generation then
        [⟨index,admission.generation,outcome⟩]
      else []
  | _ => []

def traffic (now : ℚ) : Machine Traffic Event Settlement where
  start := ⟨initialBreaker,[],now⟩
  step := step modelId config
  notes := counted

end Machine

def outstanding (traffic : Traffic) : Nat :=
  traffic.admissions.countP fun admission =>
    !admission.settled && admission.generation = traffic.breaker.generation

end Keiko.Breaker
