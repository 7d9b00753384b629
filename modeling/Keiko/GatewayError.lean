import Keiko.Library.Number
import Keiko.Library.Text

/-! The errors of the model gateway, as far as the circuit breaker and the retry loop read
them: the class an error is an instance of and the provider's own hint to wait. -/
namespace Keiko.Gateway
open Keiko.Library

inductive ErrorClass where
  | rateLimit
  | provider
  | providerOutputExhausted
  | providerEmptyAnswer
  | timeout
  | cancelled
  | circuitOpen
  | configInvalid
  | malformedToolCall
  | callerAttemptAdmission
  /-- Any other subclass of `GatewayError`. -/
  | otherGateway
  /-- An error that is no `GatewayError`. -/
  | foreign
  deriving DecidableEq

structure GatewayError where
  kind : ErrorClass
  retryable : Bool
  retryAfterMs : Option Number
  afterReasoning : Bool
  message : Text
  deriving DecidableEq

/-- `error instanceof ProviderError`, which two more classes extend. -/
def isProviderError (error : GatewayError) : Bool :=
  error.kind ∈ [ErrorClass.provider,.providerOutputExhausted,.providerEmptyAnswer]

def isRateLimitError (error : GatewayError) : Bool := error.kind = .rateLimit

def nonProviderFaults : List ErrorClass :=
  [.callerAttemptAdmission,.cancelled,.configInvalid,.malformedToolCall,.providerOutputExhausted,.providerEmptyAnswer]

def isNonProviderFault (error : GatewayError) : Bool := error.kind ∈ nonProviderFaults

def cancelledError (message : Text) : GatewayError := ⟨.cancelled,false,none,false,message⟩

def maxTimerDelayMs : ℚ := 2147483647

end Keiko.Gateway
