import Keiko.Library.Text
import Keiko.Library.Trace

/-! The editor mutation leases: what is registered, claimed and settled, and who waits for it. The
coordinator is driven by calls and by the aborts of signals. The answer of a mutation guard is part
of the claim that asks it, and the signals that a revoked run aborts are part of its revocation. -/
namespace Keiko.MutationLease
open Keiko.Library

section Requests

structure GovernedAuthorityReference where
  runId : Text
  envelopeDigest : Text
  deriving DecidableEq

structure LeaseRequest where
  authorityRef : GovernedAuthorityReference
  runId : Option Text
  envelopeDigest : Option Text
  workspaceId : Option Text
  workspaceRootDigest : Text
  actionId : Text
  idempotencyKey : Text
  deriving DecidableEq

structure LeaseRegistration where
  authorityRef : GovernedAuthorityReference
  workspaceId : Text
  workspaceRootDigest : Text
  actionId : Text
  idempotencyKey : Text
  requiresReview : Bool
  deriving DecidableEq

structure LeaseRecord extends LeaseRegistration where
  id : Nat
  key : Text
  claimed : Bool
  deriving DecidableEq

def LeaseRecord.runId (record : LeaseRecord) : Text := record.authorityRef.runId

inductive MutationOutcome where
  | succeeded
  | failed
  | cancelled
  | rejected
  deriving DecidableEq, Repr

inductive MutationCompletion where
  | succeeded
  | failed
  | rejected
  deriving DecidableEq, Repr

inductive MutationIdleOutcome where
  | idleSucceeded
  | idleFailed
  | notIdle
  deriving DecidableEq, Repr

def recordKey (authorityRef : GovernedAuthorityReference) (actionId idempotencyKey : Text) : Text :=
  authorityRef.runId ++ Char.ofNat 0 :: actionId ++ Char.ofNat 0 :: idempotencyKey

/-- `/^[a-f0-9]{64}$/u`. -/
def isDigest (value : Text) : Bool :=
  value.length == 64 && value.all fun c => Text.isDigit c || ('a' ≤ c && c ≤ 'f')

def validRegistration (registration : LeaseRegistration) : Bool :=
  !registration.authorityRef.runId.isEmpty && isDigest registration.authorityRef.envelopeDigest &&
    !registration.workspaceId.isEmpty && isDigest registration.workspaceRootDigest &&
    !registration.actionId.isEmpty && !registration.idempotencyKey.isEmpty

def exactMatch (record : LeaseRecord) (request : LeaseRequest) : Bool :=
  request.runId.all (record.authorityRef.runId == ·) &&
    request.envelopeDigest.all (record.authorityRef.envelopeDigest == ·) &&
    record.authorityRef.envelopeDigest == request.authorityRef.envelopeDigest &&
    record.workspaceRootDigest == request.workspaceRootDigest &&
    request.workspaceId.all (record.workspaceId == ·)

/-- Only a claimed lease was applied, and a rejection counts only while nothing was claimed. -/
def settledMutationOutcome (completion : MutationCompletion) (claimed : Bool) : MutationOutcome :=
  match completion with
  | .succeeded => if claimed then .succeeded else .failed
  | .rejected => if claimed then .failed else .rejected
  | .failed => .failed

end Requests

section State

inductive Awaited where
  | mutation (lease : Nat)
  | idle
  deriving DecidableEq

structure Waiter where
  id : Nat
  signal : Nat
  awaits : Awaited
  deriving DecidableEq

/-- The live leases as they were registered, and the waits that are not answered as they began. -/
structure Coordinator where
  records : List LeaseRecord
  revokedRuns : List Text
  waiters : List Waiter
  latestSucceeded : Option Bool
  disposed : Bool
  aborted : List Nat
  registered : Nat
  waited : Nat

def Coordinator.empty : Coordinator := ⟨[],[],[],none,false,[],0,0⟩

/-- Why a lease was settled; `abandoned` tells if it had been claimed. -/
inductive Cause where
  | completed (completion : MutationCompletion)
  | refused
  | abandoned (claimed : Bool)
  | aborted
  | revoked
  | disposed
  deriving DecidableEq

/-- What the coordinator did, in the order in which it did it. A wait for a mutation names the lease
that it found. -/
inductive Note where
  | registered (lease : Nat) (runId : Text)
  | claimed (lease : Nat)
  | settled (lease : Nat) (cause : Cause) (outcome : MutationOutcome)
  | revoked (runId : Text)
  | closed (runId : Text)
  | cancelsPending (runId : Text)
  | aborted (signal : Nat)
  | disposed
  | waits (waiter signal : Nat) (lease : Option Nat)
  | resolved (waiter : Nat) (outcome : MutationOutcome)
  | waitsIdle (waiter signal : Nat)
  | idle (waiter : Nat) (verdict : MutationIdleOutcome)
  deriving DecidableEq

abbrev Effect := Library.Effect Coordinator Note

end State

section Settling

open Library.Effect

def findRecord (coordinator : Coordinator) (request : LeaseRequest) : Option LeaseRecord :=
  if coordinator.disposed then none
  else
    let key := recordKey request.authorityRef request.actionId request.idempotencyKey
    (coordinator.records.find? (·.key == key)).filter (exactMatch · request)

def idleOutcome (coordinator : Coordinator) : MutationIdleOutcome :=
  if coordinator.latestSucceeded == some false then .idleFailed else .idleSucceeded

def deleteRecord (record : LeaseRecord) : Effect :=
  update fun coordinator =>
    { coordinator with records := coordinator.records.filter (·.key != record.key) }

def mark (succeeded : Bool) : Effect :=
  update fun coordinator => { coordinator with latestSucceeded := some succeeded }

def answer (waiter : Waiter) (outcome : MutationOutcome) (aborted : List Nat) : Note :=
  .resolved waiter.id (if waiter.signal ∈ aborted then .cancelled else outcome)

def settleMutation (record : LeaseRecord) (cause : Cause) (outcome : MutationOutcome) : Effect :=
  fun coordinator =>
    ({ coordinator with waiters := coordinator.waiters.filter (·.awaits != .mutation record.id) },
      .settled record.id cause outcome :: (coordinator.waiters.filter (·.awaits == .mutation record.id)).map
          (answer · outcome coordinator.aborted))

def settleIdleWaiters (verdict : MutationIdleOutcome) : Effect := fun coordinator =>
  ({ coordinator with waiters := coordinator.waiters.filter (·.awaits != .idle) },
    (coordinator.waiters.filter (·.awaits == .idle)).map fun waiter => .idle waiter.id verdict)

def settleIfIdle : Effect := fun coordinator =>
  if coordinator.records.isEmpty then settleIdleWaiters (idleOutcome coordinator) coordinator
  else skip coordinator

def cancelUnclaimedMutation (lease : Nat) : Effect := fun coordinator =>
  match coordinator.records.find? (·.id == lease) with
  | none => skip coordinator
  | some record =>
    if record.claimed then skip coordinator
    else (deleteRecord record).andThen ((settleMutation record .aborted .cancelled).andThen
        (settleIfIdle.andThen (note (.cancelsPending record.runId)))) coordinator

def onAbort (waiter : Waiter) : Effect := fun coordinator =>
  if waiter ∈ coordinator.waiters then
    let left := update fun coordinator : Coordinator =>
      { coordinator with waiters := coordinator.waiters.filter (· != waiter) }
    match waiter.awaits with
    | .idle => left.andThen (note (.idle waiter.id .notIdle)) coordinator
    | .mutation lease =>
      left.andThen ((cancelUnclaimedMutation lease).andThen (note (.resolved waiter.id .cancelled))) coordinator
  else skip coordinator

def abort (signal : Nat) : Effect := fun coordinator =>
  if signal ∈ coordinator.aborted then skip coordinator
  else (Effect.andThen (fun coordinator : Coordinator =>
        ({ coordinator with aborted := signal :: coordinator.aborted },[.aborted signal]))
      (forEach onAbort (coordinator.waiters.filter (·.signal == signal)))) coordinator

end Settling

section Operations

open Library.Effect

abbrev Operation := Coordinator → Bool × Coordinator × List Note

def registerRecord (registration : LeaseRegistration) : Operation := fun coordinator =>
  let key := recordKey registration.authorityRef registration.actionId registration.idempotencyKey
  if coordinator.disposed || coordinator.revokedRuns.contains registration.authorityRef.runId ||
      decide (64 ≤ coordinator.records.length) || coordinator.records.any (·.key == key) ||
      !validRegistration registration then (false,skip coordinator)
  else
    let record : LeaseRecord := { registration with id := coordinator.registered, key, claimed := false }
    (true,{ coordinator with
        records := coordinator.records ++ [record]
        registered := coordinator.registered + 1 },
      [.registered coordinator.registered registration.authorityRef.runId])

variable (request : LeaseRequest)

def claimRecord (allowed : Bool) : Operation := fun coordinator =>
  match findRecord coordinator request with
  | none => (false,skip coordinator)
  | some record =>
    if record.claimed then (false,skip coordinator)
    else if allowed then (true,{ coordinator with records := coordinator.records.map fun other =>
          if other.id == record.id then { other with claimed := true } else other },
        [.claimed record.id])
    else (false,(deleteRecord record).andThen ((settleMutation record .refused .failed).andThen
        ((mark false).andThen settleIfIdle)) coordinator)

def completeRecord (completion : MutationCompletion) : Operation :=
  fun coordinator =>
    match findRecord coordinator request with
    | none => (false,skip coordinator)
    | some record =>
      let settled := settledMutationOutcome completion record.claimed
      let marked := if settled ≠ .rejected then mark (settled == .succeeded) else skip
      (true,(deleteRecord record).andThen (marked.andThen
        ((settleMutation record (.completed completion) settled).andThen settleIfIdle)) coordinator)

def discardUnclaimedLease : Operation := fun coordinator =>
  match findRecord coordinator request with
  | none => (false,skip coordinator)
  | some record =>
    let marked := if record.claimed then mark false else skip
    (true,(deleteRecord record).andThen ((settleMutation record (.abandoned record.claimed) .failed).andThen
      (marked.andThen settleIfIdle)) coordinator)

/-- Revokes a run, where the registry of invocations aborts signals before the leases are settled. -/
def revokeRun (runId : Text) (aborts : List Nat) : Operation := fun coordinator =>
  if coordinator.disposed || coordinator.revokedRuns.contains runId then (false,skip coordinator)
  else
    let revoked : Effect := fun coordinator =>
      ({ coordinator with revokedRuns := runId :: coordinator.revokedRuns },[.revoked runId])
    let cancelled : Effect := fun coordinator =>
      forEach (fun record => (deleteRecord record).andThen (settleMutation record .revoked .cancelled))
        (coordinator.records.filter (·.runId == runId)) coordinator
    (true,revoked.andThen ((forEach abort aborts).andThen (cancelled.andThen
      ((mark false).andThen ((note (.closed runId)).andThen
        (settleIfIdle.andThen (note (.cancelsPending runId))))))) coordinator)

def dispose : Effect := fun coordinator =>
  let closed : Effect := fun coordinator => ({ coordinator with disposed := true },[.disposed])
  (closed.andThen ((forEach (settleMutation · .disposed .cancelled) coordinator.records).andThen
    ((update fun coordinator => { coordinator with records := [] }).andThen (settleIdleWaiters .notIdle)))) coordinator

def begin (waits : Nat → Note) : Effect := fun coordinator =>
  ({ coordinator with waited := coordinator.waited + 1 },[waits coordinator.waited])

def wait (waiter : Waiter) : Effect :=
  update fun coordinator => { coordinator with waiters := coordinator.waiters ++ [waiter] }

def waitForMutation (signal : Nat) : Effect := fun coordinator =>
  match findRecord coordinator request with
  | none =>
    (begin (.waits · signal none)).andThen (note (.resolved coordinator.waited .failed)) coordinator
  | some record =>
    let begins := begin (.waits · signal (some record.id))
    if signal ∈ coordinator.aborted then begins.andThen ((cancelUnclaimedMutation record.id).andThen
        (note (.resolved coordinator.waited .cancelled))) coordinator
    else begins.andThen (wait ⟨coordinator.waited,signal,.mutation record.id⟩) coordinator

def waitForIdle (signal : Nat) : Effect := fun coordinator =>
  let begins := begin (.waitsIdle · signal)
  if coordinator.disposed ∨ signal ∈ coordinator.aborted then
    begins.andThen (note (.idle coordinator.waited .notIdle)) coordinator
  else if coordinator.records.isEmpty then
    begins.andThen (note (.idle coordinator.waited (idleOutcome coordinator))) coordinator
  else begins.andThen (wait ⟨coordinator.waited,signal,.idle⟩) coordinator

end Operations

section Calls

inductive Call where
  | register (registration : LeaseRegistration)
  | claim (request : LeaseRequest) (allowed : Bool)
  | complete (request : LeaseRequest) (succeeded : Bool)
  | reject (request : LeaseRequest)
  | discardLease (request : LeaseRequest)
  | discard (request : LeaseRequest)
  | revokeRun (runId : Text) (aborts : List Nat)
  | waitForMutation (request : LeaseRequest) (signal : Nat)
  | waitForIdle (signal : Nat)
  | abort (signal : Nat)
  | dispose
  deriving DecidableEq

/-- The effect of a call; `discardLease` is the discard of the lease port. -/
def effect : Call → Effect
  | .register registration => fun coordinator => (registerRecord registration coordinator).2
  | .claim request allowed => fun coordinator => (claimRecord request allowed coordinator).2
  | .complete request succeeded => fun coordinator =>
    (completeRecord request (if succeeded then .succeeded else .failed) coordinator).2
  | .reject request => fun coordinator => (completeRecord request .rejected coordinator).2
  | .discardLease request => fun coordinator => (completeRecord request .failed coordinator).2
  | .discard request => fun coordinator => (discardUnclaimedLease request coordinator).2
  | .revokeRun runId aborts => fun coordinator => (revokeRun runId aborts coordinator).2
  | .waitForMutation request signal => waitForMutation request signal
  | .waitForIdle signal => waitForIdle signal
  | .abort signal => abort signal
  | .dispose => dispose

def machine : Machine Coordinator Call Note where
  start := Coordinator.empty
  step coordinator call := (effect call coordinator).1
  notes coordinator call := (effect call coordinator).2

end Calls

end Keiko.MutationLease
