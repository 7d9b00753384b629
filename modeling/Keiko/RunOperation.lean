import Keiko.Library.Trace
import Keiko.RuntimeEvent

/-! The operations on one run: the requests that are admitted against its revision, and the turns
whose outcomes settle it. Operations take turns in the serial section of the orchestrator, which
also starts the run and continues it; what a port or a dispatcher answers, the end of a turn and
what else moves the run come between their steps at any moment. -/
namespace Keiko.RunOperation
open Keiko.Library Keiko.Runtime

section State

inductive TaskOutcome where
  | cancelled
  | failed
  | succeeded
  deriving DecidableEq, Repr

structure Snapshot where
  state : CodingWorkbenchRuntimeStateName
  revision : Nat
  deriving DecidableEq

/-- A request id that is taken at a revision, with the ids that were committed then. -/
structure Reservation where
  requestId : Text
  liveRevision : Nat
  committed : List (Text × Nat)
  deriving DecidableEq

structure PendingTaskGeneration where
  previousGeneration : Nat
  generation : Nat
  predecessorOutcome : Option (Nat × TaskOutcome)
  deriving DecidableEq

inductive Job where
  | preparing (requestId : Text) (current : Snapshot)
  | starting (reservation : Reservation) (current : Snapshot)
  | resuming (reservation : Reservation) (current : Snapshot)
  | dispatching (reservation : Reservation) (live : Snapshot) (generation : Option Nat)
  | delivering (reservation : Reservation) (live : Snapshot)
  | reverting (reservation : Reservation) (current : Snapshot) (generation : Option Nat)
  | mutating (reservation : Reservation) (current : Snapshot)
  | listing (reservation : Reservation)
  deriving DecidableEq

/-- The run's row, whether it is the active run and the held one, what the replay coordinator and
the task generations hold for it, and its turns that did not end, each with its generation. -/
structure Run where
  row : Snapshot
  isCurrent : Bool
  isHeld : Bool
  committed : List (Text × Nat)
  pending : List Text
  generation : Nat
  pendingGeneration : Option PendingTaskGeneration
  job : Option Job
  turns : Nat
  outstanding : List (Nat × Nat)

/-- What happened, in order. A request is sent when its dispatcher or port is called, and accepted
at the revision that it was applied at. -/
inductive Note where
  | refused (failureCode : Text)
  | sent (requestId : Text) (expectedRevision : Nat)
  | accepted (requestId : Text) (expectedRevision appliedRevision : Nat)
  | released (requestId : Text)
  | reserved
  | kept
  | restored
  | began (turn generation : Nat)
  | ended (turn : Nat) (outcome : TaskOutcome)
  | settled (turn : Nat) (outcome : TaskOutcome)
  deriving DecidableEq

abbrev Effect := Library.Effect Run Note

def Run.current (run : Run) : Option Snapshot := if run.isCurrent then some run.row else none

def Run.held (run : Run) : Option Snapshot := if run.isHeld then some run.row else none

end State

section Replay

inductive Rejection where
  | capExhausted
  | duplicate
  deriving DecidableEq, Repr

def replayCommittedCap : Nat := 512

def evictSuperseded (committed : List (Text × Nat)) (liveRevision : Nat) : List (Text × Nat) :=
  committed.filter fun record => !decide (record.2 + 1 < liveRevision)

def hasId (committed : List (Text × Nat)) (requestId : Text) : Bool :=
  committed.any (·.1 == requestId)

def reserve (run : Run) (requestId : Text) (liveRevision : Nat) : Run × Except Rejection Reservation :=
  let committed := evictSuperseded run.committed liveRevision
  let run := { run with committed }
  if replayCommittedCap ≤ committed.length then (run,.error .capExhausted)
  else if hasId committed requestId || run.pending.contains requestId then (run,.error .duplicate)
  else ({ run with pending := run.pending ++ [requestId] },.ok ⟨requestId,liveRevision,committed⟩)

def release (reservation : Reservation) : Effect := fun run =>
  ({ run with pending := run.pending.erase reservation.requestId },[.released reservation.requestId])

def commit (reservation : Reservation) (appliedRevision : Nat) : Effect := fun run =>
  ({ run with
      committed := reservation.committed.filter (·.1 != reservation.requestId) ++
        [(reservation.requestId,appliedRevision)]
      pending := run.pending.erase reservation.requestId },
    [.accepted reservation.requestId reservation.liveRevision appliedRevision])

end Replay

section Turns

open Library.Effect

def reserveTaskGeneration : Effect := fun run =>
  ({ run with
      pendingGeneration := some ⟨run.generation,run.generation + 1,none⟩
      generation := run.generation + 1 },[.reserved])

def commitTaskGeneration : Effect := fun run =>
  match run.pendingGeneration with
  | none => skip run
  | some _ => ({ run with pendingGeneration := none },[.kept])

def releaseTaskGeneration : Effect := fun run =>
  match run.pendingGeneration with
  | none => skip run
  | some pending =>
    ({ run with pendingGeneration := none, generation := pending.previousGeneration },
      .restored :: pending.predecessorOutcome.toList.map fun ended => .settled ended.1 ended.2)

def settleGenerationReservation (generation : Option Nat) (accepted : Bool) : Effect :=
  match generation with
  | none => skip
  | some _ => if accepted then commitTaskGeneration else releaseTaskGeneration

def observeTaskCompletion (generation : Option Nat) : Effect := fun run =>
  let next := generation.getD (run.generation + 1)
  ({ run with
      generation := if generation.isSome then run.generation else next
      turns := run.turns + 1
      outstanding := run.outstanding ++ [(run.turns,next)] },[.began run.turns next])

def settleTaskCompletion (turn generation : Nat) (outcome : TaskOutcome) : Effect := fun run =>
  if run.generation = generation then (run,[.settled turn outcome])
  else match run.pendingGeneration with
    | none => skip run
    | some pending =>
      if pending.previousGeneration = generation then
        let kept := { pending with predecessorOutcome := some (turn,outcome) }
        ({ run with pendingGeneration := some kept },[])
      else skip run

def completeTurn (turn : Nat) (outcome : TaskOutcome) : Effect := fun run =>
  match run.outstanding.find? (·.1 == turn) with
  | none => skip run
  | some (_,generation) =>
    Effect.andThen (fun run : Run =>
        ({ run with outstanding := run.outstanding.filter (·.1 != turn) },[.ended turn outcome]))
      (settleTaskCompletion turn generation outcome) run

end Turns

section Admission

open Library.Effect

inductive RevisionPolicy where
  | exact
  | staleRead
  deriving DecidableEq, Repr

def followUpStates : List CodingWorkbenchRuntimeStateName := [.running,.paused]

def heldStates : List CodingWorkbenchRuntimeStateName := [.succeeded,.failed]

/-- `/^[A-Za-z0-9][A-Za-z0-9._:-]{0,127}$/u`. -/
def validRequestId (value : Text) : Bool := isSafeIdentifier value

def revisionAdmitted (candidate current : Nat) (policy : RevisionPolicy) : Bool :=
  candidate == current || (policy == .staleRead && decide (candidate < current))

def admitRuntimeOperation (target : Option Snapshot) (states : List CodingWorkbenchRuntimeStateName)
    (requestId : Text) (expectedRevision : Nat) (policy : RevisionPolicy) : Option Snapshot :=
  target.filter fun snapshot => states.contains snapshot.state && validRequestId requestId &&
    revisionAdmitted expectedRevision snapshot.revision policy

def invalidIntent : Text := "invalid-intent".toList

def rejectionCode : Rejection → Text
  | .capExhausted => "replay-cap-exhausted".toList
  | .duplicate => invalidIntent

def prepare (run : Run) (target : Option Snapshot) (states : List CodingWorkbenchRuntimeStateName)
    (requestId : Text) (expectedRevision : Nat) (policy : RevisionPolicy) :
    Run × Except Text (Snapshot × Reservation) :=
  match admitRuntimeOperation target states requestId expectedRevision policy with
  | none => (run,.error invalidIntent)
  | some snapshot =>
    match reserve run requestId snapshot.revision with
    | (run,.error rejection) => (run,.error (rejectionCode rejection))
    | (run,.ok reservation) => (run,.ok (snapshot,reservation))

def refuse (failureCode : Text) : Effect := note (.refused failureCode)

def finish : Effect := update fun run => { run with job := none }

def await (job : Job) : Effect := update fun run => { run with job := some job }

def send (reservation : Reservation) (job : Job) : Effect := fun run =>
  ({ run with job := some job },[.sent reservation.requestId reservation.liveRevision])

/-- Moves the run one revision past the one that an operation was admitted at, unless it moved
meanwhile. -/
def advanceRevision (current : Snapshot) : Effect := fun run =>
  if current.revision < run.row.revision then refuse invalidIntent run
  else ({ run with row := ⟨current.state,current.revision + 1⟩ },[])

end Admission

section Operations

open Library.Effect

/-- A follow-up whose body the contract admits; `validTaskIntent` tells of its text, and `delivery`
if it joins the running turn. -/
structure FollowUp where
  requestId : Text
  expectedRevision : Nat
  validTaskIntent : Bool
  delivery : Bool
  deriving DecidableEq

def submitFollowUp (request : FollowUp) : Effect := fun run =>
  match prepare run run.current followUpStates request.requestId request.expectedRevision .exact with
  | (run,.error failureCode) => refuse failureCode run
  | (run,.ok (current,reservation)) =>
    let live := run.current.getD current
    if request.validTaskIntent && (!request.delivery || current.state == .running) then
      if request.delivery then send reservation (.delivering reservation live) run
      else if current.state = .paused then await (.resuming reservation current) run
      else send reservation (.dispatching reservation live none) run
    else ((release reservation).andThen (refuse invalidIntent)) run

inductive RevertAction where
  | undo
  | restore
  deriving DecidableEq, Repr

/-- A revert; without an action it is not admissible, or the dispatcher reverts nothing. -/
structure Revert where
  requestId : Text
  expectedRevision : Nat
  action : Option RevertAction
  deriving DecidableEq

def submitRevert (request : Revert) : Effect := fun run =>
  let prepared :=
    if run.isHeld && !run.isCurrent then
      prepare run run.held heldStates request.requestId request.expectedRevision .exact
    else prepare run run.current followUpStates request.requestId request.expectedRevision .exact
  match prepared with
  | (run,.error failureCode) => refuse failureCode run
  | (run,.ok (current,reservation)) =>
    match request.action with
    | none => ((release reservation).andThen (refuse invalidIntent)) run
    | some action =>
      -- A held run has no turn in flight whose outcome an undo would have to drop.
      if action == .undo && !heldStates.contains current.state then (reserveTaskGeneration.andThen (send reservation
          (.reverting reservation current (some (run.generation + 1))))) run
      else send reservation (.reverting reservation current none) run

/-- An answer to a question, its rejection, or an action on the inbox, whose body is valid or not. -/
structure Mutation where
  requestId : Text
  expectedRevision : Nat
  valid : Bool
  deriving DecidableEq

def submitMutation (request : Mutation) : Effect := fun run =>
  match prepare run run.current followUpStates request.requestId request.expectedRevision .exact with
  | (run,.error failureCode) => refuse failureCode run
  | (run,.ok (current,reservation)) =>
    if request.valid then send reservation (.mutating reservation current) run
    else ((release reservation).andThen (refuse invalidIntent)) run

def listQuestions (requestId : Text) (expectedRevision : Nat) : Effect := fun run =>
  match prepare run run.current followUpStates requestId expectedRevision .staleRead with
  | (run,.error failureCode) => refuse failureCode run
  | (run,.ok (_,reservation)) => await (.listing reservation) run

def startRun (requestId : Text) : Effect := fun run =>
  match run.current with
  | none => skip run
  | some current => await (.preparing requestId current) run

def observeContinuation : Effect := fun run =>
  match run.current with
  | none => skip run
  | some live => ((observeTaskCompletion none).andThen (advanceRevision live)) run

/-- What a port or a dispatcher answers, with the code that a refusal fails with. -/
inductive Answer where
  | accepted
  | refused (failureCode : Text)
  deriving DecidableEq

def refuseOperation (reservation : Reservation) (failureCode : Text) : Effect :=
  (release reservation).andThen ((refuse failureCode).andThen finish)

/-- The step of the serial section that an answer allows. -/
def answerJob (job : Job) : Answer → Effect
  | .accepted => fun run =>
    match job with
    | .preparing requestId current =>
      match reserve run requestId current.revision with
      | (run,.error _) => ((refuse "recovery-required".toList).andThen finish) run
      | (run,.ok reservation) => send reservation (.starting reservation current) run
    | .starting reservation current =>
      ((commit reservation reservation.liveRevision).andThen ((observeTaskCompletion none).andThen
        ((advanceRevision current).andThen finish))) run
    | .resuming reservation current =>
      let live := run.current.getD current
      (reserveTaskGeneration.andThen (send reservation (.dispatching reservation live (some (run.generation + 1))))) run
    | .dispatching reservation live generation =>
      ((settleGenerationReservation generation true).andThen ((commit reservation live.revision).andThen
        ((observeTaskCompletion generation).andThen ((advanceRevision live).andThen finish)))) run
    | .delivering reservation live =>
      ((commit reservation live.revision).andThen ((advanceRevision live).andThen finish)) run
    | .reverting reservation current generation =>
      ((settleGenerationReservation generation true).andThen ((commit reservation reservation.liveRevision).andThen
          ((advanceRevision current).andThen finish))) run
    | .mutating reservation current =>
      ((commit reservation reservation.liveRevision).andThen ((advanceRevision current).andThen finish)) run
    | .listing reservation => ((release reservation).andThen finish) run
  | .refused failureCode => fun run =>
    match job with
    | .preparing _ _ => ((refuse failureCode).andThen finish) run
    | .dispatching reservation _ generation =>
      ((settleGenerationReservation generation false).andThen (refuseOperation reservation failureCode)) run
    | .reverting reservation _ generation =>
      ((settleGenerationReservation generation false).andThen (refuseOperation reservation failureCode)) run
    | .starting reservation _ => refuseOperation reservation failureCode run
    | .resuming reservation _ => refuseOperation reservation failureCode run
    | .delivering reservation _ => refuseOperation reservation failureCode run
    | .mutating reservation _ => refuseOperation reservation failureCode run
    | .listing reservation => refuseOperation reservation failureCode run

end Operations

section Events

inductive Event where
  | followUp (request : FollowUp)
  | revert (request : Revert)
  | mutation (request : Mutation)
  | listQuestions (requestId : Text) (expectedRevision : Nat)
  | startRun (requestId : Text)
  | continuation
  | answered (answer : Answer)
  | turnEnded (turn : Nat) (outcome : TaskOutcome)
  | moved (row : Snapshot) (isCurrent isHeld : Bool)
  deriving DecidableEq

def whenFree (operation : Effect) : Effect := fun run =>
  if run.job.isNone then operation run else Effect.skip run

def move (row : Snapshot) (isCurrent isHeld : Bool) : Effect := fun run =>
  if run.row.revision ≤ row.revision then ({ run with row, isCurrent, isHeld },[])
  else Effect.skip run

def effect : Event → Effect
  | .followUp request => whenFree (submitFollowUp request)
  | .revert request => whenFree (submitRevert request)
  | .mutation request => whenFree (submitMutation request)
  | .listQuestions requestId expectedRevision => whenFree (listQuestions requestId expectedRevision)
  | .startRun requestId => whenFree (startRun requestId)
  | .continuation => whenFree observeContinuation
  | .answered answer => fun run =>
    match run.job with
    | none => Effect.skip run
    | some job => answerJob job answer run
  | .turnEnded turn outcome => completeTurn turn outcome
  | .moved row isCurrent isHeld => move row isCurrent isHeld

def Run.new (row : Snapshot) : Run := ⟨row,true,false,[],[],0,none,none,0,[]⟩

def machine (row : Snapshot) : Machine Run Event Note where
  start := Run.new row
  step run event := (effect event run).1
  notes run event := (effect event run).2

end Events

end Keiko.RunOperation
