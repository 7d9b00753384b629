import Keiko.Library.Distinct
import Keiko.Library.Text
import Keiko.Library.Trace
import Mathlib.Data.Rat.Defs

/-! One run of the sync lane: the refs of a source are enumerated, then fetched by a pool of workers
that share a cursor. What the source and the progress callback answer, the aborts of the signal and
the readings of the clock are events; a worker takes one turn of its loop at a time. -/
namespace Keiko.ConnectorSync
open Keiko.Library

section Records

inductive FailureReason where
  | authFailed
  | permissionDenied
  | rateLimited
  | timeout
  | unavailable
  | scopeExceeded
  | boundsExceeded
  | cancelled
  | malformedPayload
  deriving DecidableEq, Repr

structure SyncBounds where
  maxItems : ℤ
  maxDurationMs : ℚ
  maxConcurrency : ℤ

structure ItemRef (ρ : Type*) where
  itemKey : Text
  details : ρ

structure SyncItem where
  itemKey : Text
  title : Text
  relativePath : Text
  contentHtml : Text
  byteLength : ℕ
  webuiPath : Option Text
  citationMetadataJson : Option Text
  deriving DecidableEq

structure ItemFailure where
  itemKey : Text
  reason : FailureReason
  deriving DecidableEq

structure ProgressCounts where
  enumeratedItems : ℕ
  fetchedItems : ℕ
  indexedItems : ℕ
  skippedItems : ℕ
  failedItems : ℕ
  deriving DecidableEq

inductive EnumerationOutcome (ρ : Type*) where
  | refs (refs : List (ItemRef ρ)) (complete : Bool)
  | failed (reason : FailureReason)

inductive ItemFetchOutcome where
  | item (item : SyncItem)
  | skipped (reason : FailureReason)
  | missing
  | fatal (reason : FailureReason)
  deriving DecidableEq

inductive FetchOutcome where
  | completed (items : List SyncItem) (enumeratedItemKeys : List Text)
      (failures : List ItemFailure) (progress : ProgressCounts)
  | truncated (reason : FailureReason) (progress : ProgressCounts)
  | cancelled (progress : ProgressCounts)
  | failed (reason : FailureReason) (progress : ProgressCounts)

def FetchOutcome.applicable : FetchOutcome → Bool
  | .completed _ _ _ _ => true
  | _ => false

inductive Thrown where
  | budgetExhausted (reason : FailureReason)
  | other
  deriving DecidableEq

structure Reaction where
  aborts : Bool
  throws : Option Thrown

end Records

section State

variable (ρ : Type*)

inductive Phase where
  | created
  | enumerating
  | fetching
  | settled
  deriving DecidableEq, Repr

inductive Worker where
  | looping
  | fetching (index : ℕ)
  | ended
  deriving DecidableEq

structure RunState where
  phase : Phase
  aborted : Bool
  deadlineAt : ℚ
  progress : ProgressCounts
  items : List SyncItem
  failures : List ItemFailure
  enumeratedItemKeys : List Text
  missingItemKeys : List Text
  fatalReason : Option FailureReason
  terminal : Bool
  refs : List (ItemRef ρ)
  dispatchedBefore : ℕ
  cursor : ℕ
  terminated : Bool
  firstError : Option Thrown
  workers : List Worker

inductive Event where
  | call (now : ℚ)
  | enumerated (outcome : EnumerationOutcome ρ) (reaction : Reaction)
  | enumerationThrows (error : Thrown)
  | turn (worker : ℕ) (now : ℚ)
  | settle (worker : ℕ) (outcome : ItemFetchOutcome) (reaction : Reaction)
  | throw (worker : ℕ) (error : Thrown)
  | allSettled
  | abort

inductive Note where
  | enumerated (refs : List (ItemRef ρ)) (complete : Bool)
  | started (index : ℕ)
  | settled (index : ℕ) (ref : ItemRef ρ) (outcome : ItemFetchOutcome)
  | thrown (error : Thrown)
  | deadlinePassed
  | aborted
  | progress (counts : ProgressCounts)
  | answered (outcome : FetchOutcome)
  | rejected (error : Thrown)

end State

section Pipeline

variable {ρ : Type*} (bounds : SyncBounds)

def newRun : RunState ρ where
  phase := .created
  aborted := false
  deadlineAt := 0
  progress := ⟨0,0,0,0,0⟩
  items := []
  failures := []
  enumeratedItemKeys := []
  missingItemKeys := []
  fatalReason := none
  terminal := false
  refs := []
  dispatchedBefore := 0
  cursor := 0
  terminated := false
  firstError := none
  workers := []

def abort : Effect (RunState ρ) (Note ρ) := fun run => ({ run with aborted := true },[.aborted])

def answer (outcome : FetchOutcome) : Effect (RunState ρ) (Note ρ) := fun run =>
  ({ run with phase := .settled, terminal := true },[.answered outcome])

def reject (error : Thrown) : Effect (RunState ρ) (Note ρ) := fun run =>
  ({ run with phase := .settled, terminal := true },[.rejected error])

def RunState.unlessCancelled (run : RunState ρ) (outcome : FetchOutcome) : FetchOutcome :=
  if run.aborted then .cancelled run.progress else outcome

def catchInPipeline (error : Thrown) : Effect (RunState ρ) (Note ρ) := fun run =>
  match error with
  | .budgetExhausted reason =>
    answer (run.unlessCancelled (.truncated reason run.progress)) run
  | .other => reject .other run

def throwInPipeline (error : Thrown) : Effect (RunState ρ) (Note ρ) :=
  (Effect.note (.thrown error)).andThen (catchInPipeline error)

def emitProgress (reaction : Reaction) : Effect (RunState ρ) (Note ρ) := fun run =>
  if run.terminal then (run,[])
  else ((Effect.note (.progress run.progress)).andThen (if reaction.aborts then abort else Effect.skip)) run

def terminalOutcome (run : RunState ρ) (dispatchedAll : Bool) : FetchOutcome :=
  if run.aborted then .cancelled run.progress
  else match run.fatalReason with
    | some reason => .failed reason run.progress
    | none =>
      if dispatchedAll then .completed run.items run.enumeratedItemKeys run.failures run.progress
      else .truncated .boundsExceeded run.progress

def call (now : ℚ) : Effect (RunState ρ) (Note ρ) := fun run =>
  if run.phase = .created then
    let built := { run with phase := .enumerating, deadlineAt := now + bounds.maxDurationMs }
    if built.aborted then answer (terminalOutcome built false) built else (built,[])
  else (run,[])

def concurrency (refs : List (ItemRef ρ)) : ℕ :=
  (max 1 (min bounds.maxConcurrency refs.length)).toNat

def fetchAllItems (refs : List (ItemRef ρ)) (run : RunState ρ) : RunState ρ :=
  { run with
    phase := .fetching
    enumeratedItemKeys := Distinct.collect (fun _ => true) [] (refs.map ItemRef.itemKey)
    refs
    dispatchedBefore := run.progress.fetchedItems + run.progress.skippedItems
    workers := List.replicate (concurrency bounds refs) .looping }

def enumerateWithinBounds (refs : List (ItemRef ρ)) (complete : Bool) : Effect (RunState ρ) (Note ρ) := fun run =>
  if complete && decide (refs.length ≤ bounds.maxItems) then (fetchAllItems bounds refs run,[])
  else answer (run.unlessCancelled (.truncated .boundsExceeded run.progress)) run

def enumerated (outcome : EnumerationOutcome ρ) (reaction : Reaction) : Effect (RunState ρ) (Note ρ) := fun run =>
  if run.phase = .enumerating then match outcome with
    | .failed reason => answer (run.unlessCancelled (.failed reason run.progress)) run
    | .refs refs complete =>
      let counted := { run with
        progress := { run.progress with enumeratedItems := refs.length } }
      (((Effect.note (.enumerated refs complete)).andThen (emitProgress reaction)).andThen (match reaction.throws with
        | some error => throwInPipeline error
        | none => enumerateWithinBounds bounds refs complete)) counted
  else (run,[])

def enumerationThrows (error : Thrown) : Effect (RunState ρ) (Note ρ) := fun run =>
  if run.phase = .enumerating then throwInPipeline error run else (run,[])

end Pipeline

section Pool

variable {ρ : Type*} (number : ℕ)

def RunState.setWorker (run : RunState ρ) (number : ℕ) (worker : Worker) : RunState ρ :=
  { run with workers := run.workers.set number worker }

def removeItemsByKey (items : List SyncItem) (itemKey : Text) : List SyncItem :=
  items.filter fun item => item.itemKey ≠ itemKey

def applyOutcome (ref : ItemRef ρ) (outcome : ItemFetchOutcome) (run : RunState ρ) : RunState ρ :=
  match outcome with
  | .item item =>
    { run with
      items := if ref.itemKey ∈ run.missingItemKeys then run.items else run.items ++ [item]
      progress := { run.progress with fetchedItems := run.progress.fetchedItems + 1 } }
  | .skipped reason =>
    { run with
      failures := run.failures ++ [⟨ref.itemKey,reason⟩]
      progress := { run.progress with
        skippedItems := run.progress.skippedItems + 1
        failedItems := run.progress.failedItems + 1 } }
  | .missing =>
    { run with
      missingItemKeys := Distinct.add (fun _ => true) run.missingItemKeys ref.itemKey
      enumeratedItemKeys := run.enumeratedItemKeys.filter (· ≠ ref.itemKey)
      items := removeItemsByKey run.items ref.itemKey
      progress := { run.progress with skippedItems := run.progress.skippedItems + 1 } }
  | .fatal reason => { run with fatalReason := run.fatalReason.or (some reason) }

def catchInWorker (error : Thrown) : Effect (RunState ρ) (Note ρ) := fun run =>
  ({ run.setWorker number .ended with
      terminated := true
      firstError := run.firstError.or (some error) },[.thrown error])

def settle (outcome : ItemFetchOutcome) (reaction : Reaction) : Effect (RunState ρ) (Note ρ) :=
  fun run =>
    match run.workers[number]? with
    | some (.fetching index) =>
      match run.refs[index]? with
      | none => (run,[])
      | some ref =>
        (((Effect.note (.settled index ref outcome)).andThen (emitProgress reaction)).andThen
          (match reaction.throws with
          | some error => catchInWorker number error
          | none => Effect.skip))
          ((applyOutcome ref outcome run).setWorker number .looping)
    | _ => (run,[])

def throw (error : Thrown) : Effect (RunState ρ) (Note ρ) := fun run =>
  match run.workers[number]? with
  | some (.fetching _) => catchInWorker number error run
  | _ => (run,[])

def RunState.isStopped (run : RunState ρ) : Bool :=
  run.terminated || run.aborted || run.fatalReason.isSome

def turn (now : ℚ) : Effect (RunState ρ) (Note ρ) := fun run =>
  match run.workers[number]? with
  | some .looping =>
    if run.cursor < run.refs.length then if run.isStopped then (run.setWorker number .ended,[])
      else if run.deadlineAt < now then ({ run.setWorker number .ended with terminated := true },[.deadlinePassed])
      else ({ run.setWorker number (.fetching run.cursor) with cursor := run.cursor + 1 },[.started run.cursor])
    else (run.setWorker number .ended,[])
  | _ => (run,[])

def allSettled : Effect (RunState ρ) (Note ρ) := fun run =>
  if run.phase = .fetching ∧ run.workers.all (decide <| · = .ended) = true then match run.firstError with
    | some error => catchInPipeline error run
    | none =>
      let terminalPerItemOutcomes :=
        run.progress.fetchedItems + run.progress.skippedItems - run.dispatchedBefore
      answer (terminalOutcome run (decide (run.refs.length ≤ terminalPerItemOutcomes))) run
  else (run,[])

def Worker.isFetching : Worker → Bool
  | .fetching _ => true
  | _ => false

def RunState.inFlight (run : RunState ρ) : ℕ := run.workers.countP Worker.isFetching

end Pool

section Machine

variable {ρ : Type*} (bounds : SyncBounds)

def effect : Event ρ → Effect (RunState ρ) (Note ρ)
  | .call now => call bounds now
  | .enumerated outcome reaction => enumerated bounds outcome reaction
  | .enumerationThrows error => enumerationThrows error
  | .turn worker now => turn worker now
  | .settle worker outcome reaction => settle worker outcome reaction
  | .throw worker error => throw worker error
  | .allSettled => allSettled
  | .abort => abort

def machine : Machine (RunState ρ) (Event ρ) (Note ρ) where
  start := newRun
  step run event := (effect bounds event run).1
  notes run event := (effect bounds event run).2

end Machine

end Keiko.ConnectorSync
