import Keiko.Library.Gates
import Keiko.Library.Text
import Keiko.Library.Trace

/-! The turns of the chats, one at a time in each. A call puts up its gate behind the last of its
chat and waits for that one, or until its signal is aborted. The gate opens when the operation of the
turn has settled, and for a turn that was cancelled not before the gate that it stood behind. What
the runtime does later on its own (a promise reaction, the rest of an async function) is an event. -/
namespace Keiko.ChatTurn
open Keiko.Library

section State

inductive Phase where
  /-- The call waits for its predecessor. -/
  | waiting
  /-- The wait has an end; the call has not gone on yet. -/
  | waited (acquired : Bool)
  /-- The caller has his answer; the gate waits for the predecessor. -/
  | abandoned
  | scheduled
  | running
  | settled
  | released
  deriving DecidableEq, Repr

structure Turn where
  chatId : Text
  predecessor : Option ℕ
  aborted : Bool
  answered : Bool
  phase : Phase
  deriving DecidableEq

/-- The tails of the chats, the turns in the order of their calls, and the turns of each chat that
registered a generation. -/
structure Serializer where
  tails : OrderedMap Text ℕ
  turns : List Turn
  generations : OrderedMap Text (List ℕ)

inductive Event where
  | call (chatId : Text) (aborted : Bool) (generation : Bool)
  | abort (number : ℕ)
  | predecessorSettled (number : ℕ)
  | proceed (number : ℕ)
  | start (number : ℕ)
  | settle (number : ℕ)
  | release (number : ℕ)
  | interruptGenerations (chatId : Text) (keepRunning : Bool)
  deriving DecidableEq

/-- `withdrawn` is the answer to a caller whose operation never starts. -/
inductive Note where
  | called (number : ℕ) (chatId : Text)
  | withdrawn (number : ℕ)
  | started (number : ℕ)
  | settled (number : ℕ)
  | answered (number : ℕ) (cancelled : Bool)
  | interrupted (number : ℕ)
  deriving DecidableEq

end State

section Operations

variable (number : ℕ)

def Serializer.isReleased (serializer : Serializer) (number : ℕ) : Bool :=
  serializer.turns[number]?.any fun turn => decide (turn.phase = .released)

def Serializer.isFree (serializer : Serializer) (turn : Turn) : Bool :=
  turn.predecessor.all serializer.isReleased

def Serializer.update (serializer : Serializer) (number : ℕ) (turn : Turn) : Serializer :=
  { serializer with turns := serializer.turns.set number turn }

def registerGeneration (chatId : Text) (generations : OrderedMap Text (List ℕ)) : OrderedMap Text (List ℕ) :=
  generations.set chatId ((generations.get? chatId).getD [] ++ [number])

def unregister (chatId : Text) (generations : OrderedMap Text (List ℕ)) : OrderedMap Text (List ℕ) :=
  match generations.get? chatId with
  | none => generations
  | some entries =>
    let others := entries.filter (· ≠ number)
    if others.isEmpty then generations.delete chatId else generations.set chatId others

def call (chatId : Text) (aborted generation : Bool) : Effect Serializer Note := fun serializer =>
  let number := serializer.turns.length
  let captured := Gates.enter number [chatId] serializer.tails
  let phase : Phase := if aborted then .waited false else .waiting
  (⟨captured.2,serializer.turns ++ [⟨chatId,captured.1.head?,aborted,false,phase⟩],
      if generation then registerGeneration number chatId serializer.generations
      else serializer.generations⟩,
    [.called number chatId])

def abort (turn : Turn) : Effect Serializer Note := fun serializer =>
  if turn.aborted then (serializer,[])
  else match turn.phase with
    | .waiting =>
      (serializer.update number { turn with aborted := true, phase := .waited false },[])
    | .scheduled | .running | .settled =>
      if turn.answered then (serializer.update number { turn with aborted := true },[])
      else (serializer.update number { turn with aborted := true, answered := true },[.answered number true])
    | _ => (serializer.update number { turn with aborted := true },[])

def predecessorSettled (turn : Turn) : Effect Serializer Note := fun serializer =>
  if turn.phase = .waiting ∧ serializer.isFree turn = true then
    (serializer.update number { turn with phase := .waited true },[])
  else (serializer,[])

def releaseTurn (turn : Turn) (serializer : Serializer) : Serializer :=
  ⟨Gates.leave number [turn.chatId] serializer.tails,serializer.turns.set number { turn with phase := .released },
    unregister number turn.chatId serializer.generations⟩

def proceed (turn : Turn) : Effect Serializer Note := fun serializer =>
  match turn.phase with
  | .waited false =>
    (serializer.update number { turn with phase := .abandoned },[.withdrawn number])
  | .waited true =>
    if turn.aborted then (releaseTurn number turn serializer,[.withdrawn number])
    else (serializer.update number { turn with phase := .scheduled },[])
  | _ => (serializer,[])

def start (turn : Turn) : Effect Serializer Note := fun serializer =>
  if turn.phase = .scheduled then (serializer.update number { turn with phase := .running },[.started number])
  else (serializer,[])

def settle (turn : Turn) : Effect Serializer Note := fun serializer =>
  if turn.phase = .running then (serializer.update number { turn with phase := .settled },[.settled number])
  else (serializer,[])

def release (turn : Turn) : Effect Serializer Note := fun serializer =>
  match turn.phase with
  | .abandoned =>
    if serializer.isFree turn then (releaseTurn number turn serializer,[]) else (serializer,[])
  | .settled =>
    (releaseTurn number turn serializer,if turn.answered then [] else [.answered number false])
  | _ => (serializer,[])

def isRunning (turn : Turn) : Bool :=
  match turn.phase with
  | .scheduled | .running | .settled => true
  | _ => false

def interruptGenerations (chatId : Text) (keepRunning : Bool) : Effect Serializer Note :=
  fun serializer =>
    let interrupted := ((serializer.generations.get? chatId).getD []).filter fun number =>
      serializer.turns[number]?.any fun turn => !turn.aborted && !(keepRunning && isRunning turn)
    (serializer,interrupted.map .interrupted)

def onTurn (act : ℕ → Turn → Effect Serializer Note) : Effect Serializer Note := fun serializer =>
  match serializer.turns[number]? with
  | none => (serializer,[])
  | some turn => act number turn serializer

def effect : Event → Effect Serializer Note
  | .call chatId aborted generation => call chatId aborted generation
  | .abort number => onTurn number abort
  | .predecessorSettled number => onTurn number predecessorSettled
  | .proceed number => onTurn number proceed
  | .start number => onTurn number start
  | .settle number => onTurn number settle
  | .release number => onTurn number release
  | .interruptGenerations chatId keepRunning => interruptGenerations chatId keepRunning

def machine : Machine Serializer Event Note where
  start := ⟨.empty,[],.empty⟩
  step serializer event := (effect event serializer).1
  notes serializer event := (effect event serializer).2

end Operations

end Keiko.ChatTurn
