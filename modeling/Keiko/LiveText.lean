import Keiko.Library.Machine
import Keiko.Library.Number
import Keiko.Library.OrderedMap
import Keiko.Library.Utf8Cut

/-! The live text of the parts of an answer. The overlay keeps what the event stream delivers of a
part between its start and the moment the history shows it complete, up to a bound in bytes. An
event is given by the fields the overlay reads, each absent where it is not of its type. -/
namespace Keiko.LiveText
open Keiko.Library

section Events

inductive LiveTextKind where
  | text
  | reasoning
  deriving DecidableEq, Repr

inductive PartStep where
  | started
  | delta
  deriving DecidableEq, Repr

structure PartKey where
  kind : LiveTextKind
  messageId : Text
  ordinal : Nat
  deriving DecidableEq

structure EventData where
  sessionId : Option Text
  assistantMessageId : Option Text
  ordinal : Option Number
  delta : Option Units

structure RuntimeEvent where
  type : Option Text
  id : Option Text
  data : Option EventData

def maxLiveTextUtf8Bytes : Nat := 65536

def maxLiveReasoningUtf8Bytes : Nat := 2 * (8 * 1024)

def maxLiveParts : Nat := 32

def maxRetiredParts : Nat := 128

def maxOrdinal : Nat := 1024

/-- `PART_EVENTS`. -/
def partEvents (type : Text) : Option (LiveTextKind × PartStep) :=
  if type = "session.text.started".toList then some (.text,.started)
  else if type = "session.text.delta".toList then some (.text,.delta)
  else if type = "session.reasoning.started".toList then some (.reasoning,.started)
  else if type = "session.reasoning.delta".toList then some (.reasoning,.delta)
  else none

def isMessageIdCharacter (c : Char) : Bool := c.isAlphanum || c = '_' || c = '-'

/-- `/^msg_[A-Za-z0-9_-]{1,251}$/u`. -/
def isMessageId (value : Text) : Bool :=
  "msg_".toList.isPrefixOf value && decide (1 ≤ (value.drop 4).length) &&
    decide ((value.drop 4).length ≤ 251) && (value.drop 4).all isMessageIdCharacter

/-- A position among the parts of a message; no number below the bound is unsafe. -/
def ordinalOf : Number → Option Nat
  | .finite value =>
    if value.den = 1 ∧ 0 ≤ value.num ∧ value.num < maxOrdinal then some value.num.toNat else none
  | _ => none

def eventPartKey (data : EventData) (kind : LiveTextKind) : Option PartKey := do
  let messageId ← data.assistantMessageId
  if isMessageId messageId then
    let ordinal ← data.ordinal
    let ordinal ← ordinalOf ordinal
    some ⟨kind,messageId,ordinal⟩
  else none

end Events

section Cuts

def fittingUtf8Prefix (delta : Units) (room : Nat) : Units :=
  (Units.fittingFrom room 0 (Units.characters delta)).flatten

def withoutDanglingSurrogate (text : Units) : Units :=
  match text.getLast? with
  | some last => if Units.isHigh last then text.dropLast else text
  | none => text

structure LivePart where
  text : Units
  bytes : Nat
  full : Bool
  frozen : Bool
  lastEventId : Option Text
  diverged : Bool

/-- Appends what fits, and tells whether anything did. -/
def append (part : LivePart) (delta : Units) (bound : Nat) : LivePart × Bool :=
  if part.full then (part,false)
  else
    let room : ℤ := (bound : ℤ) - part.bytes
    let taken := if (Units.byteLength delta : ℤ) ≤ room then delta else fittingUtf8Prefix delta room.toNat
    let full := decide (taken.length < delta.length) ||
      decide (bound ≤ part.bytes + Units.byteLength taken)
    if taken.length = 0 then ({ part with full := full },false)
    else ({ part with
      full := full, text := part.text ++ taken, bytes := part.bytes + Units.byteLength taken },true)

end Cuts

section Overlay

structure LiveTextOverlay where
  parts : OrderedMap PartKey LivePart
  retired : List PartKey
  applied : Nat
  dropped : Nat
  diverged : Nat

def LiveTextOverlay.empty : LiveTextOverlay := ⟨.empty,[],0,0,0⟩

structure LiveTextCounts where
  applied : Nat
  dropped : Nat
  diverged : Nat
  deriving DecidableEq

variable (overlay : LiveTextOverlay)

def drop : LiveTextOverlay := { overlay with dropped := overlay.dropped + 1 }

/-- At capacity the oldest frozen part gives way. -/
def makeRoom : Option LiveTextOverlay :=
  if overlay.parts.size < maxLiveParts then some overlay
  else (overlay.parts.entries.find? fun entry => entry.2.frozen).map fun entry =>
    { overlay with parts := overlay.parts.delete entry.1 }

def start (key : PartKey) : LiveTextOverlay :=
  if overlay.parts.has key ∨ key ∈ overlay.retired then overlay
  else match makeRoom overlay with
    | none => overlay
    | some overlay => { overlay with parts := overlay.parts.set key ⟨[],0,false,false,none,false⟩ }

def boundOf : LiveTextKind → Nat
  | .text => maxLiveTextUtf8Bytes
  | .reasoning => maxLiveReasoningUtf8Bytes

def isRepeatedEvent (part : LivePart) : Option Text → LivePart × Bool
  | none => (part,false)
  | some eventId =>
    if some eventId = part.lastEventId then (part,true)
    else ({ part with lastEventId := some eventId },false)

def extend (key : PartKey) (eventId : Option Text) (delta : Option Units) : LiveTextOverlay :=
  if key ∈ overlay.retired then overlay
  else match overlay.parts.get? key with
    | none => drop overlay
    | some part =>
      if part.frozen then drop overlay
      else match delta with
        | none => drop { overlay with parts := overlay.parts.set key { part with frozen := true } }
        | some delta =>
          if delta.length = 0 then overlay
          else
            let (part,repeated) := isRepeatedEvent part eventId
            if repeated then { overlay with parts := overlay.parts.set key part }
            else
              let (part,appended) := append part delta (boundOf key.kind)
              let overlay := { overlay with parts := overlay.parts.set key part }
              if appended then { overlay with applied := overlay.applied + 1 } else drop overlay

def partEvent (sessionId : Text) (event : RuntimeEvent) :
    Option (LiveTextKind × PartStep × Option PartKey × EventData) := do
  let type ← event.type
  let (kind,step) ← partEvents type
  let data ← event.data
  if data.sessionId = some sessionId then some (kind,step,eventPartKey data kind,data) else none

def observe (sessionId : Text) (event : RuntimeEvent) : LiveTextOverlay :=
  match partEvent sessionId event with
  | none => overlay
  | some (_,.started,key,_) => (key.map fun key => start overlay key).getD overlay
  | some (_,.delta,none,_) => drop overlay
  | some (_,.delta,some key,data) => extend overlay key event.id data.delta

def textOf (key : PartKey) : Option Units :=
  (overlay.parts.get? key).map fun part => withoutDanglingSurrogate part.text

def retire (key : PartKey) : LiveTextOverlay :=
  if overlay.parts.has key then
    let retired := if key ∈ overlay.retired then overlay.retired else overlay.retired ++ [key]
    { overlay with
      parts := overlay.parts.delete key,
      retired := if maxRetiredParts < retired.length then retired.drop 1 else retired }
  else overlay

def markDiverged (key : PartKey) : LiveTextOverlay :=
  match overlay.parts.get? key with
  | none => overlay
  | some part =>
    if part.diverged then overlay
    else { overlay with
      parts := overlay.parts.set key { part with diverged := true }, diverged := overlay.diverged + 1 }

def freeze : LiveTextOverlay :=
  { overlay with parts := overlay.parts.mapValues fun part => { part with frozen := true } }

inductive Event where
  | observe (sessionId : Text) (event : RuntimeEvent)
  | retire (key : PartKey)
  | markDiverged (key : PartKey)
  | freeze
  | takeCounts

def step (event : Event) : LiveTextOverlay :=
  match event with
  | .observe sessionId event => observe overlay sessionId event
  | .retire key => retire overlay key
  | .markDiverged key => markDiverged overlay key
  | .freeze => freeze overlay
  | .takeCounts => { overlay with applied := 0, dropped := 0, diverged := 0 }

end Overlay

def liveText : Machine LiveTextOverlay Event LiveTextCounts where
  start := .empty
  step := step
  notes := fun overlay event => match event with
    | .takeCounts => [⟨overlay.applied,overlay.dropped,overlay.diverged⟩]
    | _ => []

end Keiko.LiveText
