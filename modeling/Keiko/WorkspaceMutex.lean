import Keiko.Library.Distinct
import Keiko.Library.Gates
import Keiko.Library.JsonText
import Keiko.Library.Trace

/-! The keyed mutex of the task workspaces. A call captures the gates under its keys and puts up its
own in one step; its section starts when all of those are open, and its own opens when the section
returns or throws. -/
namespace Keiko.WorkspaceMutex
open Keiko.Library

section Keys

def keyTier (key : Text) : ℤ :=
  if "active:".toList.isPrefixOf key then 0
  else if "ws:".toList.isPrefixOf key then 1
  else if "repo:".toList.isPrefixOf key then 2
  else if "prov:".toList.isPrefixOf key then 3
  else if "file:".toList.isPrefixOf key then 4
  else if "file-alias:".toList.isPrefixOf key then 4
  else 5

def codeUnits (text : Text) : List ℕ := text.flatMap Json.codeUnits

def compareStrings (left right : Text) : ℤ :=
  if codeUnits left < codeUnits right then -1
  else if codeUnits right < codeUnits left then 1
  else 0

def compareKeys (a b : Text) : ℤ :=
  let tierDelta := keyTier a - keyTier b
  if tierDelta ≠ 0 then tierDelta else compareStrings a b

/-- `[...new Set(keys)].sort(compareKeys)`. -/
def orderedKeys (keys : List Text) : List Text :=
  (Distinct.collect (fun _ => true) [] keys).mergeSort fun a b => decide (compareKeys a b ≤ 0)

theorem mem_orderedKeys {keys : List Text} {key : Text} : key ∈ orderedKeys keys ↔ key ∈ keys := by
  rw [orderedKeys,List.mem_mergeSort,Distinct.mem_collect]
  simp

theorem nodup_orderedKeys (keys : List Text) : (orderedKeys keys).Nodup := by
  rw [orderedKeys,(List.mergeSort_perm _ _).nodup_iff]
  exact Distinct.nodup_collect _ _ List.nodup_nil

end Keys

section Machine

inductive Phase where
  | waiting
  | running
  | ended
  deriving DecidableEq, Repr

/-- A call of `runExclusive`, with the gates that it waits for. -/
structure Section where
  keys : List Text
  predecessors : List ℕ
  phase : Phase
  deriving DecidableEq

structure Registry where
  tails : OrderedMap Text ℕ
  sections : List Section

inductive Event where
  | call (keys : List Text)
  | resume (number : ℕ)
  | settle (number : ℕ) (failed : Bool)
  deriving DecidableEq

inductive Note where
  | called (number : ℕ) (keys : List Text)
  | started (number : ℕ)
  | ended (number : ℕ) (failed : Bool)
  deriving DecidableEq

def Registry.hasEnded (registry : Registry) (number : ℕ) : Bool :=
  registry.sections[number]?.any fun other => decide (other.phase = .ended)

/-- The promises of all predecessors are resolved, so that `Promise.all` lets the call go on. -/
def Registry.isReady (registry : Registry) (called : Section) : Bool :=
  decide (called.phase = .waiting) && called.predecessors.all registry.hasEnded

def Section.enter (phase : Phase) (called : Section) : Section := { called with phase }

def call (keys : List Text) : Effect Registry Note := fun registry =>
  let number := registry.sections.length
  let captured := Gates.enter number (orderedKeys keys) registry.tails
  (⟨captured.2,registry.sections ++ [⟨orderedKeys keys,captured.1,.waiting⟩]⟩,[.called number keys])

def resume (number : ℕ) : Effect Registry Note := fun registry =>
  match registry.sections[number]? with
  | none => (registry,[])
  | some called =>
    if registry.isReady called then ({ registry with sections := registry.sections.modify number (·.enter .running) },
        [.started number])
    else (registry,[])

def settle (number : ℕ) (failed : Bool) : Effect Registry Note := fun registry =>
  match registry.sections[number]? with
  | none => (registry,[])
  | some called =>
    if called.phase = .running then (⟨Gates.leave number called.keys registry.tails,
          registry.sections.modify number (·.enter .ended)⟩,[.ended number failed])
    else (registry,[])

def effect : Event → Effect Registry Note
  | .call keys => call keys
  | .resume number => resume number
  | .settle number failed => settle number failed

def machine : Machine Registry Event Note where
  start := ⟨.empty,[]⟩
  step registry event := (effect event registry).1
  notes registry event := (effect event registry).2

end Machine

end Keiko.WorkspaceMutex
