import Keiko.Library.Except
import Keiko.Library.JsonRoundTrip

/-! Canonical JSON of support reports. The writer copies a value with its keys in order and
charges every value and container to a budget; the reader scans the text against the same
budget before it is parsed, and accepts it only when the writer gives it back. -/
namespace Keiko.SupportReport
open Keiko.Library

inductive SupportReportFailure where
  | corruptReport
  | unsafeReport
  | reportBudgetExceeded
  deriving DecidableEq, Repr

def maxSupportReportBytes : Nat := 10 * 1024 * 1024
def maxSupportReportRecords : Nat := 20000
def maxSupportReportDepth : Nat := 12
def maxSupportReportContainers : Nat := 250000
def maxSupportReportValues : Nat := 3000000
def maxSupportReportObjectKeys : Nat := 256

structure JsonShapeBudget where
  values : Nat
  containers : Nat
  deriving DecidableEq

def charge (budget : JsonShapeBudget) (container : Bool) : Except SupportReportFailure JsonShapeBudget :=
  let charged : JsonShapeBudget :=
    ⟨budget.values + 1,if container then budget.containers + 1 else budget.containers⟩
  if maxSupportReportValues < charged.values then .error .reportBudgetExceeded
  else if maxSupportReportContainers < charged.containers then .error .reportBudgetExceeded
  else .ok charged

section Writer

def utf16Units (text : Text) : List Nat := text.flatMap Json.codeUnits

/-- `compareSupportKeys(left, right) <= 0`. -/
def keyLessEq (left right : Text) : Bool := decide (utf16Units left ≤ utf16Units right)

def sortedByKey {α : Type*} (fields : List (Text × α)) : List (Text × α) :=
  fields.mergeSort fun left right => keyLessEq left.1 right.1

def isPrintable (c : Char) : Bool := 0x20 ≤ c.toNat && c.toNat ≤ 0x7e

def safeString (value : Text) : Except SupportReportFailure Text :=
  if !value.all isPrintable then .error .unsafeReport
  else if maxSupportReportBytes < Text.utf16Length value then .error .reportBudgetExceeded
  else .ok value

abbrev Charging (α : Type) := JsonShapeBudget → Except SupportReportFailure (α × JsonShapeBudget)

def canonicalFields : List (Text × Charging Json) → Charging (List (Text × Json))
  | [], budget => .ok ⟨[],budget⟩
  | (key,copy) :: fields, budget => do
    let budget ← charge budget false
    let key ← safeString key
    let ⟨value,budget⟩ ← copy budget
    let ⟨fields,budget⟩ ← canonicalFields fields budget
    return ⟨(key,value) :: fields,budget⟩

mutual

def canonicalValue : Json → Nat → Charging Json
  | .null, _, budget => do return ⟨.null,← charge budget false⟩
  | .bool value, _, budget => do return ⟨.bool value,← charge budget false⟩
  | .string text, _, budget => do
    let budget ← charge budget false
    return ⟨.string (← safeString text),budget⟩
  | .number value, depth, budget =>
    if value.isFinite then do return ⟨.number value,← charge budget false⟩
    else if maxSupportReportDepth ≤ depth then .error .reportBudgetExceeded
    else do
      -- A number that is not finite is no scalar here, and no object either.
      let _ ← charge budget true
      .error .unsafeReport
  | .array items, depth, budget =>
    if maxSupportReportDepth ≤ depth then .error .reportBudgetExceeded
    else do
      let budget ← charge budget true
      if maxSupportReportRecords < items.length then .error .reportBudgetExceeded
      else do
        let ⟨items,budget⟩ ← canonicalItems items (depth + 1) budget
        return ⟨.array items,budget⟩
  | .object fields, depth, budget =>
    if maxSupportReportDepth ≤ depth then .error .reportBudgetExceeded
    else do
      let budget ← charge budget true
      if maxSupportReportObjectKeys < fields.length then .error .reportBudgetExceeded
      else do
        let ⟨fields,budget⟩ ← canonicalFields (sortedByKey (fieldCopies fields (depth + 1))) budget
        return ⟨.object (Record.fromEntries fields).entries,budget⟩

def canonicalItems : List Json → Nat → Charging (List Json)
  | [], _, budget => .ok ⟨[],budget⟩
  | item :: items, depth, budget => do
    let ⟨item,budget⟩ ← canonicalValue item depth budget
    let ⟨items,budget⟩ ← canonicalItems items depth budget
    return ⟨item :: items,budget⟩

def fieldCopies : List (Text × Json) → Nat → List (Text × Charging Json)
  | [], _ => []
  | (key,value) :: fields, depth => (key,canonicalValue value depth) :: fieldCopies fields depth

end

def canonicalSupportJson (value : Json) : Except SupportReportFailure Text := do
  let ⟨canonical,_⟩ ← canonicalValue value 0 ⟨0,0⟩
  return Json.stringify canonical

end Writer

section Scan

def stringEnd : Text → Text
  | [] => []
  | c :: text =>
    if c = Json.quotationMark then text
    else if c = Json.backslash then match text with
      | [] => []
      | _ :: text => stringEnd text
    else stringEnd text

theorem stringEnd_length : ∀ t : Text, (stringEnd t).length ≤ t.length
  | [] => Nat.le_refl _
  | [c] => by
    unfold stringEnd
    split
    · simp
    split
    · simp
    · simp [stringEnd]
  | c :: d :: t => by
    have shorter := stringEnd_length t
    have shorter' := stringEnd_length (d :: t)
    unfold stringEnd
    split
    · simp
    split
    · simp only [List.length_cons]
      omega
    · simp only [List.length_cons] at shorter' ⊢
      omega

def isScalarStart (c : Char) : Bool :=
  c = '-' || Text.isDigit c || c = 't' || c = 'f' || c = 'n'

def endsScalar (c : Char) : Bool :=
  c = ',' || c = '\x7d' || c = ']' || decide (c.toNat ≤ 0x20)

def scalarEnd (text : Text) : Text := text.dropWhile fun c => !endsScalar c

structure JsonShapeScan where
  frames : List (Nat × Nat)
  budget : JsonShapeBudget

namespace JsonShapeScan

def value (scan : JsonShapeScan) (container : Bool) : Except SupportReportFailure JsonShapeScan := do
  let budget ← charge scan.budget container
  match scan.frames with
  | [] => return ⟨[],budget⟩
  | (entries,limit) :: frames =>
    if limit < entries + 1 then .error .reportBudgetExceeded
    else return ⟨(entries + 1,limit) :: frames,budget⟩

def openContainer (scan : JsonShapeScan) (object : Bool) : Except SupportReportFailure JsonShapeScan := do
  let scan ← scan.value true
  if maxSupportReportDepth ≤ scan.frames.length then .error .reportBudgetExceeded
  else
    -- The keys and the values of an object both start an entry.
    let limit := if object then 2 * maxSupportReportObjectKeys else maxSupportReportRecords
    return ⟨(0,limit) :: scan.frames,scan.budget⟩

def closeContainer (scan : JsonShapeScan) : JsonShapeScan := ⟨scan.frames.tail,scan.budget⟩

end JsonShapeScan

def scanShape (scan : JsonShapeScan) : Text → Except SupportReportFailure JsonShapeScan
  | [] => .ok scan
  | c :: text =>
    if c = Json.quotationMark then do
      let scan ← scan.value false
      scanShape scan (stringEnd text)
    else if c = '\x7b' ∨ c = '[' then do
      let scan ← scan.openContainer (c = '\x7b')
      scanShape scan text
    else if c = '\x7d' ∨ c = ']' then scanShape scan.closeContainer text
    else if isScalarStart c then do
      let scan ← scan.value false
      scanShape scan (scalarEnd text)
    else scanShape scan text
termination_by text => text.length
decreasing_by
  all_goals simp only [List.length_cons]
  · exact Nat.lt_succ_of_le (stringEnd_length text)
  · exact Nat.lt_succ_self _
  · exact Nat.lt_succ_self _
  · exact Nat.lt_succ_of_le (List.dropWhile_sublist _).length_le
  · exact Nat.lt_succ_self _

def checkJsonShape (text : Text) : Except SupportReportFailure Unit := do
  let _ ← scanShape ⟨[],⟨0,0⟩⟩ text
  return ()

end Scan

def parseCanonicalSupportJson (text : Text) (maxBytes : Nat) : Except SupportReportFailure Json :=
  if maxBytes < Text.utf16Length text ∨ maxBytes < Text.byteLength text then .error .reportBudgetExceeded
  else do
    checkJsonShape text
    match Json.parse text with
    | none => .error .corruptReport
    | some value => do
      let canonical ← canonicalSupportJson value
      -- A duplicate key, white space, another numeral or escape changes the text.
      if canonical ≠ text then .error .corruptReport else return value

end Keiko.SupportReport
