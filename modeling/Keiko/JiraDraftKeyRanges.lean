import Keiko.Comparators
import Keiko.Library.Distinct
import Keiko.Library.Grouping
import Keiko.Library.UnitDecimal
import Keiko.Library.UnitJson

/-! Issue keys of a draft, spelled as ranges of consecutive keys and packed several to an entry. The
lists of a result take the leading entries that fit its bytes, and count the keys of the others. -/
namespace Keiko.JiraDraftKeyRanges
open Library Comparators

structure Numbered where
  project : Units
  number : ℕ

/-- The first group of the key pattern: a capital, then capitals, digits and underscores. -/
def isProject : Units → Bool
  | [] => false
  | first :: rest =>
    (unit 'A' ≤ first && first ≤ unit 'Z') && rest.length ≤ 254 &&
      rest.all fun c => (unit 'A' ≤ c && c ≤ unit 'Z') || CodeUnit.isDigit c || c == unit '_'

def isNumber : Units → Bool
  | [] => false
  | first :: rest =>
    (unit '1' ≤ first && first ≤ unit '9') && rest.length ≤ 17 && rest.all CodeUnit.isDigit

def maxSafeInteger : ℕ := 2 ^ 53 - 1

def numbered (key : Units) : Option Numbered :=
  let project := key.takeWhile fun c => c != unit '-'
  match key.dropWhile fun c => c != unit '-' with
  | [] => none
  | _ :: digits =>
    if isProject project && isNumber digits && UnitDecimal.value digits ≤ maxSafeInteger then
      some ⟨project,UnitDecimal.value digits⟩
    else none

def KEY_RANGE_ENTRY_CHARS : ℕ := 600

structure PackedKeys where
  text : Units
  keys : ℕ

structure Run where
  label : Units
  keys : ℕ

def keyText (project : Units) (number : ℕ) : Units :=
  project ++ unit '-' :: UnitDecimal.ofNat number

def label (project : Units) (start stop : ℕ) : Units :=
  if start = stop then keyText project start
  else keyText project start ++ units ".." ++ keyText project stop

def addNumber (runs : List (ℕ × ℕ)) (number : ℕ) : List (ℕ × ℕ) :=
  match runs.getLast? with
  | some last =>
    if number = last.2 + 1 then runs.dropLast ++ [(last.1,number)] else runs ++ [(number,number)]
  | none => runs ++ [(number,number)]

def distinctNumbers (numbers : List ℕ) : List ℕ :=
  Comparator.sort Comparator.ordered (Distinct.collect (fun _ => true) [] numbers)

def runsOf (numbers : List ℕ) : List (ℕ × ℕ) := (distinctNumbers numbers).foldl addNumber []

def projectRuns (project : Units) (numbers : List ℕ) : List Run :=
  (runsOf numbers).map fun run => ⟨label project run.1 run.2,run.2 - run.1 + 1⟩

def isPlain (key : Units) : Bool := (numbered key).isNone

def compactRuns (keys : List Units) : List Run :=
  let grouped := Grouping.group Numbered.project Numbered.number (keys.filterMap numbered)
  let plain := Distinct.collect isPlain [] keys
  grouped.entries.flatMap (fun entry => projectRuns entry.1 entry.2) ++
    (Comparator.sort compareIssueKeys plain).map fun key => ⟨key,1⟩

def comma : CodeUnit := unit ','

def packRun (packed : List PackedKeys) (run : Run) : List PackedKeys :=
  match packed.getLast? with
  | some last =>
    if last.text.length + 1 + run.label.length ≤ KEY_RANGE_ENTRY_CHARS then
      packed.dropLast ++ [⟨last.text ++ comma :: run.label,last.keys + run.keys⟩]
    else packed ++ [⟨run.label,run.keys⟩]
  | none => packed ++ [⟨run.label,run.keys⟩]

def packIssueKeys (keys : List Units) : List PackedKeys := (compactRuns keys).foldl packRun []

def entryBytes (entry : PackedKeys) : ℤ := Units.byteLength (UnitJson.quote entry.text) + 1

def listedBytes (entries : List PackedKeys) : ℤ := (entries.map entryBytes).sum

def listedKeys (entries : List PackedKeys) : ℤ := (entries.map fun entry => (entry.keys : ℤ)).sum

/-- The loop of `leading`, with the number of entries kept and the bytes used so far. -/
def leadingFrom (budget ceiling : ℤ) : ℕ → ℤ → List PackedKeys → List PackedKeys
  | _, _, [] => []
  | kept, used, entry :: entries =>
    if budget < used + entryBytes entry ∨ ceiling ≤ kept then []
    else entry :: leadingFrom budget ceiling (kept + 1) (used + entryBytes entry) entries

def leading (entries : List PackedKeys) (budget ceiling : ℤ) : List PackedKeys :=
  leadingFrom budget ceiling 0 0 entries

structure ListedIssueKeys where
  created : List PackedKeys
  existing : List PackedKeys
  unlisted : ℤ

def listIssueKeys (createdKeys existingKeys : List Units) (budget ceiling : ℤ) : ListedIssueKeys :=
  let created := packIssueKeys createdKeys
  let existing := packIssueKeys existingKeys
  let reserved := min (listedBytes existing) (budget / 2)
  let keptCreated := leading created (budget - reserved) ceiling
  let keptExisting := leading existing (budget - listedBytes keptCreated) ceiling
  ⟨keptCreated,keptExisting,listedKeys created - listedKeys keptCreated +
    (listedKeys existing - listedKeys keptExisting)⟩

end Keiko.JiraDraftKeyRanges
