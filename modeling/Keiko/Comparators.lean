import Keiko.Library.Comparator
import Keiko.Library.NumberText

/-! The comparators that packages share: plain code-unit order of strings, and issue keys by project
and number. Only the sign of an answer counts, so a difference of numbers is given by its sign. -/
namespace Keiko.Comparators
open Library Comparator

def compareStrings (left right : Units) : ℤ :=
  Comparator.ordered (left.map UInt16.toNat) (right.map UInt16.toNat)

/-- The project and the number of a key; a key without a number stands for its whole text. -/
def splitIssueKey (key : Units) : Units × ℚ :=
  let suffix := (key.reverse.takeWhile fun c => c != unit '-').reverse
  if unit '-' ∈ key then match NumberText.stringToNumber suffix with
    | .finite number => ⟨key.take (key.length - suffix.length - 1),number⟩
    | _ => ⟨key,0⟩
  else ⟨key,0⟩

def compareIssueKeys (left right : Units) : ℤ :=
  if (splitIssueKey left).1 = (splitIssueKey right).1 then
    Comparator.ordered (splitIssueKey left).2 (splitIssueKey right).2
  else compareStrings (splitIssueKey left).1 (splitIssueKey right).1

theorem lawful_compareStrings : Comparator.Lawful compareStrings :=
  lawful_ordered.mapped fun t : Units => t.map UInt16.toNat

theorem compareStrings_eq_zero {left right : Units} : compareStrings left right = 0 ↔ left = right :=
  ordered_eq_zero.trans (List.map_injective_iff.mpr fun _ _ => UInt16.toNat_inj.mp).eq_iff

theorem compareIssueKeys_eq (left right : Units) : compareIssueKeys left right =
    Comparator.mapped splitIssueKey (Comparator.andThen (Comparator.mapped Prod.fst compareStrings)
      (Comparator.mapped Prod.snd Comparator.ordered)) left right := by
  simp only [compareIssueKeys,mapped,andThen,compareStrings_eq_zero]

theorem lawful_compareIssueKeys : Comparator.Lawful compareIssueKeys := by
  have lawful : Comparator.Lawful (mapped splitIssueKey (andThen
      (mapped Prod.fst compareStrings) (mapped Prod.snd ordered))) :=
    ((lawful_compareStrings.mapped Prod.fst).andThen (lawful_ordered.mapped Prod.snd)).mapped splitIssueKey
  rwa [show compareIssueKeys = _ from funext₂ compareIssueKeys_eq]

example : compareIssueKeys (units "REQ-2") (units "REQ-10") = -1 := by decide +kernel

end Keiko.Comparators
