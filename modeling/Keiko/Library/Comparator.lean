import Mathlib.Data.List.Sort
import Mathlib.Order.Lattice

/-! Comparison functions as sorting takes them: a negative number where the first argument comes
first, a positive one where it comes last, and zero where neither does. Sorting by such a function
keeps the order of what it does not tell apart. -/
namespace Keiko.Library.Comparator

variable {α β : Type*}

/-- `-1`, `0` or `1` by the order of the values. -/
def ordered [LinearOrder α] (a b : α) : ℤ := if a < b then -1 else if b < a then 1 else 0

def andThen (first second : α → α → ℤ) (a b : α) : ℤ :=
  if first a b = 0 then second a b else first a b

def mapped (key : β → α) (compare : α → α → ℤ) (a b : β) : ℤ := compare (key a) (key b)

def sort (compare : α → α → ℤ) (items : List α) : List α :=
  items.insertionSort fun a b => compare a b ≤ 0

structure Lawful (compare : α → α → ℤ) : Prop where
  swap : ∀ a b, compare b a = -compare a b
  trans : ∀ a b c, compare a b ≤ 0 → compare b c ≤ 0 → compare a c ≤ 0

section Laws
variable {cmp first second : α → α → ℤ} {a b c : α}

theorem Lawful.self (lawful : Lawful cmp) (a : α) : cmp a a = 0 := by
  have swapped := lawful.swap a a
  omega

theorem Lawful.lt_of_lt_of_le (lawful : Lawful cmp) (less : cmp a b < 0)
    (le : cmp b c ≤ 0) : cmp a c < 0 := by
  have forward := lawful.trans a b c less.le le
  by_contra equal
  have back := lawful.trans b c a le (by rw [lawful.swap a c]; omega)
  rw [lawful.swap a b] at back
  omega

theorem Lawful.lt_of_le_of_lt (lawful : Lawful cmp) (le : cmp a b ≤ 0)
    (less : cmp b c < 0) : cmp a c < 0 := by
  have forward := lawful.trans a b c le less.le
  by_contra equal
  have back := lawful.trans c a b (by rw [lawful.swap a c]; omega) le
  rw [lawful.swap b c] at back
  omega

theorem ordered_neg [LinearOrder α] {a b : α} : ordered a b < 0 ↔ a < b := by
  unfold ordered
  split
  next less => exact iff_of_true (by decide) less
  next greater =>
    apply iff_of_false _ greater
    split
    · decide
    · decide

theorem ordered_nonpos [LinearOrder α] {a b : α} : ordered a b ≤ 0 ↔ a ≤ b := by
  unfold ordered
  split
  next less => exact iff_of_true (by decide) less.le
  next =>
    split
    next greater => exact iff_of_false (by decide) (not_le.mpr greater)
    next not_less => exact iff_of_true (by decide) (not_lt.mp not_less)

theorem ordered_eq_zero [LinearOrder α] {a b : α} : ordered a b = 0 ↔ a = b := by
  constructor
  · intro zero
    apply le_antisymm
    · exact (ordered_nonpos).mp zero.le
    · by_contra less
      have negative := (ordered_neg).mpr (not_le.mp less)
      omega
  · intro same
    rw [same,ordered,if_neg (lt_irrefl b),if_neg (lt_irrefl b)]

theorem lawful_ordered [LinearOrder α] : Lawful (ordered (α := α)) where
  swap a b := by
    unfold ordered
    rcases lt_trichotomy a b with less | same | greater
    · rw [if_neg less.not_gt,if_pos less,if_pos less]
      rfl
    · rw [same,if_neg (lt_irrefl b),if_neg (lt_irrefl b)]
      rfl
    · rw [if_pos greater,if_neg greater.not_gt,if_pos greater]
  trans a b c first second :=
    (ordered_nonpos).mpr ((ordered_nonpos.mp first).trans (ordered_nonpos.mp second))

theorem Lawful.andThen (lawful : Lawful first) (lawful' : Lawful second) : Lawful (andThen first second) where
  swap a b := by
    have swapped := lawful.swap a b
    unfold Comparator.andThen
    by_cases equal : first a b = 0
    · rw [if_pos equal,if_pos (by omega)]
      exact lawful'.swap a b
    · rw [if_neg equal,if_neg (by omega)]
      exact swapped
  trans a b c := by
    unfold Comparator.andThen
    intro below below'
    by_cases equal : first a b = 0
    · rw [if_pos equal] at below
      by_cases equal' : first b c = 0
      · have equal'' : first a c = 0 := by
          have forward := lawful.trans a b c equal.le equal'.le
          have back := lawful.trans c b a (by rw [lawful.swap b c]; omega) (by rw [lawful.swap a b]; omega)
          rw [lawful.swap a c] at back
          omega
        rw [if_pos equal'] at below'
        rw [if_pos equal'']
        exact lawful'.trans a b c below below'
      · rw [if_neg equal'] at below'
        have less := lawful.lt_of_le_of_lt equal.le (lt_of_le_of_ne below' equal')
        rw [if_neg less.ne]
        exact less.le
    · rw [if_neg equal] at below
      have le : first b c ≤ 0 := by
        by_cases equal' : first b c = 0
        · exact equal'.le
        · rwa [if_neg equal'] at below'
      have less := lawful.lt_of_lt_of_le (lt_of_le_of_ne below equal) le
      rw [if_neg less.ne]
      exact less.le

theorem Lawful.mapped (lawful : Lawful cmp) (key : β → α) : Lawful (mapped key cmp) where
  swap a b := lawful.swap (key a) (key b)
  trans a b c := lawful.trans (key a) (key b) (key c)

theorem andThen_eq_zero : andThen first second a b = 0 ↔ first a b = 0 ∧ second a b = 0 := by
  unfold andThen
  split
  next equal => exact ⟨fun same => ⟨equal,same⟩,And.right⟩
  next differ => exact ⟨fun same => absurd same differ,fun both => absurd both.1 differ⟩

end Laws

section Sorting
variable {cmp : α → α → ℤ} {xs others : List α}

theorem perm_sort (cmp : α → α → ℤ) (xs : List α) : (sort cmp xs).Perm xs :=
  List.perm_insertionSort _ xs

@[simp] theorem mem_sort {item : α} : item ∈ sort cmp xs ↔ item ∈ xs :=
  (perm_sort cmp xs).mem_iff

@[simp] theorem length_sort : (sort cmp xs).length = xs.length :=
  (perm_sort cmp xs).length_eq

theorem pairwise_sort (lawful : Lawful cmp) (xs : List α) :
    (sort cmp xs).Pairwise fun a b => cmp a b ≤ 0 := by
  have total : Std.Total fun a b => cmp a b ≤ 0 := by
    constructor
    intro a b
    have swapped := lawful.swap a b
    omega
  have trans : IsTrans α fun a b => cmp a b ≤ 0 := ⟨lawful.trans⟩
  exact List.pairwise_insertionSort _ xs

theorem pairwise_lt_sort (lawful : Lawful cmp) (nodup : xs.Nodup)
    (apart : ∀ a ∈ xs, ∀ b ∈ xs, cmp a b = 0 → a = b) :
    (sort cmp xs).Pairwise fun a b => cmp a b < 0 := by
  have differ : (sort cmp xs).Nodup := (perm_sort cmp xs).nodup_iff.mpr nodup
  refine ((pairwise_sort lawful xs).and differ).imp_of_mem ?_
  intro a b in_a in_b both
  apply lt_of_le_of_ne both.1
  intro equal
  exact both.2 (apart a (mem_sort.mp in_a) b (mem_sort.mp in_b) equal)

theorem sort_eq_of_perm (lawful : Lawful cmp) (same : xs.Perm others)
    (apart : ∀ a ∈ xs, ∀ b ∈ xs, cmp a b = 0 → a = b) :
    sort cmp xs = sort cmp others := by
  have permuted : (sort cmp xs).Perm (sort cmp others) :=
    (perm_sort cmp xs).trans (same.trans (perm_sort cmp others).symm)
  refine permuted.eq_of_pairwise ?_ (pairwise_sort lawful xs) (pairwise_sort lawful others)
  intro a b in_a in_b below above
  apply apart a (mem_sort.mp in_a) b (same.mem_iff.mpr (mem_sort.mp in_b))
  rw [lawful.swap a b] at above
  omega

theorem sort_of_pairwise (sorted : xs.Pairwise fun a b => cmp a b ≤ 0) : sort cmp xs = xs :=
  sorted.insertionSort_eq

theorem pair_sublist_sort (lawful : Lawful cmp) {a b : α} (pre : cmp a b ≤ 0)
    (pair : [a,b].Sublist xs) : [a,b].Sublist (sort cmp xs) := by
  have total : Std.Total fun a b => cmp a b ≤ 0 := by
    constructor
    intro a b
    have swapped := lawful.swap a b
    omega
  have trans : IsTrans α fun a b => cmp a b ≤ 0 := ⟨lawful.trans⟩
  exact List.pair_sublist_insertionSort pre pair

end Sorting

end Keiko.Library.Comparator
