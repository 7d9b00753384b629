import Mathlib.Data.List.Sort
import Mathlib.Data.Rat.Defs
import Mathlib.Algebra.Order.Ring.Rat

/-! A binary heap in a list, its last item by the comparison at the root. Sifting an item up or
down exchanges it with its parent or its later child until the order between them holds; the
items stay the same ones. -/
namespace Keiko.Library.BinaryHeap
open List Option

variable {α : Type*}

structure TotalPreorder (compare : α → α → ℚ) : Prop where
  swap : ∀ a b, compare a b < 0 ↔ 0 < compare b a
  trans : ∀ a b c, compare a b ≤ 0 → compare b c ≤ 0 → compare a c ≤ 0

def swap (entries : List α) (left right : ℕ) : List α :=
  match entries[left]?,entries[right]? with
  | some a,some b => (entries.set left b).set right a
  | _,_ => entries

def siftUp (compare : α → α → ℚ) (entries : List α) (index : ℕ) : List α :=
  if _positive : 0 < index then match entries[index]?,entries[(index - 1) / 2]? with
    | some child,some parent =>
      if compare child parent ≤ 0 then entries
      else siftUp compare (swap entries index ((index - 1) / 2)) ((index - 1) / 2)
    | _,_ => entries
  else entries
termination_by index
decreasing_by omega

def worstChild (compare : α → α → ℚ) (entries : List α) (index : ℕ) (left : α) : ℕ :=
  match entries[index * 2 + 2]? with
  | some right => if compare left right < 0 then index * 2 + 2 else index * 2 + 1
  | none => index * 2 + 1

theorem lt_worstChild (compare : α → α → ℚ) (entries : List α) (i : ℕ) (left : α) :
    i < worstChild compare entries i left := by
  unfold worstChild
  split
  · split
    · omega
    · omega
  · omega

@[simp] theorem length_swap (entries : List α) (left right : ℕ) :
    (swap entries left right).length = entries.length := by
  unfold swap
  split
  · rw [length_set,length_set]
  · rfl

theorem lt_of_get {entries : List α} {i : ℕ} {item : α} (at_index : entries[i]? = some item) :
    i < entries.length :=
  (List.getElem?_eq_some_iff.mp at_index).1

def siftDown (compare : α → α → ℚ) (entries : List α) (index : ℕ) : List α :=
  match entries[index * 2 + 1]?,entries[index]? with
  | some left,some current =>
    match _child : entries[worstChild compare entries index left]? with
    | some worst =>
      if 0 ≤ compare current worst then entries
      else siftDown compare (swap entries index (worstChild compare entries index left))
          (worstChild compare entries index left)
    | none => entries
  | _,_ => entries
termination_by entries.length - index
decreasing_by
  have later := lt_worstChild compare entries index left
  have inside := lt_of_get _child
  rw [length_swap]
  omega

def IsHeap (compare : α → α → ℚ) (entries : List α) : Prop :=
  ∀ index item parent, 0 < index → entries[index]? = some item →
    entries[(index - 1) / 2]? = some parent → compare item parent ≤ 0

/-- The items below a position keep their order with the item above it. -/
def Bridged (compare : α → α → ℚ) (entries : List α) (hole : ℕ) : Prop :=
  ∀ index item above, 0 < hole → 0 < index → (index - 1) / 2 = hole → entries[index]? = some item →
    entries[(hole - 1) / 2]? = some above → compare item above ≤ 0

structure HeapAbove (compare : α → α → ℚ) (entries : List α) (hole : ℕ) : Prop where
  other : ∀ index item parent, index ≠ hole → 0 < index → entries[index]? = some item →
    entries[(index - 1) / 2]? = some parent → compare item parent ≤ 0
  bridged : Bridged compare entries hole

structure HeapBelow (compare : α → α → ℚ) (entries : List α) (hole : ℕ) : Prop where
  other : ∀ index item parent, (index - 1) / 2 ≠ hole → 0 < index → entries[index]? = some item →
    entries[(index - 1) / 2]? = some parent → compare item parent ≤ 0
  bridged : Bridged compare entries hole

section Swap
variable {cmp : α → α → ℚ} {es : List α} {left right : ℕ} {a b : α}

theorem swap_of_get (at_left : es[left]? = some a) (at_right : es[right]? = some b) :
    swap es left right = (es.set left b).set right a := by
  unfold swap
  rw [at_left,at_right]

theorem get_swap (at_left : es[left]? = some a) (at_right : es[right]? = some b)
    (i : ℕ) : (swap es left right)[i]? =
      if i = right then some a else if i = left then some b else es[i]? := by
  have mem := lt_of_get at_left
  have inside' := lt_of_get at_right
  rw [swap_of_get at_left at_right,getElem?_set,getElem?_set,length_set,if_pos mem,if_pos inside']
  simp only [eq_comm (a := i)]

theorem perm_swap (es : List α) (left right : ℕ) : (swap es left right).Perm es := by
  unfold swap
  split
  next a b at_left at_right =>
    obtain ⟨mem,rfl⟩ := List.getElem?_eq_some_iff.mp at_left
    obtain ⟨inside',rfl⟩ := List.getElem?_eq_some_iff.mp at_right
    exact set_set_perm mem inside'
  next => exact List.Perm.refl es

theorem perm_siftUp (cmp : α → α → ℚ) (es : List α) (i : ℕ) :
    (siftUp cmp es i).Perm es := by
  induction es,i using siftUp.induct cmp with
  | case1 es i positive child parent at_parent at_child settled =>
    rw [siftUp,dif_pos positive,at_child,at_parent]
    simp only [if_pos settled,List.Perm.refl]
  | case2 es i positive child parent at_parent at_child unsettled ih =>
    rw [siftUp,dif_pos positive,at_child,at_parent]
    simp only [if_neg unsettled]
    exact ih.trans (perm_swap es i ((i - 1) / 2))
  | case3 es i positive absent =>
    rw [siftUp,dif_pos positive]
    split
    next child parent at_child at_parent => exact absurd at_parent (absent child parent at_child)
    next => exact List.Perm.refl es
  | case4 es i not_positive => rw [siftUp,dif_neg not_positive]

theorem siftDown_of_get (cmp : α → α → ℚ) {cur worst : α}
    (at_left : es[left * 2 + 1]? = some a) (at_current : es[left]? = some cur)
    (at_worst : es[worstChild cmp es left a]? = some worst) :
    siftDown cmp es left = if 0 ≤ cmp cur worst then es else
        siftDown cmp (swap es left (worstChild cmp es left a))
          (worstChild cmp es left a) := by
  rw [siftDown,at_left,at_current]
  simp only
  split
  next worst' at_worst' =>
    obtain rfl := some.inj (at_worst.symm.trans at_worst')
    rfl
  next at_none => exact absurd (at_worst.symm.trans at_none) (by simp)

theorem siftDown_of_leaf (cmp : α → α → ℚ)
    (absent : ∀ b cur, es[left * 2 + 1]? = some b → es[left]? = some cur → False) :
    siftDown cmp es left = es := by
  rw [siftDown]
  split
  next b cur at_left at_current => exact (absent b cur at_left at_current).elim
  next => rfl

theorem perm_siftDown (cmp : α → α → ℚ) (es : List α) (i : ℕ) :
    (siftDown cmp es i).Perm es := by
  induction es,i using siftDown.induct cmp with
  | case1 es i left cur at_current at_left worst at_worst settled =>
    rw [siftDown_of_get cmp at_left at_current at_worst,if_pos settled]
  | case2 es i left cur at_current at_left worst at_worst unsettled ih =>
    rw [siftDown_of_get cmp at_left at_current at_worst,if_neg unsettled]
    exact ih.trans (perm_swap es i _)
  | case3 es i left cur at_current at_left absent =>
    rw [siftDown,at_left,at_current]
    simp only
    split
    next worst at_worst => exact absurd (absent.symm.trans at_worst) (by simp)
    next => exact List.Perm.refl es
  | case4 es i absent => rw [siftDown_of_leaf cmp absent]

end Swap

section Order
variable {cmp : α → α → ℚ} {es : List α} {hole : ℕ}

theorem TotalPreorder.le_of_lt (total : TotalPreorder cmp) {a b : α} (less : 0 < cmp a b) : cmp b a ≤ 0 :=
  ((total.swap b a).mpr less).le

theorem TotalPreorder.le_of_not_neg (total : TotalPreorder cmp) {a b : α}
    (not_less : ¬ cmp a b < 0) : cmp b a ≤ 0 := by
  rw [total.swap a b] at not_less
  exact not_lt.mp not_less

theorem TotalPreorder.self (total : TotalPreorder cmp) (a : α) : cmp a a ≤ 0 := by
  by_contra positive
  have negative := (total.swap a a).mpr (not_le.mp positive)
  exact positive negative.le

theorem IsHeap.root (total : TotalPreorder cmp) (heap : IsHeap cmp es) {root : α}
    (at_root : es[0]? = some root) (i : ℕ) (item : α) (at_index : es[i]? = some item) :
    cmp item root ≤ 0 := by
  induction i using Nat.strong_induction_on generalizing item with
  | _ i ih =>
    rcases Nat.eq_zero_or_pos i with zero | positive
    · subst zero
      obtain rfl := some.inj (at_root.symm.trans at_index)
      exact total.self root
    · have mem := lt_of_get at_index
      have at_parent := getElem?_eq_getElem (show (i - 1) / 2 < es.length by omega)
      exact total.trans _ _ _ (heap i item _ positive at_index at_parent)
        (ih ((i - 1) / 2) (by omega) _ at_parent)

theorem HeapAbove.swap (total : TotalPreorder cmp) (above : HeapAbove cmp es hole)
    {child parent : α} (positive : 0 < hole) (at_child : es[hole]? = some child)
    (at_parent : es[(hole - 1) / 2]? = some parent) (post : 0 < cmp child parent) :
    HeapAbove cmp (swap es hole ((hole - 1) / 2)) ((hole - 1) / 2) := by
  have below : cmp parent child ≤ 0 := total.le_of_lt post
  have get := get_swap at_child at_parent
  constructor
  · intro i item top not_parent positive' at_index at_top
    rw [get,if_neg not_parent] at at_index
    rw [get] at at_top
    by_cases here : i = hole
    · subst here
      rw [if_pos rfl] at at_index at_top
      obtain rfl := some.inj at_index
      obtain rfl := some.inj at_top
      exact below
    · rw [if_neg here] at at_index
      by_cases sibling : (i - 1) / 2 = (hole - 1) / 2
      · rw [if_pos sibling] at at_top
        obtain rfl := some.inj at_top
        exact total.trans _ _ _ (above.other i item parent here positive' at_index (sibling ▸ at_parent)) below
      · rw [if_neg sibling] at at_top
        by_cases under : (i - 1) / 2 = hole
        · rw [if_pos under] at at_top
          obtain rfl := some.inj at_top
          exact above.bridged i item parent positive positive' under at_index at_parent
        · rw [if_neg under] at at_top
          exact above.other i item top here positive' at_index at_top
  · intro i item top inner positive' under at_index at_top
    rw [get,if_neg (show ((hole - 1) / 2 - 1) / 2 ≠ (hole - 1) / 2 by omega),
      if_neg (show ((hole - 1) / 2 - 1) / 2 ≠ hole by omega)] at at_top
    rw [get,if_neg (show i ≠ (hole - 1) / 2 by omega)] at at_index
    have parent_top := above.other ((hole - 1) / 2) parent top (by omega) inner at_parent at_top
    by_cases here : i = hole
    · rw [if_pos here] at at_index
      obtain rfl := some.inj at_index
      exact parent_top
    · rw [if_neg here] at at_index
      exact total.trans _ _ _ (above.other i item parent here positive' at_index (under ▸ at_parent)) parent_top

theorem HeapAbove.isHeap (above : HeapAbove cmp es hole)
    (settled : ∀ item parent, 0 < hole → es[hole]? = some item →
      es[(hole - 1) / 2]? = some parent → cmp item parent ≤ 0) :
    IsHeap cmp es := by
  intro i item parent positive at_index at_parent
  by_cases here : i = hole
  · subst here
    exact settled item parent positive at_index at_parent
  · exact above.other i item parent here positive at_index at_parent

theorem isHeap_siftUp (total : TotalPreorder cmp) (above : HeapAbove cmp es hole) :
    IsHeap cmp (siftUp cmp es hole) := by
  induction es,hole using siftUp.induct cmp with
  | case1 es i positive child parent at_parent at_child settled =>
    rw [siftUp,dif_pos positive,at_child,at_parent]
    simp only [if_pos settled]
    apply above.isHeap
    intro item parent' _ at_item at_parent'
    obtain rfl := some.inj (at_child.symm.trans at_item)
    obtain rfl := some.inj (at_parent.symm.trans at_parent')
    exact settled
  | case2 es i positive child parent at_parent at_child unsettled ih =>
    rw [siftUp,dif_pos positive,at_child,at_parent]
    simp only [if_neg unsettled]
    exact ih (above.swap total positive at_child at_parent (not_le.mp unsettled))
  | case3 es i positive absent =>
    rw [siftUp,dif_pos positive]
    split
    next child parent at_child at_parent => exact absurd at_parent (absent child parent at_child)
    next =>
      apply above.isHeap
      intro item parent _ at_item at_parent
      exact absurd at_parent (absent item parent at_item)
  | case4 es i not_positive =>
    rw [siftUp,dif_neg not_positive]
    apply above.isHeap
    intro item parent positive
    exact absurd positive not_positive

/-- The child a sift compares with is a child, present where the left one is, and no child comes
after it. -/
theorem worstChild_spec (total : TotalPreorder cmp) {left : α} (at_left : es[hole * 2 + 1]? = some left) :
    0 < worstChild cmp es hole left ∧ (worstChild cmp es hole left - 1) / 2 = hole ∧
      ∃ worst, es[worstChild cmp es hole left]? = some worst ∧
        ∀ i item, 0 < i → (i - 1) / 2 = hole → es[i]? = some item → cmp item worst ≤ 0 := by
  have only : ∀ i, 0 < i → (i - 1) / 2 = hole → i = hole * 2 + 1 ∨ i = hole * 2 + 2 := by
    intro i positive under
    omega
  unfold worstChild
  split
  next right at_right =>
    split
    next less =>
      refine ⟨by omega,by omega,right,at_right,?_⟩
      intro i item positive under at_index
      rcases only i positive under with same | same
      · rw [same,at_left] at at_index
        obtain rfl := some.inj at_index
        exact less.le
      · rw [same,at_right] at at_index
        obtain rfl := some.inj at_index
        exact total.self right
    next not_less =>
      refine ⟨by omega,by omega,left,at_left,?_⟩
      intro i item positive under at_index
      rcases only i positive under with same | same
      · rw [same,at_left] at at_index
        obtain rfl := some.inj at_index
        exact total.self left
      · rw [same,at_right] at at_index
        obtain rfl := some.inj at_index
        exact total.le_of_not_neg not_less
  next absent =>
    refine ⟨by omega,by omega,left,at_left,?_⟩
    intro i item positive under at_index
    rcases only i positive under with same | same
    · rw [same,at_left] at at_index
      obtain rfl := some.inj at_index
      exact total.self left
    · rw [same,absent] at at_index
      cases at_index

theorem HeapBelow.swap (below : HeapBelow cmp es hole)
    {child : ℕ} {cur worst : α} (positive : 0 < child) (under_hole : (child - 1) / 2 = hole)
    (at_current : es[hole]? = some cur) (at_worst : es[child]? = some worst)
    (last : ∀ i item, 0 < i → (i - 1) / 2 = hole → es[i]? = some item →
      cmp item worst ≤ 0) (less : cmp cur worst < 0) :
    HeapBelow cmp (swap es hole child) child := by
  have get := get_swap at_current at_worst
  constructor
  · intro i item top not_under positive' at_index at_top
    rw [get] at at_index
    rw [get,if_neg not_under] at at_top
    by_cases moved : i = child
    · rw [if_pos moved] at at_index
      obtain rfl := some.inj at_index
      rw [moved,if_pos under_hole] at at_top
      obtain rfl := some.inj at_top
      exact less.le
    · rw [if_neg moved] at at_index
      by_cases here : i = hole
      · rw [if_pos here] at at_index
        obtain rfl := some.inj at_index
        rw [if_neg (by omega),here] at at_top
        exact below.bridged child worst top (here ▸ positive') positive under_hole at_worst at_top
      · rw [if_neg here] at at_index
        by_cases sibling : (i - 1) / 2 = hole
        · rw [if_pos sibling] at at_top
          obtain rfl := some.inj at_top
          exact last i item positive' sibling at_index
        · rw [if_neg sibling] at at_top
          exact below.other i item top sibling positive' at_index at_top
  · intro i item top inner positive' under at_index at_top
    rw [get,if_neg (by omega),if_pos under_hole] at at_top
    obtain rfl := some.inj at_top
    rw [get,if_neg (by omega),if_neg (by omega)] at at_index
    exact below.other i item _ (by omega) positive' at_index (under ▸ at_worst)

theorem HeapBelow.isHeap (below : HeapBelow cmp es hole)
    (settled : ∀ i item parent, 0 < i → (i - 1) / 2 = hole → es[i]? = some item →
      es[hole]? = some parent → cmp item parent ≤ 0) : IsHeap cmp es := by
  intro i item parent positive at_index at_parent
  by_cases under : (i - 1) / 2 = hole
  · exact settled i item parent positive under at_index (under ▸ at_parent)
  · exact below.other i item parent under positive at_index at_parent

theorem isHeap_siftDown (total : TotalPreorder cmp) (below : HeapBelow cmp es hole) :
    IsHeap cmp (siftDown cmp es hole) := by
  induction es,hole using siftDown.induct cmp with
  | case1 es hole left cur at_current at_left worst at_worst settled =>
    obtain ⟨positive,under,worst',at_worst',last⟩ := worstChild_spec total at_left
    obtain rfl := some.inj (at_worst.symm.trans at_worst')
    rw [siftDown_of_get cmp at_left at_current at_worst,if_pos settled]
    apply below.isHeap
    intro i item parent positive' under' at_index at_parent
    obtain rfl := some.inj (at_current.symm.trans at_parent)
    exact total.trans _ _ _ (last i item positive' under' at_index) (total.le_of_not_neg (not_lt.mpr settled))
  | case2 es hole left cur at_current at_left worst at_worst unsettled ih =>
    obtain ⟨positive,under,worst',at_worst',last⟩ := worstChild_spec total at_left
    obtain rfl := some.inj (at_worst.symm.trans at_worst')
    rw [siftDown_of_get cmp at_left at_current at_worst,if_neg unsettled]
    exact ih (below.swap positive under at_current at_worst last (not_le.mp unsettled))
  | case3 es hole left cur at_current at_left absent =>
    obtain ⟨positive,under,worst,at_worst,last⟩ := worstChild_spec total at_left
    exact absurd (absent.symm.trans at_worst) (by simp)
  | case4 es hole absent =>
    rw [siftDown_of_leaf cmp absent]
    apply below.isHeap
    intro i item parent positive under at_index at_parent
    have mem := lt_of_get at_index
    have at_left := getElem?_eq_getElem (show hole * 2 + 1 < es.length by omega)
    exact (absent _ parent at_left at_parent).elim

end Order

/-- The kept items are as many as allowed and none of the others comes before them. -/
def Least (compare : α → α → ℚ) (limit : ℕ) (items kept : List α) : Prop :=
  kept.length = min limit items.length ∧ ∃ dropped, (kept ++ dropped).Perm items ∧
    ∀ item ∈ kept, ∀ other ∈ dropped, compare item other ≤ 0

section Selection
variable {cmp : α → α → ℚ} {limit : ℕ} {xs kept : List α} {item root : α}

theorem least_nil (cmp : α → α → ℚ) (limit : ℕ) : Least cmp limit [] [] :=
  ⟨by simp,[],by simp,by simp⟩

theorem Least.perm (least : Least cmp limit xs kept) {kept' : List α}
    (same : kept'.Perm kept) : Least cmp limit xs kept' := by
  obtain ⟨length,dropped,permuted,pre⟩ := least
  refine ⟨same.length_eq.trans length,dropped,(same.append_right dropped).trans permuted,?_⟩
  intro item in_kept
  exact pre item (same.mem_iff.mp in_kept)

theorem Least.keep (least : Least cmp limit xs kept) (room : kept.length < limit)
    (item : α) : Least cmp limit (xs ++ [item]) (kept ++ [item]) := by
  obtain ⟨length,dropped,permuted,pre⟩ := least
  have lengths := permuted.length_eq
  rw [length_append] at lengths
  have none_dropped : dropped = [] := length_eq_zero_iff.mp (by omega)
  rw [none_dropped,append_nil] at permuted
  refine ⟨?_,[],?_,fun _ _ other absent => absurd absent not_mem_nil⟩
  · rw [length_append,length_append,length_singleton]
    omega
  · rw [append_nil]
    exact permuted.append_right [item]

theorem Least.drop (least : Least cmp limit xs kept) (full : limit ≤ kept.length)
    (item : α) (last : ∀ other ∈ kept, cmp other item ≤ 0) :
    Least cmp limit (xs ++ [item]) kept := by
  obtain ⟨length,dropped,permuted,pre⟩ := least
  refine ⟨?_,dropped ++ [item],?_,?_⟩
  · rw [length_append,length_singleton]
    omega
  · rw [← append_assoc]
    exact permuted.append_right [item]
  · intro other in_kept other' in_dropped
    rcases mem_append.mp in_dropped with old | new
    · exact pre other in_kept other' old
    · rw [mem_singleton.mp new]
      exact last other in_kept

theorem Least.replace (total : TotalPreorder cmp) (least : Least cmp limit xs (root :: kept))
    (full : limit ≤ kept.length + 1) (last : ∀ other ∈ kept, cmp other root ≤ 0)
    (early : cmp item root < 0) : Least cmp limit (xs ++ [item]) (item :: kept) := by
  obtain ⟨length,dropped,permuted,pre⟩ := least
  refine ⟨?_,root :: dropped,?_,?_⟩
  · rw [length_cons] at length ⊢
    rw [length_append,length_singleton]
    omega
  · have moved : (item :: kept ++ root :: dropped).Perm (item :: (root :: kept ++ dropped)) :=
      List.Perm.cons item perm_middle
    exact moved.trans ((permuted.cons item).trans (perm_append_singleton item xs).symm)
  · intro other in_kept other' in_dropped
    have before_root : cmp other root ≤ 0 := by
      rcases mem_cons.mp in_kept with new | old
      · rw [new]
        exact early.le
      · exact last other old
    rcases mem_cons.mp in_dropped with worst | old
    · rw [worst]
      exact before_root
    · exact total.trans _ _ _ before_root (pre root mem_cons_self other' old)

theorem TotalPreorder.pairwise_mergeSort (total : TotalPreorder cmp) (xs : List α) :
    (xs.mergeSort fun a b => cmp a b ≤ 0).Pairwise fun a b => cmp a b ≤ 0 := by
  have sorted : (xs.mergeSort fun a b => decide (cmp a b ≤ 0)).Pairwise
      fun a b => decide (cmp a b ≤ 0) = true := by
    refine List.pairwise_mergeSort ?_ ?_ xs
    · simpa using total.trans
    · intro a b
      rw [Bool.or_eq_true,decide_eq_true_eq,decide_eq_true_eq]
      by_cases less : cmp a b < 0
      · exact .inl less.le
      · exact .inr (total.le_of_not_neg less)
  simpa using sorted

theorem Least.sort (total : TotalPreorder cmp) (least : Least cmp limit xs kept)
    (apart : ∀ a ∈ xs, ∀ b ∈ xs, cmp a b ≤ 0 → cmp b a ≤ 0 → a = b) :
    kept.mergeSort (fun a b => cmp a b ≤ 0) = (xs.mergeSort fun a b => cmp a b ≤ 0).take limit := by
  obtain ⟨length,dropped,permuted,pre⟩ := least
  have sorted : (kept.mergeSort (fun a b => cmp a b ≤ 0) ++
      dropped.mergeSort (fun a b => cmp a b ≤ 0)).Pairwise fun a b => cmp a b ≤ 0 := by
    refine pairwise_append.mpr ⟨total.pairwise_mergeSort kept,total.pairwise_mergeSort dropped,?_⟩
    intro item in_kept other in_dropped
    exact pre item (mem_mergeSort.mp in_kept) other (mem_mergeSort.mp in_dropped)
  have rearranged : (kept.mergeSort (fun a b => cmp a b ≤ 0) ++
      dropped.mergeSort (fun a b => cmp a b ≤ 0)).Perm xs :=
    ((mergeSort_perm kept _).append (mergeSort_perm dropped _)).trans permuted
  have whole := (rearranged.trans (mergeSort_perm xs fun a b => cmp a b ≤ 0).symm).eq_of_pairwise (by
    intro a b in_kept in_items
    exact apart a (rearranged.mem_iff.mp in_kept) b (mem_mergeSort.mp in_items))
    sorted (total.pairwise_mergeSort xs)
  have lengths := permuted.length_eq
  rw [length_append] at lengths
  rw [← whole,take_append,length_mergeSort]
  rcases le_total limit xs.length with many | few
  · have exact_length : limit = kept.length := by omega
    rw [exact_length,Nat.sub_self,take_zero,append_nil,take_of_length_le]
    exact (length_mergeSort kept).le
  · have none_dropped : dropped = [] := length_eq_zero_iff.mp (by omega)
    rw [none_dropped,mergeSort_nil,take_nil,append_nil,take_of_length_le]
    rw [length_mergeSort]
    omega

end Selection

end Keiko.Library.BinaryHeap
