import Mathlib.Data.List.Induction
import Mathlib.Data.Nat.Cast.Order.Ring
import Keiko.Library.BinaryHeap

/-! The bounded store of retained search results. A binary heap holds the best values seen so far
with their arrival orders, its worst one at the root; a later value replaces the root only when
it comes before it. Sorting the store once at the end is sorting all values and cutting. -/
namespace Keiko.RepoSearchRetention
open List
open Library.BinaryHeap

variable {α : Type*}

structure RetainedAtomEntry (α : Type*) where
  value : α
  order : ℕ

/-- What changes in a store; its limit and its comparison are fixed when it is made. -/
structure RetainedAtomHeap (α : Type*) where
  entries : List (RetainedAtomEntry α)
  nextOrder : ℕ

def empty : RetainedAtomHeap α := ⟨[],0⟩

def compare (compareValues : α → α → ℚ) (left right : RetainedAtomEntry α) : ℚ :=
  if compareValues left.value right.value = 0 then left.order - right.order
  else compareValues left.value right.value

def retain (limit : ℤ) (compareValues : α → α → ℚ) (heap : RetainedAtomHeap α) (value : α) : RetainedAtomHeap α :=
  let entry : RetainedAtomEntry α := ⟨value,heap.nextOrder⟩
  if (heap.entries.length : ℤ) < limit then
    ⟨siftUp (compare compareValues) (heap.entries ++ [entry]) heap.entries.length,heap.nextOrder + 1⟩
  else match heap.entries[0]? with
    | none => ⟨heap.entries,heap.nextOrder + 1⟩
    | some worst =>
      if 0 ≤ compare compareValues entry worst then ⟨heap.entries,heap.nextOrder + 1⟩
      else ⟨siftDown (compare compareValues) (heap.entries.set 0 entry) 0,heap.nextOrder + 1⟩

def sorted (compareValues : α → α → ℚ) (heap : RetainedAtomHeap α) : List α :=
  (heap.entries.mergeSort fun a b => compare compareValues a b ≤ 0).map RetainedAtomEntry.value

def retainAll (limit : ℤ) (compareValues : α → α → ℚ) (values : List α) : RetainedAtomHeap α :=
  values.foldl (retain limit compareValues) empty

def arrivals (values : List α) : List (RetainedAtomEntry α) :=
  values.zipIdx.map fun arrival => ⟨arrival.1,arrival.2⟩

section Comparison
variable {compareValues : α → α → ℚ}

theorem compare_nonpos (compareValues : α → α → ℚ) (left right : RetainedAtomEntry α) :
    compare compareValues left right ≤ 0 ↔ compareValues left.value right.value < 0 ∨
      (compareValues left.value right.value = 0 ∧ left.order ≤ right.order) := by
  unfold compare
  split
  next level =>
    rw [sub_nonpos,Nat.cast_le]
    exact ⟨fun early => .inr ⟨level,early⟩,fun pre => by
      rcases pre with less | ⟨_,early⟩
      · exact absurd level less.ne
      · exact early⟩
  next apart =>
    constructor
    · intro pre
      exact .inl (lt_of_le_of_ne pre apart)
    · intro pre
      rcases pre with less | ⟨level,_⟩
      · exact less.le
      · exact absurd level apart

theorem level_swap (total : TotalPreorder compareValues) {a b : α} (level : compareValues a b = 0) :
    compareValues b a = 0 := by
  apply le_antisymm
  · exact total.le_of_not_neg (by rw [level]; exact lt_irrefl 0)
  · by_contra less
    have greater := (total.swap b a).mp (not_le.mp less)
    exact greater.ne' level

theorem lt_of_lt_of_nonpos (total : TotalPreorder compareValues) {a b c : α}
    (less : compareValues a b < 0) (pre : compareValues b c ≤ 0) : compareValues a c < 0 := by
  apply lt_of_le_of_ne (total.trans a b c less.le pre)
  intro level
  have back := total.trans b c a pre (level_swap total level).le
  exact absurd ((total.swap a b).mp less) (not_lt.mpr back)

theorem lt_of_nonpos_of_lt (total : TotalPreorder compareValues) {a b c : α}
    (pre : compareValues a b ≤ 0) (less : compareValues b c < 0) : compareValues a c < 0 := by
  apply lt_of_le_of_ne (total.trans a b c pre less.le)
  intro level
  have back := total.trans c a b (level_swap total level).le pre
  exact absurd ((total.swap b c).mp less) (not_lt.mpr back)

theorem totalPreorder_compare (total : TotalPreorder compareValues) : TotalPreorder (compare compareValues) where
  swap a b := by
    unfold compare
    by_cases level : compareValues a.value b.value = 0
    · rw [if_pos level,if_pos (level_swap total level),sub_neg,sub_pos]
    · have apart : compareValues b.value a.value ≠ 0 := fun level' => level (level_swap total level')
      rw [if_neg level,if_neg apart]
      exact total.swap a.value b.value
  trans a b c := by
    rw [compare_nonpos,compare_nonpos,compare_nonpos]
    intro pre before'
    rcases pre with less | ⟨level,early⟩
    · apply Or.inl
      apply lt_of_lt_of_nonpos total less
      rcases before' with less' | ⟨level',_⟩
      · exact less'.le
      · exact level'.le
    · rcases before' with less' | ⟨level',earlier'⟩
      · exact .inl (lt_of_nonpos_of_lt total level.le less')
      · apply Or.inr
        refine ⟨le_antisymm (total.trans _ _ _ level.le level'.le) ?_,early.trans earlier'⟩
        by_contra less
        have greater := (total.swap _ _).mp (not_le.mp less)
        exact absurd greater (not_lt.mpr (total.trans _ _ _ (level_swap total level').le (level_swap total level).le))

end Comparison

section Arrivals
variable {compareValues : α → α → ℚ} {values : List α}

theorem arrivals_append (values : List α) (v : α) :
    arrivals (values ++ [v]) = arrivals values ++ [⟨v,values.length⟩] := by
  rw [arrivals,zipIdx_append,map_append,zipIdx_singleton]
  simp [arrivals]

theorem eq_of_order {e entry' : RetainedAtomEntry α} (mem : e ∈ arrivals values)
    (member' : entry' ∈ arrivals values) (same : e.order = entry'.order) : e = entry' := by
  obtain ⟨⟨v,order⟩,in_values,rfl⟩ := mem_map.mp mem
  obtain ⟨⟨value',order'⟩,in_values',rfl⟩ := mem_map.mp member'
  have a := mem_zipIdx_iff_getElem?.mp in_values
  have b := mem_zipIdx_iff_getElem?.mp in_values'
  simp only at same a b
  rw [same] at a ⊢
  rw [Option.some.inj (a.symm.trans b)]

theorem apart_of_arrivals (total : TotalPreorder compareValues) :
    ∀ a ∈ arrivals values, ∀ b ∈ arrivals values, compare compareValues a b ≤ 0 →
      compare compareValues b a ≤ 0 → a = b := by
  intro a in_arrivals b in_arrivals' pre after
  apply eq_of_order in_arrivals in_arrivals'
  rcases (compare_nonpos compareValues a b).mp pre with less | ⟨level,early⟩
  · have greater := (total.swap a.value b.value).mp less
    rcases (compare_nonpos compareValues b a).mp after with less' | ⟨level',_⟩
    · exact absurd greater (lt_asymm less')
    · exact absurd level' greater.ne'
  · rcases (compare_nonpos compareValues b a).mp after with less' | ⟨_,post⟩
    · exact absurd (level_swap total level) less'.ne
    · exact le_antisymm early post

theorem zipIdxLE_iff (total : TotalPreorder compareValues) (a b : α × ℕ) :
    List.zipIdxLE (fun a b => decide (compareValues a b ≤ 0)) a b = true ↔
      compareValues a.1 b.1 < 0 ∨ (compareValues a.1 b.1 = 0 ∧ a.2 ≤ b.2) := by
  unfold zipIdxLE
  rcases lt_trichotomy (compareValues a.1 b.1) 0 with less | level | greater
  · have after := not_le.mpr ((total.swap a.1 b.1).mp less)
    simp [less,less.le,after]
  · simp [level,level_swap total level]
  · simp [not_le.mpr greater,greater.not_gt,greater.ne']

theorem sort_arrivals (total : TotalPreorder compareValues) (values : List α) :
    ((arrivals values).mergeSort fun a b => compare compareValues a b ≤ 0).map
      RetainedAtomEntry.value = values.mergeSort fun a b => compareValues a b ≤ 0 := by
  have zipped : (values.zipIdx.mergeSort (zipIdxLE fun a b => compareValues a b ≤ 0)).map
      (fun arrival => (⟨arrival.1,arrival.2⟩ : RetainedAtomEntry α)) =
        (arrivals values).mergeSort fun a b => compare compareValues a b ≤ 0 := by
    apply map_mergeSort
    intro a _ b _
    rw [Bool.eq_iff_iff,decide_eq_true_eq,compare_nonpos]
    exact zipIdxLE_iff total a b
  rw [← zipped,map_map]
  exact mergeSort_zipIdx

end Arrivals

section Runs
variable {limit : ℤ} {compareValues : α → α → ℚ} {values : List α} {heap : RetainedAtomHeap α}

/-- The invariant of a store: its entries are a heap of the first arrivals in order. -/
structure Retained (limit : ℤ) (compareValues : α → α → ℚ) (values : List α)
    (heap : RetainedAtomHeap α) : Prop where
  nextOrder : heap.nextOrder = values.length
  ordered : IsHeap (compare compareValues) heap.entries
  least : Least (compare compareValues) limit.toNat (arrivals values) heap.entries

theorem heapAbove_append {compare : α → α → ℚ} {es : List α} (ordered : IsHeap compare es)
    (item : α) : HeapAbove compare (es ++ [item]) es.length := by
  have mem : ∀ i other, i ≠ es.length → (es ++ [item])[i]? = some other →
      es[i]? = some other := by
    intro i other not_last at_index
    have bound := lt_of_get at_index
    rw [length_append,length_singleton] at bound
    rwa [getElem?_append_left (by omega)] at at_index
  constructor
  · intro i other parent not_last positive at_index at_parent
    have bound := lt_of_get (mem i other not_last at_index)
    exact ordered i other parent positive (mem i other not_last at_index)
      (mem _ parent (by omega) at_parent)
  · intro i other above positive positive' under at_index at_above
    have bound := lt_of_get at_index
    rw [length_append,length_singleton] at bound
    omega

theorem heapBelow_set {compare : α → α → ℚ} {es : List α} (ordered : IsHeap compare es)
    (item : α) : HeapBelow compare (es.set 0 item) 0 := by
  constructor
  · intro i other parent not_root positive at_index at_parent
    rw [getElem?_set_ne (by omega)] at at_index at_parent
    exact ordered i other parent positive at_index at_parent
  · intro i other above positive
    omega

theorem retained_empty (limit : ℤ) (compareValues : α → α → ℚ) : Retained limit compareValues [] empty :=
  ⟨rfl,fun i item parent _ at_index => by simp [empty] at at_index,least_nil _ _⟩

theorem Retained.retain (total : TotalPreorder compareValues)
    (retained : Retained limit compareValues values heap) (v : α) :
    Retained limit compareValues (values ++ [v]) (retain limit compareValues heap v) := by
  have total' := totalPreorder_compare total
  have next : heap.nextOrder + 1 = (values ++ [v]).length := by
    rw [retained.nextOrder,length_append,length_singleton]
  unfold RepoSearchRetention.retain
  simp only
  split
  next room =>
    refine ⟨next,isHeap_siftUp total' (heapAbove_append retained.ordered _),?_⟩
    rw [arrivals_append,← retained.nextOrder]
    exact (retained.least.keep (by omega) _).perm (perm_siftUp _ _ _)
  next no_room =>
    have full : limit.toNat ≤ heap.entries.length := by omega
    split
    next none_kept =>
      have no_entries : heap.entries = [] := by
        apply length_eq_zero_iff.mp
        exact Nat.le_zero.mp (getElem?_eq_none_iff.mp none_kept)
      refine ⟨next,retained.ordered,?_⟩
      rw [arrivals_append]
      apply retained.least.drop full
      rw [no_entries]
      exact fun other absent => absurd absent not_mem_nil
    next worst at_root =>
      have last : ∀ other ∈ heap.entries, compare compareValues other worst ≤ 0 := by
        intro other kept
        obtain ⟨i,at_index⟩ := mem_iff_getElem?.mp kept
        exact retained.ordered.root total' at_root i other at_index
      split
      next not_before =>
        refine ⟨next,retained.ordered,?_⟩
        rw [arrivals_append,← retained.nextOrder]
        apply retained.least.drop full
        intro other kept
        exact total'.trans _ _ _ (last other kept) (total'.le_of_not_neg (not_lt.mpr not_before))
      next pre =>
        refine ⟨next,isHeap_siftDown total' (heapBelow_set retained.ordered _),?_⟩
        rw [arrivals_append,← retained.nextOrder]
        cases kept : heap.entries with
        | nil =>
          rw [kept] at at_root
          cases at_root
        | cons root others =>
          rw [kept] at at_root full last
          obtain rfl := Option.some.inj at_root
          have replaced := (kept ▸ retained.least).replace total' full
            (fun other mem => last other (mem_cons_of_mem root mem)) (not_le.mp pre)
          exact replaced.perm (perm_siftDown _ _ _)

theorem retained_retainAll (total : TotalPreorder compareValues) (values : List α) :
    Retained limit compareValues values (retainAll limit compareValues values) := by
  induction values using reverseRecOn with
  | nil => exact retained_empty limit compareValues
  | append_singleton values v ih =>
    rw [retainAll,foldl_append]
    exact ih.retain total v

/-- After any values, the store gives the first of them in stable order, as many as its limit
allows, and no retained entry comes after the one at its root. -/
theorem sorted_retainAll (limit : ℤ) (total : TotalPreorder compareValues) (values : List α) :
    sorted compareValues (retainAll limit compareValues values) =
        (values.mergeSort fun a b => compareValues a b ≤ 0).take limit.toNat ∧
      ∀ worst, (retainAll limit compareValues values).entries[0]? = some worst →
        ∀ entry ∈ (retainAll limit compareValues values).entries,
          compare compareValues entry worst ≤ 0 := by
  have total' := totalPreorder_compare total
  have retained : Retained limit compareValues values (retainAll limit compareValues values) :=
    retained_retainAll total values
  constructor
  · rw [sorted,retained.least.sort total' (apart_of_arrivals total),map_take,
      sort_arrivals total]
  · intro worst at_root entry kept
    obtain ⟨index,at_index⟩ := mem_iff_getElem?.mp kept
    exact retained.ordered.root total' at_root index entry at_index

theorem totalPreorder_sub (key : α → ℚ) : TotalPreorder fun a b => key a - key b where
  swap a b := by rw [sub_neg,sub_pos]
  trans a b c := by
    rw [sub_nonpos,sub_nonpos,sub_nonpos]
    exact le_trans

theorem sorted_retainAll_ties :
    TotalPreorder (fun a b : ℚ × ℕ => a.1 - b.1) ∧
      sorted (fun a b => a.1 - b.1) (retainAll 3 (fun a b : ℚ × ℕ => a.1 - b.1)
        [(2,0),(1,1),(2,2),(1,3)]) = [(1,1),(1,3),(2,0)] := by
  refine ⟨totalPreorder_sub Prod.fst,?_⟩
  rw [(sorted_retainAll 3 (totalPreorder_sub Prod.fst) _).1]
  simp [mergeSort,List.MergeSort.Internal.splitInTwo]

end Runs

end Keiko.RepoSearchRetention
