import Keiko.Library.OrderedMap
import Keiko.Library.Pairing

/-! How two fingerprint maps differ: how many keys were added, changed, removed, moved and left as
they are. A moved key is a new one that takes the place of a vanished one of the same fingerprint.
Keys and fingerprints are only compared, so they are of any type. -/
namespace Keiko.FingerprintDiff
open Keiko.Library

universe u v
variable {κ : Type u} {φ : Type v} [DecidableEq κ] [DecidableEq φ]

section Diff

structure FingerprintSetDelta where
  added : ℤ
  changed : ℤ
  removed : ℤ
  moved : ℤ
  unchanged : ℤ
  deriving DecidableEq

def tally (counts : OrderedMap φ Nat) (fingerprint : φ) : Nat := (counts.get? fingerprint).getD 0

def removedFingerprintTallies (prior : OrderedMap κ φ) (nextKeys : List κ) : OrderedMap φ Nat :=
  prior.entries.foldl (fun counts entry =>
    if entry.1 ∈ nextKeys then counts else counts.set entry.2 (tally counts entry.2 + 1)) .empty

structure Classified (φ : Type v) where
  availableMoveSources : OrderedMap φ Nat
  added : Nat
  changed : Nat
  moved : Nat
  unchanged : Nat

def classify (prior : OrderedMap κ φ) (state : Classified φ) (entry : κ × φ) : Classified φ :=
  match prior.get? entry.1 with
  | none =>
    let available := tally state.availableMoveSources entry.2
    if 0 < available then { state with
      availableMoveSources := state.availableMoveSources.set entry.2 (available - 1)
      moved := state.moved + 1 }
    else { state with added := state.added + 1 }
  | some previous =>
    if previous = entry.2 then { state with unchanged := state.unchanged + 1 }
    else { state with changed := state.changed + 1 }

def classifyNewKeys (prior next : OrderedMap κ φ) (availableMoveSources : OrderedMap φ Nat) : Classified φ :=
  next.entries.foldl (classify prior) ⟨availableMoveSources,0,0,0,0⟩

def diffFingerprintSets (prior next : OrderedMap κ φ) (detectMoves : Bool) : FingerprintSetDelta :=
  let nextKeys := next.keys
  let availableMoveSources :=
    if detectMoves then removedFingerprintTallies prior nextKeys else .empty
  let classified := classifyNewKeys prior next availableMoveSources
  let removed := prior.keys.countP fun key => decide (key ∉ nextKeys)
  ⟨classified.added,classified.changed,(removed : ℤ) - classified.moved,classified.moved,classified.unchanged⟩

end Diff

section Tallies

def Tallies (counts : OrderedMap φ Nat) (labels : List φ) : Prop :=
  ∀ label, tally counts label = labels.count label

variable {counts : OrderedMap φ Nat} {labels : List φ} {label : φ}

theorem tallies_empty : Tallies (.empty : OrderedMap φ Nat) [] := fun _ => rfl

theorem tally_set (counts : OrderedMap φ Nat) (label other : φ) (n : Nat) :
    tally (counts.set label n) other = if other = label then n else tally counts other := by
  rw [tally,OrderedMap.get?_set]
  split
  · rfl
  · rfl

theorem Tallies.cons (tallies : Tallies counts labels) (label : φ) :
    Tallies (counts.set label (tally counts label + 1)) (label :: labels) := by
  intro other
  rw [tally_set,List.count_cons]
  split
  next same =>
    subst same
    rw [tallies,beq_self_eq_true,if_pos rfl]
  next different =>
    rw [tallies,beq_eq_false_iff_ne.mpr (Ne.symm different),if_neg Bool.false_ne_true,add_zero]

theorem Tallies.erase (tallies : Tallies counts labels) (label : φ) :
    Tallies (counts.set label (tally counts label - 1)) (labels.erase label) := by
  intro other
  rw [tally_set]
  split
  next same =>
    subst same
    rw [tallies,List.count_erase_self]
  next different => rw [tallies,List.count_erase_of_ne different]

theorem Tallies.pos_iff (tallies : Tallies counts labels) : 0 < tally counts label ↔ label ∈ labels := by
  rw [tallies,List.count_pos_iff]

end Tallies

section Parts

def vanished (prior next : OrderedMap κ φ) : List (κ × φ) :=
  prior.entries.filter fun entry => decide (entry.1 ∉ next.keys)

def appeared (prior next : OrderedMap κ φ) : List (κ × φ) := vanished next prior

variable {prior next : OrderedMap κ φ}

theorem tallies_removed (prior next : OrderedMap κ φ) : ∃ labels, labels.Perm ((vanished prior next).map Prod.snd) ∧
      Tallies (removedFingerprintTallies prior next.keys) labels := by
  have all (entries : List (κ × φ)) (counts : OrderedMap φ Nat) (labels : List φ)
      (tallies : Tallies counts labels) : ∃ more,
      more.Perm (((entries.filter fun entry => decide (entry.1 ∉ next.keys)).map Prod.snd) ++ labels) ∧
        Tallies (entries.foldl (fun counts entry => if entry.1 ∈ next.keys then counts
          else counts.set entry.2 (tally counts entry.2 + 1)) counts) more := by
    induction entries generalizing counts labels with
    | nil => exact ⟨labels,List.Perm.refl labels,tallies⟩
    | cons entry entries ih =>
      rw [List.foldl_cons,List.filter_cons]
      by_cases kept : entry.1 ∈ next.keys
      · rw [if_pos kept,if_neg (by simpa using kept)]
        exact ih counts labels tallies
      · rw [if_neg kept,if_pos (by simpa using kept),List.map_cons,List.cons_append]
        obtain ⟨more,same,counted⟩ := ih _ (entry.2 :: labels) (tallies.cons entry.2)
        exact ⟨more,same.trans List.perm_middle,counted⟩
  obtain ⟨labels,same,tallies⟩ := all prior.entries _ [] tallies_empty
  rw [List.append_nil] at same
  exact ⟨labels,same,tallies⟩

theorem classify_counts (entries : List (κ × φ)) (state : Classified φ) (labels : List φ)
    (tallies : Tallies state.availableMoveSources labels) :
    let fresh := entries.filter fun entry => decide (entry.1 ∉ prior.keys)
    let result := entries.foldl (classify prior) state
    result.moved = state.moved + Pairing.shared labels (fresh.map Prod.snd) ∧
      result.added + result.moved = state.added + state.moved + fresh.length ∧
      result.unchanged = state.unchanged + entries.countP (fun entry => decide (entry ∈ prior.entries)) ∧
      result.added + result.changed + result.moved + result.unchanged =
        state.added + state.changed + state.moved + state.unchanged + entries.length := by
  induction entries generalizing state labels with
  | nil => simp
  | cons entry entries ih =>
    simp only [List.foldl_cons,List.filter_cons,List.countP_cons,List.length_cons]
    cases before : prior.get? entry.1 with
    | none =>
      have absent : entry.1 ∉ prior.keys := OrderedMap.not_mem_keys.mpr before
      have other : entry ∉ prior.entries := by
        intro member
        exact absent (List.mem_map.mpr ⟨entry,member,rfl⟩)
      rw [if_pos (decide_eq_true absent),List.map_cons,List.length_cons,decide_eq_false other]
      by_cases free : 0 < tally state.availableMoveSources entry.2
      · have moved : classify prior state entry = { state with
            availableMoveSources := state.availableMoveSources.set entry.2
              (tally state.availableMoveSources entry.2 - 1)
            moved := state.moved + 1 } := by
          rw [classify,before]
          exact if_pos free
        rw [moved]
        obtain ⟨one,two,three,four⟩ := ih { state with
          availableMoveSources := state.availableMoveSources.set entry.2 (tally state.availableMoveSources entry.2 - 1)
          moved := state.moved + 1 } (labels.erase entry.2) (tallies.erase entry.2)
        rw [Pairing.shared_cons_of_mem (tallies.pos_iff.mp free)]
        dsimp only at one two three four
        exact ⟨by omega,by omega,by simpa using three,by omega⟩
      · have added : classify prior state entry = { state with added := state.added + 1 } := by
          rw [classify,before]
          exact if_neg free
        rw [added]
        obtain ⟨one,two,three,four⟩ := ih { state with added := state.added + 1 } labels tallies
        rw [Pairing.shared_cons_of_not_mem (fun member => free (tallies.pos_iff.mpr member))]
        dsimp only at one two three four
        exact ⟨one,by omega,by simpa using three,by omega⟩
    | some previous =>
      have known : ¬ entry.1 ∉ prior.keys := not_not_intro (OrderedMap.mem_keys.mpr ⟨_,before⟩)
      rw [if_neg (by simpa using known)]
      by_cases same : previous = entry.2
      · have unchanged : classify prior state entry = { state with unchanged := state.unchanged + 1 } := by
          rw [classify,before]
          exact if_pos same
        have member : entry ∈ prior.entries := OrderedMap.mem_entries.mpr (same ▸ before)
        rw [unchanged,decide_eq_true member]
        obtain ⟨one,two,three,four⟩ := ih { state with unchanged := state.unchanged + 1 } labels tallies
        dsimp only at one two three four
        exact ⟨one,two,by rw [three,if_pos rfl]; omega,by omega⟩
      · have changed : classify prior state entry = { state with changed := state.changed + 1 } := by
          rw [classify,before]
          exact if_neg same
        have other : entry ∉ prior.entries := by
          intro member
          have found := OrderedMap.mem_entries.mp member
          rw [before] at found
          exact same (Option.some.inj found)
        rw [changed,decide_eq_false other]
        obtain ⟨one,two,three,four⟩ := ih { state with changed := state.changed + 1 } labels tallies
        dsimp only at one two three four
        exact ⟨one,two,by simpa using three,by omega⟩

end Parts

section Partition

variable (prior next : OrderedMap κ φ) (detectMoves : Bool)

def movedCount : Nat :=
  if detectMoves then Pairing.shared ((vanished prior next).map Prod.snd) ((appeared prior next).map Prod.snd)
  else 0

def unchangedCount : Nat := next.entries.countP fun entry => decide (entry ∈ prior.entries)

def common : Nat := prior.keys.countP fun key => decide (key ∈ next.keys)

omit [DecidableEq φ] in
theorem countP_keys (map : OrderedMap κ φ) (p : κ → Bool) :
    map.keys.countP p = map.entries.countP fun entry => p entry.1 := List.countP_map

theorem countP_mem_comm {α : Type*} {a b : List α} [DecidablePred (· ∈ a)] [DecidablePred (· ∈ b)]
    (one : a.Nodup) (two : b.Nodup) :
    a.countP (fun item => decide (item ∈ b)) = b.countP fun item => decide (item ∈ a) := by
  rw [List.countP_eq_length_filter,List.countP_eq_length_filter]
  apply List.Perm.length_eq
  apply (List.perm_ext_iff_of_nodup (one.filter _) (two.filter _)).mpr
  intro item
  rw [List.mem_filter,List.mem_filter,decide_eq_true_iff,decide_eq_true_iff]
  exact and_comm

omit [DecidableEq φ] in
theorem common_comm : common prior next = common next prior := countP_mem_comm prior.distinct next.distinct

omit [DecidableEq κ] [DecidableEq φ] in
theorem nodup_entries (map : OrderedMap κ φ) : map.entries.Nodup := List.Nodup.of_map _ map.distinct

theorem unchangedCount_comm : unchangedCount prior next = unchangedCount next prior :=
  countP_mem_comm (nodup_entries next) (nodup_entries prior)

theorem movedCount_comm : movedCount prior next detectMoves = movedCount next prior detectMoves := by
  unfold movedCount appeared
  split
  · rw [Pairing.shared,Pairing.shared,Multiset.inter_comm]
  · rfl

omit [DecidableEq φ] in
theorem length_vanished : (vanished prior next).length = prior.keys.countP fun key => decide (key ∉ next.keys) := by
  rw [vanished,countP_keys,List.countP_eq_length_filter]

omit [DecidableEq φ] in
theorem length_vanished_add_common : (vanished prior next).length + common prior next = prior.size := by
  have split := prior.keys.length_eq_countP_add_countP fun key => decide (key ∈ next.keys)
  have size : prior.keys.length = prior.size := List.length_map _
  rw [length_vanished,common]
  simp only [decide_not,decide_eq_true_eq] at split ⊢
  omega

theorem diff_eq : diffFingerprintSets prior next detectMoves =
    ⟨((appeared prior next).length : ℤ) - movedCount prior next detectMoves,
      (common prior next : ℤ) - unchangedCount prior next,
      ((vanished prior next).length : ℤ) - movedCount prior next detectMoves,
      movedCount prior next detectMoves,unchangedCount prior next⟩ := by
  have sources : ∃ labels, Tallies (if detectMoves then removedFingerprintTallies prior next.keys else .empty) labels ∧
        Pairing.shared labels ((appeared prior next).map Prod.snd) = movedCount prior next detectMoves := by
    cases detectMoves with
    | false => exact ⟨[],tallies_empty,Nat.le_zero.mp (Pairing.shared_le_left _ _)⟩
    | true =>
      obtain ⟨labels,same,tallies⟩ := tallies_removed prior next
      exact ⟨labels,tallies,Pairing.shared_perm same (List.Perm.refl _)⟩
  obtain ⟨labels,tallies,shared⟩ := sources
  rw [diffFingerprintSets]
  generalize (if detectMoves then removedFingerprintTallies prior next.keys else .empty) = sources at tallies ⊢
  obtain ⟨moved,added,unchanged,all⟩ :=
    @classify_counts _ _ _ _ prior next.entries ⟨sources,0,0,0,0⟩ labels tallies
  have fresh : (next.entries.filter fun entry => decide (entry.1 ∉ prior.keys)) = appeared prior next := rfl
  have same : next.entries.countP (fun entry => decide (entry ∈ prior.entries)) = unchangedCount prior next := rfl
  have classified : next.entries.foldl (classify prior) ⟨sources,0,0,0,0⟩ = classifyNewKeys prior next sources := rfl
  rw [fresh,shared,classified] at moved
  rw [fresh,classified] at added
  rw [same,classified] at unchanged
  rw [classified] at all
  have kept := length_vanished_add_common next prior
  have size : next.size = next.entries.length := rfl
  rw [common_comm next prior] at kept
  rw [← length_vanished,FingerprintSetDelta.mk.injEq]
  unfold appeared at added ⊢
  dsimp only at moved added unchanged all
  refine ⟨?_,?_,?_,?_,?_⟩ <;> omega

variable {prior next}

theorem movedCount_le_left : movedCount prior next detectMoves ≤ (vanished prior next).length := by
  unfold movedCount
  split
  · exact (Pairing.shared_le_left _ _).trans_eq (List.length_map _)
  · exact Nat.zero_le _

theorem movedCount_le_right : movedCount prior next detectMoves ≤ (appeared prior next).length := by
  unfold movedCount
  split
  · exact (Pairing.shared_le_right _ _).trans_eq (List.length_map _)
  · exact Nat.zero_le _

theorem unchangedCount_le : unchangedCount prior next ≤ common prior next := by
  rw [common_comm,unchangedCount,common,countP_keys]
  apply List.countP_mono_left
  intro entry _ member
  rw [decide_eq_true_iff] at member
  exact decide_eq_true (List.mem_map.mpr ⟨entry,member,rfl⟩)

omit [DecidableEq φ] in
theorem nodup_vanished : (vanished prior next).Nodup := (nodup_entries prior).filter _

theorem unchangedCount_eq_size : unchangedCount prior next = next.size ↔ next.entries ⊆ prior.entries := by
  rw [unchangedCount,OrderedMap.size,List.countP_eq_length]
  exact forall₂_congr fun _ _ => decide_eq_true_iff

theorem diff_perm {prior' next' : OrderedMap κ φ} (samePrior : prior'.entries.Perm prior.entries)
    (sameNext : next'.entries.Perm next.entries) :
    diffFingerprintSets prior' next' detectMoves = diffFingerprintSets prior next detectMoves := by
  have gone {one one' two two' : OrderedMap κ φ} (first : one'.entries.Perm one.entries)
      (second : two'.entries.Perm two.entries) : (vanished one' two').Perm (vanished one two) := by
    have keys : (fun entry : κ × φ => decide (entry.1 ∉ two'.keys)) = fun entry => decide (entry.1 ∉ two.keys) := by
      funext entry
      rw [decide_eq_decide]
      exact not_congr (second.map Prod.fst).mem_iff
    rw [vanished,vanished,keys]
    exact first.filter _
  have vanishing := gone samePrior sameNext
  have appearing : (appeared prior' next').Perm (appeared prior next) := gone sameNext samePrior
  have moved : movedCount prior' next' detectMoves = movedCount prior next detectMoves := by
    unfold movedCount
    rw [Pairing.shared_perm (vanishing.map Prod.snd) (appearing.map Prod.snd)]
  have unchanged : unchangedCount prior' next' = unchangedCount prior next := by
    have inside : (fun entry => decide (entry ∈ prior'.entries)) = fun entry => decide (entry ∈ prior.entries) := by
      funext entry
      rw [decide_eq_decide]
      exact samePrior.mem_iff
    rw [unchangedCount,unchangedCount,inside]
    exact sameNext.countP_eq _
  have kept := length_vanished_add_common prior next
  have kept' := length_vanished_add_common prior' next'
  have size : prior'.size = prior.size := samePrior.length_eq
  have shared : common prior' next' = common prior next := by
    have length := vanishing.length_eq
    omega
  rw [diff_eq,diff_eq,moved,unchanged,vanishing.length_eq,appearing.length_eq,shared]

end Partition

/-- The counts split both maps, moves are a largest pairing of vanished keys with new ones of the
same fingerprint, and the order of the keys does not matter. -/
theorem diffFingerprintSets_partitions (prior next : OrderedMap κ φ) (detectMoves : Bool) :
    let delta := diffFingerprintSets prior next detectMoves
    delta.added + delta.changed + delta.moved + delta.unchanged = next.size ∧
    delta.removed + delta.changed + delta.moved + delta.unchanged = prior.size ∧
    (0 ≤ delta.added ∧ 0 ≤ delta.changed ∧ 0 ≤ delta.removed ∧ 0 ≤ delta.moved ∧
      0 ≤ delta.unchanged) ∧
    (detectMoves = true → ∃ size : Nat, delta.moved = size ∧
      Pairing.IsMaximum (vanished prior next) (appeared prior next) Prod.snd Prod.snd size) ∧
    (detectMoves = false → delta.moved = 0) ∧
    ∀ prior' next' : OrderedMap κ φ, prior'.entries.Perm prior.entries →
      next'.entries.Perm next.entries → diffFingerprintSets prior' next' detectMoves = delta := by
  have left := @movedCount_le_left _ _ _ _ prior next detectMoves
  have right := @movedCount_le_right _ _ _ _ prior next detectMoves
  have inside := @unchangedCount_le _ _ _ _ prior next
  have gone := length_vanished_add_common prior next
  have fresh := length_vanished_add_common next prior
  rw [common_comm next prior] at fresh
  change (appeared prior next).length + _ = _ at fresh
  intro delta
  have counts : delta = _ := diff_eq prior next detectMoves
  refine ⟨?_,?_,?_,?_,?_,?_⟩
  · rw [counts]
    simp only
    omega
  · rw [counts]
    simp only
    omega
  · rw [counts]
    refine ⟨?_,?_,?_,?_,?_⟩ <;> simp only <;> omega
  · intro detect
    refine ⟨_,by rw [counts],?_⟩
    rw [movedCount,if_pos detect]
    exact Pairing.isMaximum_shared nodup_vanished nodup_vanished
  · intro off
    rw [counts]
    simp [movedCount,off]
  · intro prior' next' samePrior sameNext
    exact diff_perm detectMoves samePrior sameNext

omit [DecidableEq φ] in
theorem length_appeared_add_common (prior next : OrderedMap κ φ) :
    (appeared prior next).length + common prior next = next.size := by
  rw [common_comm]
  exact length_vanished_add_common next prior

/-- Exchanging the maps exchanges what is added and what is removed, and there is no difference exactly
between maps of the same entries. -/
theorem diffFingerprintSets_swap (prior next : OrderedMap κ φ) (detectMoves : Bool) :
    let delta := diffFingerprintSets prior next detectMoves
    diffFingerprintSets next prior detectMoves =
        ⟨delta.removed,delta.changed,delta.added,delta.moved,delta.unchanged⟩ ∧
      (delta.added = 0 ∧ delta.changed = 0 ∧ delta.removed = 0 ∧ delta.moved = 0 ↔
        prior.entries.Perm next.entries) := by
  have left := @movedCount_le_left _ _ _ _ prior next detectMoves
  have inside := @unchangedCount_le _ _ _ _ prior next
  have gone := length_vanished_add_common prior next
  have fresh := length_appeared_add_common prior next
  intro delta
  have counts : delta = _ := diff_eq prior next detectMoves
  constructor
  · rw [counts,diff_eq,movedCount_comm next prior,unchangedCount_comm next prior,common_comm next prior]
    rfl
  · have same : delta.added = 0 ∧ delta.changed = 0 ∧ delta.removed = 0 ∧ delta.moved = 0 ↔
        unchangedCount next prior = prior.size ∧ unchangedCount prior next = next.size := by
      rw [counts,unchangedCount_comm next prior]
      simp only
      omega
    rw [same,unchangedCount_eq_size,unchangedCount_eq_size,
      List.perm_ext_iff_of_nodup (nodup_entries prior) (nodup_entries next)]
    constructor
    · rintro ⟨one,two⟩ entry
      exact ⟨fun mem => one mem,fun mem => two mem⟩
    · intro both
      exact ⟨fun entry => (both entry).mp,fun entry => (both entry).mpr⟩

end Keiko.FingerprintDiff
