import Mathlib.Algebra.GroupWithZero.Nat
import Mathlib.Data.List.Basic
import Mathlib.Data.List.Nodup
import Mathlib.Data.List.Perm.Subperm
import Mathlib.Data.List.Range

/-! Lists that hold an element once: collecting the first occurrences of those
elements that pass a test, and finding a name that a list does not hold. -/
namespace Keiko.Library.Distinct
open List

section Names

variable {α β : Type*} {xs : List α} {name : α → β} {item : α}

theorem sum_update (nodup : (xs.map name).Nodup) (mem : item ∈ xs) {f g : α → ℕ}
    (others : ∀ other ∈ xs, name other ≠ name item → g other = f other) :
    (xs.map g).sum + f item = (xs.map f).sum + g item := by
  induction xs with
  | nil => cases mem
  | cons a xs ih =>
    rw [map_cons,nodup_cons] at nodup
    rw [map_cons,map_cons,sum_cons,sum_cons]
    rcases mem_cons.mp mem with rfl | inside
    · have rest : xs.map g = xs.map f := by
        apply map_congr_left
        intro other here
        apply others other (mem_cons_of_mem _ here)
        intro same
        exact nodup.1 (mem_map.mpr ⟨other,here,same⟩)
      rw [rest]
      omega
    · have differ : name a ≠ name item := by
        intro same
        exact nodup.1 (mem_map.mpr ⟨item,inside,same.symm⟩)
      have tail := ih nodup.2 inside fun other here =>
        others other (mem_cons_of_mem _ here)
      have head := others a mem_cons_self differ
      omega

theorem eq_of_nodup_filterMap {f : α → Option β} (nodup : (xs.filterMap f).Nodup)
    {a b : α} (one : a ∈ xs) (two : b ∈ xs) {name : β}
    (first_name : f a = some name) (second_name : f b = some name) : a = b := by
  have apart := pairwise_filterMap.mp nodup
  have forward : xs.Pairwise fun one two => f one = some name → f two = some name → one = two :=
    apart.imp fun differ named other_named => absurd rfl (differ _ named _ other_named)
  have back : xs.Pairwise fun one two => f two = some name → f one = some name → two = one :=
    apart.imp fun differ other_named named => absurd rfl (differ _ named _ other_named)
  exact List.Pairwise.forall_of_forall_of_flip (fun _ _ _ _ => rfl) forward back one two first_name second_name

theorem countP_eq_one (nodup : xs.Nodup) (mem : item ∈ xs) {p : α → Bool}
    (only : ∀ other ∈ xs, p other = true ↔ other = item) : xs.countP p = 1 := by
  obtain ⟨front,back,rfl⟩ := append_of_mem mem
  rw [nodup_middle,nodup_cons] at nodup
  have none_else : ∀ other ∈ front ++ back, ¬p other = true := by
    intro other inside passed
    have same := (only other (by
      rcases mem_append.mp inside with first | last
      · exact mem_append_left _ first
      · exact mem_append_right _ (mem_cons_of_mem _ last))).mp passed
    exact nodup.1 (same ▸ inside)
  have front_none : front.countP p = 0 := countP_eq_zero.mpr fun other inside =>
    none_else other (mem_append_left _ inside)
  have back_none : back.countP p = 0 := countP_eq_zero.mpr fun other inside =>
    none_else other (mem_append_right _ inside)
  rw [countP_append,countP_cons_of_pos ((only item mem).mpr rfl),front_none,back_none]

end Names

variable {α β : Type*} [DecidableEq α] [DecidableEq β]

section Collect
variable (keep : α → Bool) {out : List α} {e : α}

def add (out : List α) (entry : α) : List α :=
  if keep entry = true ∧ entry ∉ out then out ++ [entry] else out

def collect (out entries : List α) : List α := entries.foldl (add keep) out

@[simp] theorem collect_nil (out : List α) : collect keep out [] = out := rfl

@[simp] theorem collect_cons (out : List α) (e : α) (es : List α) :
    collect keep out (e :: es) = collect keep (add keep out e) es := rfl

theorem collect_append (out a b : List α) :
    collect keep out (a ++ b) = collect keep (collect keep out a) b :=
  foldl_append

@[simp] theorem mem_add (out : List α) (e x : α) :
    x ∈ add keep out e ↔ x ∈ out ∨ (keep x = true ∧ x = e) := by
  unfold add
  split
  case isTrue kept =>
    simp only [mem_append,mem_singleton]
    constructor
    · intro mem
      apply mem.imp_right
      intro same
      exact ⟨same ▸ kept.1,same⟩
    · intro mem
      exact mem.imp_right And.right
  case isFalse dropped =>
    constructor
    · exact .inl
    · intro mem
      obtain mem | ⟨kept,same⟩ := mem
      · exact mem
      · subst same
        by_contra absent
        exact dropped ⟨kept,absent⟩

@[simp] theorem mem_collect (out es : List α) (x : α) :
    x ∈ collect keep out es ↔ x ∈ out ∨ (keep x = true ∧ x ∈ es) := by
  induction es generalizing out with
  | nil => simp
  | cons e es ih =>
    rw [collect_cons,ih,mem_add,mem_cons]
    tauto

theorem nodup_add (e : α) (nodup : out.Nodup) : (add keep out e).Nodup := by
  unfold add
  split
  case isTrue kept => exact List.Nodup.append nodup (nodup_singleton _) (by simpa using kept.2)
  case isFalse => exact nodup

theorem nodup_collect (es : List α) (nodup : out.Nodup) : (collect keep out es).Nodup := by
  induction es generalizing out with
  | nil => exact nodup
  | cons e es ih => exact ih (nodup_add keep e nodup)

theorem collect_eq_append {es : List α} (nodup : (out ++ es).Nodup)
    (kept : ∀ e ∈ es, keep e = true) :
    collect keep out es = out ++ es := by
  induction es generalizing out with
  | nil => simp
  | cons e es ih =>
    have fresh : e ∉ out := by
      intro mem
      exact (nodup_append.mp nodup).2.2 e mem e (by simp) rfl
    rw [collect_cons,add,if_pos ⟨kept e (by simp),fresh⟩,ih (by simpa using nodup)
      (fun x mem => kept x (by simp [mem]))]
    simp

theorem collect_collect (es : List α) : collect keep [] (collect keep [] es) = collect keep [] es := by
  apply collect_eq_append
  · simpa using nodup_collect keep es nodup_nil
  · intro e mem
    simpa using ((mem_collect keep [] es e).mp mem).resolve_left (by simp) |>.1

theorem add_of_mem (mem : e ∈ out) : add keep out e = out :=
  if_neg (fun fresh => fresh.2 mem)

theorem add_of_dropped (dropped : keep e = false) : add keep out e = out :=
  if_neg (fun kept => by simp [dropped] at kept)

/-- Collecting images may start from the collected originals, provided a dropped
original never has a kept image. -/
theorem collect_map_collect (keep' : β → Bool) (f : α → β)
    (respects : ∀ x, keep x = false → keep' (f x) = false) (es : List α) :
    collect keep' [] ((collect keep [] es).map f) = collect keep' [] (es.map f) := by
  induction es using reverseRecOn with
  | nil => rfl
  | append_singleton es e ih =>
    rw [collect_append,map_append,collect_append,collect_cons,collect_nil,map_singleton,collect_cons,collect_nil,← ih]
    by_cases kept : keep e = true
    · by_cases seen : e ∈ collect keep [] es
      · rw [add_of_mem keep seen]
        by_cases image : keep' (f e) = true
        · rw [add_of_mem keep']
          simpa [image] using ⟨e,by simpa using seen,rfl⟩
        · rw [add_of_dropped keep' (by simpa using image)]
      · rw [add,if_pos ⟨kept,seen⟩,map_append,collect_append]
        rfl
    · have dropped : keep e = false := by simpa using kept
      rw [add_of_dropped keep dropped,add_of_dropped keep' (respects e dropped)]

theorem pair_sublist_collect {front back : List α} {a b : α} (kept : keep a = true)
    (kept' : keep b = true) (early : a ∈ front) (late : b ∈ back) (absent : b ∉ front) :
    [a,b].Sublist (collect keep [] (front ++ back)) := by
  have grows : ∀ es out, out.Sublist (collect keep out es) ∧
      (b ∈ es → b ∉ out → (out ++ [b]).Sublist (collect keep out es)) := by
    intro es
    induction es with
    | nil => exact fun out => ⟨List.Sublist.refl out,fun none => absurd none not_mem_nil⟩
    | cons e es ih =>
      intro out
      have wider : out.Sublist (add keep out e) := by
        unfold add
        split
        · exact sublist_append_left out [e]
        · exact List.Sublist.refl out
      refine ⟨wider.trans (ih _).1,?_⟩
      intro mem fresh
      by_cases here : e = b
      · have added : add keep out e = out ++ [b] := by
          rw [add,if_pos ⟨here ▸ kept',here ▸ fresh⟩,here]
        rw [collect_cons,added]
        exact (ih _).1
      · have post := (mem_cons.mp mem).resolve_left (Ne.symm here)
        have fresh' : b ∉ add keep out e := by
          rw [mem_add]
          exact fun old => old.elim fresh fun added => here added.2.symm
        exact (wider.append (List.Sublist.refl [b])).trans ((ih _).2 post fresh')
  have held : a ∈ collect keep [] front := (mem_collect keep [] front a).mpr (.inr ⟨kept,early⟩)
  have fresh : b ∉ collect keep [] front := by
    rw [mem_collect]
    exact fun old => old.elim not_mem_nil fun inside => absent inside.2
  rw [collect_append]
  exact ((singleton_sublist.mpr held).append (List.Sublist.refl [b])).trans ((grows back _).2 late fresh)

end Collect

omit [DecidableEq α] in
theorem not_pair_sublist_swap {items : List α} {a b : α} (nodup : items.Nodup) (differ : a ≠ b)
    (forward : [a,b].Sublist items) : ¬ [b,a].Sublist items := by
  induction items with
  | nil => exact fun back => cons_ne_nil b [a] (sublist_nil.mp back)
  | cons item items ih =>
    rw [nodup_cons] at nodup
    intro back
    rcases cons_sublist_cons'.mp forward with mem | ⟨here,_⟩
    · rcases cons_sublist_cons'.mp back with inside' | ⟨here',_⟩
      · exact ih nodup.2 mem inside'
      · exact nodup.1 (here' ▸ mem.subset (by simp))
    · rcases cons_sublist_cons'.mp back with inside' | ⟨here',_⟩
      · exact nodup.1 (here ▸ inside'.subset (by simp))
      · exact differ (here.trans here'.symm)

section Fresh

/-- The first index from `start` on whose name is not taken, within a budget of steps. -/
def freeIndex (taken : List α) (name : Nat → α) : (budget start : Nat) → Nat
  | 0, start => start
  | budget + 1, start =>
    if name start ∈ taken then freeIndex taken name budget (start + 1) else start

variable {taken : List α} {name : Nat → α} {n : Nat}

private theorem names_taken {start : Nat} (hit : name (freeIndex taken name n start) ∈ taken) :
    ∀ step ≤ n, name (start + step) ∈ taken := by
  induction n generalizing start with
  | zero =>
    intro step bound
    obtain rfl : step = 0 := by omega
    exact hit
  | succ n ih =>
    intro step bound
    rw [freeIndex] at hit
    split at hit
    case isTrue first =>
      cases step with
      | zero => exact first
      | succ step =>
        have post := ih hit step (by omega)
        rwa [Nat.add_assoc,Nat.add_comm 1 step] at post
    case isFalse free => exact absurd hit free

theorem freeIndex_le (taken : List α) (name : Nat → α) (n start : Nat) :
    freeIndex taken name n start ≤ start + n := by
  induction n generalizing start with
  | zero => exact le_refl _
  | succ n ih =>
    rw [freeIndex]
    split
    · exact (ih (start + 1)).trans (by omega)
    · exact Nat.le_add_right _ _

theorem freeIndex_free (injective : Function.Injective name) (enough : taken.length ≤ n) (start : Nat) :
    name (freeIndex taken name n start) ∉ taken := by
  intro hit
  let names := (range (n + 1)).map fun step => name (start + step)
  have nodup : names.Nodup := by
    apply nodup_range.map
    intro i j same
    exact Nat.add_left_cancel (injective same)
  have inside : names ⊆ taken := by
    intro e mem
    obtain ⟨step,bound,rfl⟩ := mem_map.mp mem
    exact names_taken hit step (by simpa [Nat.lt_succ_iff] using bound)
  have size := (subperm_of_subset nodup inside).length_le
  simp only [names,length_map,length_range] at size
  omega

end Fresh

end Keiko.Library.Distinct
