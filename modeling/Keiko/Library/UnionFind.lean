import Mathlib.Data.List.Induction
import Mathlib.Data.Nat.Basic
import Mathlib.Logic.Function.Basic
import Mathlib.Logic.Relation
import Mathlib.Order.MinMax

/-! Union-find over the natural numbers with path compression, in which the smaller of two roots
becomes the root of both. No parent is larger than its child, which bounds every walk to a root.
After a list of unions, two numbers have one root just when the unions connect them. -/
namespace Keiko.Library
open List

structure UnionFind where
  parent : ℕ → ℕ
  parent_le : ∀ i, parent i ≤ i

namespace UnionFind

def create : UnionFind := ⟨id,fun _ => Nat.le_refl _⟩

section Root
variable (uf : UnionFind)

/-- The walk from parent to parent; a number of as many steps as it is large ends at a root. -/
def rootFrom : (fuel i : ℕ) → ℕ
  | 0, i => i
  | fuel + 1, i => if uf.parent i = i then i else rootFrom fuel (uf.parent i)

def root (i : ℕ) : ℕ := uf.rootFrom i i

variable {uf} {i j : ℕ}

theorem parent_lt (inner : uf.parent i ≠ i) : uf.parent i < i :=
  lt_of_le_of_ne (uf.parent_le i) inner

theorem rootFrom_eq {fuel : ℕ} (enough : i ≤ fuel) : uf.rootFrom fuel i = uf.root i := by
  induction i using Nat.strongRecOn generalizing fuel with
  | ind i ih =>
    cases fuel with
    | zero =>
      obtain rfl := Nat.le_zero.mp enough
      rfl
    | succ fuel =>
      by_cases top : uf.parent i = i
      · cases i with
        | zero => rw [rootFrom,if_pos top,root,rootFrom]
        | succ i => rw [rootFrom,if_pos top,root,rootFrom,if_pos top]
      · have smaller := parent_lt top
        cases i with
        | zero => exact absurd smaller (Nat.not_lt_zero _)
        | succ i =>
          rw [rootFrom,if_neg top,root,rootFrom,if_neg top,ih _ smaller (by omega),ih _ smaller (by omega)]

theorem root_of_top (top : uf.parent i = i) : uf.root i = i := by
  cases i with
  | zero => rfl
  | succ i => rw [root,rootFrom,if_pos top]

theorem root_parent (i : ℕ) : uf.root (uf.parent i) = uf.root i := by
  by_cases top : uf.parent i = i
  · rw [top]
  · have smaller := parent_lt top
    cases i with
    | zero => exact absurd smaller (Nat.not_lt_zero _)
    | succ i => rw [root.eq_def uf (i + 1),rootFrom,if_neg top,rootFrom_eq (by omega)]

theorem descend (uf : UnionFind) {motive : ℕ → Prop} (top : ∀ i, uf.parent i = i → motive i)
    (inner : ∀ i, uf.parent i ≠ i → motive (uf.parent i) → motive i) (i : ℕ) : motive i := by
  induction i using Nat.strongRecOn with
  | ind i ih =>
    by_cases root : uf.parent i = i
    · exact top i root
    · exact inner i root (ih _ (parent_lt root))

@[simp] theorem parent_root (i : ℕ) : uf.parent (uf.root i) = uf.root i := by
  induction i using (descend uf) with
  | top i top => rw [root_of_top top,top]
  | inner i _ ih => rwa [root_parent] at ih

@[simp] theorem root_root (i : ℕ) : uf.root (uf.root i) = uf.root i :=
  root_of_top (parent_root i)

theorem root_le (i : ℕ) : uf.root i ≤ i := by
  induction i using (descend uf) with
  | top i top => exact (root_of_top top).le
  | inner i _ ih =>
    rw [root_parent] at ih
    exact ih.trans (uf.parent_le i)

theorem root_unique (top : ℕ → ℕ) (fixed : ∀ i, uf.parent i = i → top i = i)
    (kept : ∀ i, top (uf.parent i) = top i) (i : ℕ) : uf.root i = top i := by
  induction i using (descend uf) with
  | top i root => rw [root_of_top root,fixed i root]
  | inner i _ ih => rw [← root_parent,ih,kept]

@[simp] theorem root_create (i : ℕ) : create.root i = i := root_of_top rfl

end Root

section Find

/-- `parent[i] = target`. -/
def point (uf : UnionFind) (i target : ℕ) (below : target ≤ i) : UnionFind :=
  ⟨Function.update uf.parent i target,fun j => by
    by_cases same : j = i
    · rw [same,Function.update_self]
      exact below
    · rw [Function.update_of_ne same]
      exact uf.parent_le j⟩

variable {uf : UnionFind} {i j : ℕ}

theorem parent_point_self {tgt : ℕ} (below : tgt ≤ i) : (uf.point i tgt below).parent i = tgt := by
  show Function.update uf.parent i tgt i = tgt
  rw [Function.update_self]

theorem parent_point_of_ne {tgt k : ℕ} (below : tgt ≤ i) (other : k ≠ i) :
    (uf.point i tgt below).parent k = uf.parent k := by
  show Function.update uf.parent i tgt k = uf.parent k
  rw [Function.update_of_ne other]

theorem root_point_root (i j : ℕ) : (uf.point i (uf.root i) (root_le i)).root j = uf.root j := by
  apply root_unique uf.root
  · intro k top
    by_cases same : k = i
    · subst same
      rw [parent_point_self] at top
      exact top
    · rw [parent_point_of_ne _ same] at top
      exact root_of_top top
  · intro k
    by_cases same : k = i
    · subst same
      rw [parent_point_self,root_root]
    · rw [parent_point_of_ne _ same,root_parent]

def compressFrom (top : ℕ) : (fuel : ℕ) → (uf : UnionFind) → (cursor : ℕ) → uf.root cursor = top → UnionFind
  | 0, uf, _, _ => uf
  | fuel + 1, uf, cursor, found =>
    if uf.parent cursor = cursor then uf
    else compressFrom top fuel (uf.point cursor top (found ▸ root_le cursor)) (uf.parent cursor) (by
        subst found
        rw [root_point_root,root_parent])

def findRoot (uf : UnionFind) (i : ℕ) : ℕ × UnionFind :=
  (uf.root i,compressFrom (uf.root i) i uf i rfl)

theorem root_compressFrom {top fuel cursor : ℕ} (hit : uf.root cursor = top) (j : ℕ) :
    (compressFrom top fuel uf cursor hit).root j = uf.root j := by
  induction fuel generalizing uf cursor with
  | zero => rfl
  | succ fuel ih =>
    rw [compressFrom]
    split
    · rfl
    · rw [ih]
      subst hit
      exact root_point_root cursor j

@[simp] theorem findRoot_fst (uf : UnionFind) (i : ℕ) : (uf.findRoot i).1 = uf.root i := rfl

@[simp] theorem root_findRoot (uf : UnionFind) (i j : ℕ) :
    (uf.findRoot i).2.root j = uf.root j := root_compressFrom rfl j

end Find

section Union

def union (uf : UnionFind) (a b : ℕ) : UnionFind :=
  let first := uf.findRoot a
  let second := first.2.findRoot b
  if first.1 = second.1 then second.2
  else if less : first.1 < second.1 then second.2.point second.1 first.1 less.le
  else second.2.point first.1 second.1 (Nat.le_of_not_lt less)

variable {uf : UnionFind}

theorem root_point_tops {high low : ℕ} (high_top : uf.parent high = high)
    (low_top : uf.parent low = low) (less : low < high) (j : ℕ) :
    (uf.point high low less.le).root j = if uf.root j = high then low else uf.root j := by
  have low_root : uf.root low = low := root_of_top low_top
  have high_root : uf.root high = high := root_of_top high_top
  apply root_unique fun k => if uf.root k = high then low else uf.root k
  · intro k top
    by_cases same : k = high
    · subst same
      rw [parent_point_self] at top
      omega
    · rw [parent_point_of_ne _ same] at top
      rw [root_of_top top,if_neg same]
  · intro k
    by_cases same : k = high
    · subst same
      rw [parent_point_self,low_root,if_neg less.ne,high_root,if_pos rfl]
    · rw [parent_point_of_ne _ same,root_parent]

theorem root_union (uf : UnionFind) (a b j : ℕ) :
    (uf.union a b).root j = if uf.root j = uf.root a ∨ uf.root j = uf.root b then
      min (uf.root a) (uf.root b) else uf.root j := by
  have tops : ∀ k, ((uf.findRoot a).2.findRoot b).2.root k = uf.root k := fun k => by
    rw [root_findRoot,root_findRoot]
  have top : ∀ k, ((uf.findRoot a).2.findRoot b).2.parent (uf.root k) = uf.root k := fun k => by
    rw [← tops k,parent_root]
  have second : ((uf.findRoot a).2.findRoot b).1 = uf.root b := by
    rw [findRoot_fst,root_findRoot]
  unfold union
  simp only [second,findRoot_fst uf a]
  split
  case isTrue same =>
    rw [tops,← same,min_self]
    split
    next at_root => exact at_root.elim id id
    next => rfl
  case isFalse apart =>
    split
    case isTrue less =>
      rw [root_point_tops (top b) (top a) less,tops,min_eq_left less.le]
      by_cases in_b : uf.root j = uf.root b
      · rw [if_pos in_b,if_pos (.inr in_b)]
      · rw [if_neg in_b]
        by_cases in_a : uf.root j = uf.root a
        · rw [if_pos (.inl in_a),in_a]
        · rw [if_neg (not_or.mpr ⟨in_a,in_b⟩)]
    case isFalse less =>
      have greater : uf.root b < uf.root a := by omega
      rw [root_point_tops (top a) (top b) greater,tops,min_eq_right greater.le]
      by_cases in_a : uf.root j = uf.root a
      · rw [if_pos in_a,if_pos (.inl in_a)]
      · rw [if_neg in_a]
        by_cases in_b : uf.root j = uf.root b
        · rw [if_pos (.inr in_b),in_b]
        · rw [if_neg (not_or.mpr ⟨in_a,in_b⟩)]

theorem root_union_self (uf : UnionFind) (a b : ℕ) : (uf.union a b).root a = (uf.union a b).root b := by
  rw [root_union,root_union,if_pos (.inl rfl),if_pos (.inr rfl)]

theorem root_union_of_eq {a b i j : ℕ} (same : uf.root i = uf.root j) :
    (uf.union a b).root i = (uf.union a b).root j := by
  rw [root_union,root_union,same]

end Union

section Connection

def unionAll (uf : UnionFind) (pairs : List (ℕ × ℕ)) : UnionFind :=
  pairs.foldl (fun uf pair => uf.union pair.1 pair.2) uf

variable {uf : UnionFind} {pairs : List (ℕ × ℕ)}

@[simp] theorem unionAll_nil (uf : UnionFind) : uf.unionAll [] = uf := rfl

theorem unionAll_append (uf : UnionFind) (a b : List (ℕ × ℕ)) :
    uf.unionAll (a ++ b) = (uf.unionAll a).unionAll b :=
  foldl_append

theorem root_unionAll_create (pairs : List (ℕ × ℕ)) (i j : ℕ) :
    (create.unionAll pairs).root i = (create.unionAll pairs).root j ↔
      Relation.EqvGen (fun a b => (a,b) ∈ pairs) i j := by
  constructor
  · -- One union connects numbers of two roots through its pair.
    induction pairs using reverseRecOn generalizing i j with
    | nil =>
      intro same
      rw [unionAll_nil,root_create,root_create] at same
      exact same ▸ .refl i
    | append_singleton pairs pair ih =>
      have pre : ∀ k l, (create.unionAll pairs).root k = (create.unionAll pairs).root l →
          Relation.EqvGen (fun a b => (a,b) ∈ pairs ++ [pair]) k l := fun k l same =>
        (ih k l same).mono fun a b mem => mem_append_left _ mem
      have across : Relation.EqvGen (fun a b => (a,b) ∈ pairs ++ [pair]) pair.1 pair.2 :=
        .rel _ _ (mem_append_right _ mem_cons_self)
      -- A number of one of the two roots is connected to both ends of the pair.
      have joined : ∀ k, (create.unionAll pairs).root k = (create.unionAll pairs).root pair.1 ∨
          (create.unionAll pairs).root k = (create.unionAll pairs).root pair.2 →
          Relation.EqvGen (fun a b => (a,b) ∈ pairs ++ [pair]) k pair.1 := by
        intro k ends
        rcases ends with first | second
        · exact pre _ _ first
        · exact (pre _ _ second).trans _ _ _ across.symm
      intro same
      rw [unionAll_append,unionAll,foldl_cons,foldl_nil,root_union,root_union] at same
      by_cases ends_i : (create.unionAll pairs).root i = (create.unionAll pairs).root pair.1 ∨
          (create.unionAll pairs).root i = (create.unionAll pairs).root pair.2
      · by_cases ends_j : (create.unionAll pairs).root j = (create.unionAll pairs).root pair.1 ∨
            (create.unionAll pairs).root j = (create.unionAll pairs).root pair.2
        · exact (joined i ends_i).trans _ _ _ (joined j ends_j).symm
        · rw [if_pos ends_i,if_neg ends_j] at same
          exfalso
          apply ends_j
          rcases min_choice ((create.unionAll pairs).root pair.1)
            ((create.unionAll pairs).root pair.2) with chosen | chosen
          · exact .inl (same ▸ chosen)
          · exact .inr (same ▸ chosen)
      · by_cases ends_j : (create.unionAll pairs).root j = (create.unionAll pairs).root pair.1 ∨
            (create.unionAll pairs).root j = (create.unionAll pairs).root pair.2
        · rw [if_neg ends_i,if_pos ends_j] at same
          exfalso
          apply ends_i
          rcases min_choice ((create.unionAll pairs).root pair.1)
            ((create.unionAll pairs).root pair.2) with chosen | chosen
          · exact .inl (same.trans chosen)
          · exact .inr (same.trans chosen)
        · rw [if_neg ends_i,if_neg ends_j] at same
          exact pre _ _ same
  · intro connected
    induction connected with
    | rel a b mem =>
      obtain ⟨front,back,rfl⟩ := append_of_mem mem
      rw [unionAll_append]
      have kept : ∀ (back : List (ℕ × ℕ)) (uf : UnionFind), uf.root a = uf.root b →
          (uf.unionAll back).root a = (uf.unionAll back).root b := by
        intro back
        induction back with
        | nil => exact fun _ same => same
        | cons pair back ih => exact fun uf same => ih _ (root_union_of_eq same)
      exact kept back _ (root_union_self _ a b)
    | refl => rfl
    | symm _ _ _ ih => exact ih.symm
    | trans _ _ _ _ _ first second => exact first.trans second

end Connection

end UnionFind

end Keiko.Library
