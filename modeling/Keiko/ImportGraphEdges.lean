import Keiko.Library.OrderedMap
import Keiko.Library.Text
import Mathlib.Data.List.Induction

/-! The import graph and its traversal. Edges are indexed under their importers and under the targets
that were resolved. A worklist over edges, with one set of visited edges and one of visited nodes,
returns the edges of all chains from a file, the nearer ones first. -/
namespace Keiko.ImportGraphEdges
open Keiko.Library List

section Graph

structure ResolvedImportEdge where
  stableId : Text
  importerPath : Text
  targetPath : Option Text
  deriving DecidableEq

abbrev Index := OrderedMap Text (List ResolvedImportEdge)

def addToIndex (index : Index) (key : Option Text) (edge : ResolvedImportEdge) : Index :=
  match key with
  | none => index
  | some key => index.set key ((index.get? key).getD [] ++ [edge])

structure ImportGraph where
  edges : List ResolvedImportEdge
  forward : Index
  reverse : Index

def emptyGraph : ImportGraph := ⟨[],.empty,.empty⟩

def appendImportEdges (graph : ImportGraph) (edges : List ResolvedImportEdge) : ImportGraph :=
  edges.foldl (fun graph edge => ⟨graph.edges ++ [edge],addToIndex graph.forward (some edge.importerPath) edge,
    addToIndex graph.reverse edge.targetPath edge⟩) graph

/-- One turn of the loop takes the edge at the queue's front; the fuel bounds the turns. -/
def traverse (nextKey : ResolvedImportEdge → Option Text) (lookup : Text → List ResolvedImportEdge) :
    (fuel : ℕ) → (queue : List ResolvedImportEdge) → (visitedEdges visitedNodes : List Text) →
    (result : List ResolvedImportEdge) → Option (List ResolvedImportEdge)
  | _, [], _, _, result => some result
  | 0, _ :: _, _, _, _ => none
  | fuel + 1, edge :: queue, visitedEdges, visitedNodes, result =>
    if edge.stableId ∈ visitedEdges then traverse nextKey lookup fuel queue visitedEdges visitedNodes result
    else match nextKey edge with
      | none => traverse nextKey lookup fuel queue (edge.stableId :: visitedEdges) visitedNodes (result ++ [edge])
      | some key =>
        if key ∈ visitedNodes then
          traverse nextKey lookup fuel queue (edge.stableId :: visitedEdges) visitedNodes (result ++ [edge])
        else traverse nextKey lookup fuel (queue ++ lookup key) (edge.stableId :: visitedEdges) (key :: visitedNodes)
            (result ++ [edge])

def traverseEdges (fuel : ℕ) (seed : List ResolvedImportEdge) (nextKey : ResolvedImportEdge → Option Text)
    (lookup : Text → List ResolvedImportEdge) : Option (List ResolvedImportEdge) :=
  traverse nextKey lookup fuel seed [] [] []

/-- The path of a scope, by the `normalize` of the platform's paths. -/
def normalizeScopePath (normalize : Text → Text) (scopePath : Text) : Text :=
  match normalize (scopePath.map fun c => if c = '\\' then '/' else c) with
  | '.' :: '/' :: path => path
  | path => path

def importersForTarget (normalize : Text → Text) (fuel : ℕ) (graph : ImportGraph) (targetPath : Text)
    (transitive : Bool) : Option (List ResolvedImportEdge) :=
  let direct := (graph.reverse.get? (normalizeScopePath normalize targetPath)).getD []
  if transitive then
    traverseEdges fuel direct (fun edge => some edge.importerPath) fun key => (graph.reverse.get? key).getD []
  else some direct

def importsFromSource (normalize : Text → Text) (fuel : ℕ) (graph : ImportGraph) (importerPath : Text)
    (transitive : Bool) : Option (List ResolvedImportEdge) :=
  let direct := (graph.forward.get? (normalizeScopePath normalize importerPath)).getD []
  if transitive then traverseEdges fuel direct ResolvedImportEdge.targetPath fun key => (graph.forward.get? key).getD []
  else some direct

end Graph

section Index

def keyed (key : ResolvedImportEdge → Option Text) (edges : List ResolvedImportEdge) (path : Text) :
    List ResolvedImportEdge := edges.filter fun edge => key edge = some path

theorem get?_addToIndex (index : Index) (key : Option Text) (edge : ResolvedImportEdge) (path : Text) :
    ((addToIndex index key edge).get? path).getD [] =
      (index.get? path).getD [] ++ if key = some path then [edge] else [] := by
  cases key with
  | none => simp [addToIndex]
  | some key =>
    rw [addToIndex,OrderedMap.get?_set]
    by_cases same : path = key
    · simp [same]
    · rw [if_neg same,if_neg (by simpa using Ne.symm same),append_nil]

theorem appendImportEdges_eq (edges : List ResolvedImportEdge) (path : Text) :
    ((appendImportEdges emptyGraph edges).forward.get? path).getD [] =
        keyed (fun edge => some edge.importerPath) edges path ∧
      ((appendImportEdges emptyGraph edges).reverse.get? path).getD [] =
        keyed ResolvedImportEdge.targetPath edges path := by
  induction edges using reverseRecOn with
  | nil => exact ⟨rfl,rfl⟩
  | append_singleton edges edge ih =>
    rw [appendImportEdges,foldl_append,foldl_cons,foldl_nil,get?_addToIndex,get?_addToIndex]
    rw [appendImportEdges] at ih
    rw [ih.1,ih.2]
    simp only [keyed,filter_append,filter_singleton]
    simp [Bool.cond_decide]

end Index

section Traversal

variable (edges : List ResolvedImportEdge) (entry exit : ResolvedImportEdge → Option Text) (start : Text)

inductive Chain : ℕ → ResolvedImportEdge → Prop where
  | direct {edge : ResolvedImportEdge} : edge ∈ edges → entry edge = some start → Chain 0 edge
  | next {n : ℕ} {edge later : ResolvedImportEdge} {key : Text} : Chain n edge → exit edge = some key →
      later ∈ edges → entry later = some key → Chain (n + 1) later

structure BreadthFirst (result : List ResolvedImportEdge) : Prop where
  complete : ∀ edge, edge ∈ result ↔ ∃ n, Chain edges entry exit start n edge
  once : (result.map ResolvedImportEdge.stableId).Nodup
  nearest : result.Pairwise fun first second => ∀ n, Chain edges entry exit start n second →
    ∃ m ≤ n, Chain edges entry exit start m first

/-- What holds while edges at a distance are taken from the queue and those one step farther put behind. -/
structure Level (d : ℕ) (near far : List ResolvedImportEdge) (visitedNodes : List Text)
    (result : List ResolvedImportEdge) : Prop where
  atNear : ∀ edge ∈ near, Chain edges entry exit start d edge
  atFar : ∀ edge ∈ far, Chain edges entry exit start (d + 1) edge
  settled : ∀ n edge, Chain edges entry exit start n edge → n < d → edge ∈ result
  level : ∀ edge, Chain edges entry exit start d edge → edge ∈ result ∨ edge ∈ near
  visited : ∀ key ∈ visitedNodes, ∀ edge ∈ keyed entry edges key, edge ∈ result ∨ edge ∈ near ++ far
  followed : ∀ edge ∈ result, ∀ key, exit edge = some key → key ∈ visitedNodes
  reached : ∀ edge ∈ result, ∃ m ≤ d, Chain edges entry exit start m edge
  once : (result.map ResolvedImportEdge.stableId).Nodup
  nearest : result.Pairwise fun first second => ∀ n, Chain edges entry exit start n second →
    ∃ m ≤ n, Chain edges entry exit start m first

variable {edges entry exit start} {d : ℕ} {near far : List ResolvedImportEdge} {visitedNodes : List Text}
  {result : List ResolvedImportEdge} {edge : ResolvedImportEdge} {queue : List ResolvedImportEdge} {fuel : ℕ}

theorem mem_keyed {path : Text} : edge ∈ keyed entry edges path ↔ edge ∈ edges ∧ entry edge = some path := by
  simp [keyed]

theorem Chain.mem {n : ℕ} (chain : Chain edges entry exit start n edge) : edge ∈ edges := by
  cases chain <;> assumption

theorem Level.shift (level : Level edges entry exit start d [] far visitedNodes result) :
    Level edges entry exit start (d + 1) far [] visitedNodes result :=
  { level with
    atNear := level.atFar
    atFar _ mem := absurd mem not_mem_nil
    settled n edge chain less := by
      rcases Nat.lt_succ_iff_lt_or_eq.mp less with less | rfl
      · exact level.settled n edge chain less
      · simpa using level.level edge chain
    level edge chain := by
      cases chain with
      | next chain leaves mem enters =>
        have before := (level.level _ chain).resolve_right not_mem_nil
        simpa using level.visited _ (level.followed _ before _ leaves) _ (mem_keyed.mpr ⟨mem,enters⟩)
    visited := by simpa using level.visited
    reached edge mem := by
      obtain ⟨m,small,chain⟩ := level.reached edge mem
      exact ⟨m,by omega,chain⟩ }

theorem Level.front (same : near ++ far = edge :: queue)
    (level : Level edges entry exit start d near far visitedNodes result) :
    ∃ d near far, near ++ far = queue ∧ Level edges entry exit start d (edge :: near) far visitedNodes result := by
  cases near with
  | nil =>
    rw [nil_append] at same
    subst same
    exact ⟨d + 1,queue,[],append_nil _,level.shift⟩
  | cons a near =>
    cases same
    exact ⟨d,near,far,rfl,level⟩

theorem Level.drop (mem : edge ∈ result) (level : Level edges entry exit start d (edge :: near) far visitedNodes result) :
    Level edges entry exit start d near far visitedNodes result := by
  have left {other : ResolvedImportEdge} {more : List ResolvedImportEdge}
      (known : other ∈ result ∨ other ∈ edge :: more) : other ∈ result ∨ other ∈ more := by
    rcases known with done | inside
    · exact .inl done
    · rcases mem_cons.mp inside with rfl | inside
      · exact .inl mem
      · exact .inr inside
  exact { level with
    atNear := fun other inside => level.atNear other (mem_cons_of_mem _ inside)
    level := fun other chain => left (level.level other chain)
    visited := fun key known other inside => left (level.visited key known other inside) }

theorem Level.take {more : List ResolvedImportEdge} {visitedNodes' : List Text}
    (level : Level edges entry exit start d (edge :: near) far visitedNodes result)
    (fresh : edge.stableId ∉ result.map ResolvedImportEdge.stableId)
    (atMore : ∀ other ∈ more, Chain edges entry exit start (d + 1) other)
    (visited : ∀ key ∈ visitedNodes', key ∈ visitedNodes ∨ keyed entry edges key ⊆ more)
    (grows : visitedNodes ⊆ visitedNodes') (followed : ∀ key, exit edge = some key → key ∈ visitedNodes') :
    Level edges entry exit start d near (far ++ more) visitedNodes' (result ++ [edge]) where
  atNear other inside := level.atNear other (mem_cons_of_mem _ inside)
  atFar other inside := by
    rcases mem_append.mp inside with inside | inside
    · exact level.atFar other inside
    · exact atMore other inside
  settled n other chain less := mem_append_left _ (level.settled n other chain less)
  level other chain := by
    have known := level.level other chain
    simp only [mem_cons,mem_append] at known ⊢
    tauto
  visited key known other inside := by
    have seen := fun known => level.visited key known other inside
    have added := visited key known
    simp only [mem_cons,mem_append] at seen ⊢
    rcases added with known | added
    · have := seen known
      tauto
    · have := added inside
      tauto
  followed other inside key leaves := by
    rcases mem_append.mp inside with inside | inside
    · exact grows (level.followed other inside key leaves)
    · rw [mem_singleton.mp inside] at leaves
      exact followed key leaves
  reached other inside := by
    rcases mem_append.mp inside with inside | inside
    · exact level.reached other inside
    · rw [mem_singleton.mp inside]
      exact ⟨d,Nat.le_refl d,level.atNear edge mem_cons_self⟩
  once := by
    rw [map_append,map_singleton]
    exact nodup_append.mpr ⟨level.once,nodup_singleton _,fun id inside other same => by
      rw [mem_singleton.mp same]
      exact fun here => fresh (here ▸ inside)⟩
  nearest := by
    refine pairwise_append.mpr ⟨level.nearest,pairwise_singleton _ _,fun a inside b same n chain => ?_⟩
    rw [mem_singleton.mp same] at chain
    -- an edge that is not returned yet stands at no smaller distance than the level's
    have far : d ≤ n := by
      by_contra small
      exact fresh (mem_map_of_mem (level.settled n edge chain (by omega)))
    obtain ⟨m,small,chain⟩ := level.reached a inside
    exact ⟨m,Nat.le_trans small far,chain⟩

theorem Level.breadthFirst (level : Level edges entry exit start d [] [] visitedNodes result) :
    BreadthFirst edges entry exit start result where
  complete edge := by
    constructor
    · intro mem
      obtain ⟨m,_,chain⟩ := level.reached edge mem
      exact ⟨m,chain⟩
    · rintro ⟨n,chain⟩
      induction chain with
      | direct mem enters =>
        rcases Nat.eq_zero_or_pos d with rfl | past
        · exact (level.level _ (.direct mem enters)).resolve_right not_mem_nil
        · exact level.settled 0 _ (.direct mem enters) past
      | next _ leaves mem enters ih =>
        simpa using level.visited _ (level.followed _ ih _ leaves) _ (mem_keyed.mpr ⟨mem,enters⟩)
  once := level.once
  nearest := level.nearest

def waiting (entry : ResolvedImportEdge → Option Text) (edges : List ResolvedImportEdge) (visitedNodes : List Text) :
    List ResolvedImportEdge := edges.filter fun edge => ∀ key ∈ visitedNodes, entry edge ≠ some key

theorem length_waiting {key : Text} (fresh : key ∉ visitedNodes) : (waiting entry edges visitedNodes).length =
      (keyed entry edges key).length + (waiting entry edges (key :: visitedNodes)).length := by
  rw [length_eq_length_filter_add fun edge => entry edge = some key,waiting,filter_filter,filter_filter]
  congr 2
  · apply filter_congr
    intro edge _
    rw [← Bool.decide_and,decide_eq_decide]
    refine ⟨fun here => here.1,fun enters => ⟨enters,fun other known same => fresh ?_⟩⟩
    rw [← Option.some.inj (same.symm.trans enters)]
    exact known
  · rw [waiting]
    apply filter_congr
    intro edge _
    simp

theorem traverse_breadthFirst (apart : ∀ a ∈ edges, ∀ b ∈ edges, a.stableId = b.stableId → a = b) {visitedEdges : List Text} (same : near ++ far = queue)
    (level : Level edges entry exit start d near far visitedNodes result)
    (known : ∀ id, id ∈ visitedEdges ↔ id ∈ result.map ResolvedImportEdge.stableId)
    (enough : queue.length + (waiting entry edges visitedNodes).length ≤ fuel) :
    ∃ result', traverse exit (keyed entry edges) fuel queue visitedEdges visitedNodes result = some result' ∧
      BreadthFirst edges entry exit start result' := by
  induction fuel generalizing d near far queue visitedEdges visitedNodes result with
  | zero =>
    obtain rfl : queue = [] := length_eq_zero_iff.mp (by omega)
    obtain ⟨rfl,rfl⟩ := append_eq_nil_iff.mp same
    exact ⟨result,rfl,level.breadthFirst⟩
  | succ fuel ih =>
    cases queue with
    | nil =>
      obtain ⟨rfl,rfl⟩ := append_eq_nil_iff.mp same
      exact ⟨result,rfl,level.breadthFirst⟩
    | cons edge queue =>
      obtain ⟨d,near,far,same,level⟩ := level.front same
      rw [length_cons] at enough
      rw [traverse]
      split
      next seen =>
        obtain ⟨other,mem,id⟩ := mem_map.mp ((known _).mp seen)
        obtain ⟨m,_,chain⟩ := level.reached other mem
        rw [apart other chain.mem edge (level.atNear edge mem_cons_self).mem id] at mem
        exact ih same (level.drop mem) known (by omega)
      next unseen =>
        have fresh := mt (known _).mpr unseen
        have known (id : Text) : id ∈ edge.stableId :: visitedEdges ↔
            id ∈ (result ++ [edge]).map ResolvedImportEdge.stableId := by
          simp [known id,or_comm]
        have stay (followed : ∀ key, exit edge = some key → key ∈ visitedNodes) :
            Level edges entry exit start d near (far ++ []) visitedNodes (result ++ [edge]) :=
          level.take fresh (by simp) (fun _ => .inl) (Subset.refl _) followed
        simp only [append_nil] at stay
        split
        next leaves => exact ih same (stay fun key here => by cases leaves.symm.trans here) known (by omega)
        next key leaves =>
          split
          next old =>
            refine ih same (stay fun other here => ?_) known (by omega)
            cases leaves.symm.trans here
            exact old
          next new =>
            have count : (waiting entry edges visitedNodes).length = _ := length_waiting new
            have atMore : ∀ other ∈ keyed entry edges key, Chain edges entry exit start (d + 1) other := by
              intro other inside
              obtain ⟨mem,enters⟩ := mem_keyed.mp inside
              exact .next (level.atNear edge mem_cons_self) leaves mem enters
            refine ih (by rw [← same,append_assoc]) (level.take fresh atMore ?_ (subset_cons_self _ _) ?_) known ?_
            · intro other inside
              rcases mem_cons.mp inside with rfl | inside
              · exact .inr (Subset.refl _)
              · exact .inl inside
            · intro other here
              cases leaves.symm.trans here
              exact mem_cons_self
            · rw [length_append]
              omega

theorem traverseEdges_breadthFirst (apart : ∀ a ∈ edges, ∀ b ∈ edges, a.stableId = b.stableId → a = b) (enough : 2 * edges.length ≤ fuel) :
    ∃ result, traverseEdges fuel (keyed entry edges start) exit (keyed entry edges) = some result ∧
      BreadthFirst edges entry exit start result := by
  have level : Level edges entry exit start 0 (keyed entry edges start) [] [] [] := by
    refine ⟨fun edge mem => ?_,?_,?_,fun edge chain => ?_,?_,?_,?_,nodup_nil,Pairwise.nil⟩
    · obtain ⟨mem,enters⟩ := mem_keyed.mp mem
      exact .direct mem enters
    · simp
    · exact fun n edge _ less => absurd less (Nat.not_lt_zero n)
    · cases chain with
      | direct mem enters => exact .inr (mem_keyed.mpr ⟨mem,enters⟩)
    all_goals simp
  have seeds : (keyed entry edges start).length ≤ edges.length := length_filter_le _ _
  have rest : (waiting entry edges []).length ≤ edges.length := length_filter_le _ _
  exact traverse_breadthFirst apart (append_nil _) level (by simp) (by omega)

end Traversal

section Graphs

def importerKey (edge : ResolvedImportEdge) : Option Text := some edge.importerPath

/-- What the indexes hold under a path, and what the traversals from it return. -/
structure Traversed (normalize : Text → Text) (fuel : ℕ) (graph : ImportGraph) (edges : List ResolvedImportEdge)
    (path : Text) : Prop where
  forward : ∀ edge, edge ∈ (graph.forward.get? path).getD [] ↔ edge ∈ edges ∧ edge.importerPath = path
  reverse : ∀ edge, edge ∈ (graph.reverse.get? path).getD [] ↔ edge ∈ edges ∧ edge.targetPath = some path
  importers : ∃ result, importersForTarget normalize fuel graph path true = some result ∧
    BreadthFirst edges ResolvedImportEdge.targetPath importerKey (normalizeScopePath normalize path) result
  imports : ∃ result, importsFromSource normalize fuel graph path true = some result ∧
    BreadthFirst edges importerKey ResolvedImportEdge.targetPath (normalizeScopePath normalize path) result

theorem appendImportEdges_traversed (normalize : Text → Text) {edges : List ResolvedImportEdge}
    (apart : ∀ first ∈ edges, ∀ second ∈ edges, first.stableId = second.stableId → first = second)
    {fuel : ℕ} (enough : 2 * edges.length ≤ fuel) (path : Text) :
    Traversed normalize fuel (appendImportEdges emptyGraph edges) edges path := by
  have forward (path : Text) : ((appendImportEdges emptyGraph edges).forward.get? path).getD [] =
      keyed importerKey edges path := (appendImportEdges_eq edges path).1
  have reverse (path : Text) : ((appendImportEdges emptyGraph edges).reverse.get? path).getD [] =
      keyed ResolvedImportEdge.targetPath edges path := (appendImportEdges_eq edges path).2
  constructor
  · intro edge
    rw [forward,mem_keyed,importerKey,Option.some.injEq]
  · intro edge
    rw [reverse,mem_keyed]
  · simp only [importersForTarget,if_true,reverse]
    exact traverseEdges_breadthFirst apart enough
  · simp only [importsFromSource,if_true,forward]
    exact traverseEdges_breadthFirst apart enough

/-- A cycle with an import of itself, two parallel imports and one that is not resolved. -/
def cyclicEdges : List ResolvedImportEdge :=
  [⟨['1'],['a'],some ['b']⟩,⟨['2'],['b'],some ['a']⟩,⟨['3'],['b'],some ['b']⟩,⟨['4'],['a'],some ['b']⟩,⟨['5'],['b'],none⟩]

theorem appendImportEdges_traversed_cycle :
    Traversed id 10 (appendImportEdges emptyGraph cyclicEdges) cyclicEdges ['a'] :=
  appendImportEdges_traversed id (by decide) (by decide) ['a']

def Leads (edges : List ResolvedImportEdge) (entry exit : ResolvedImportEdge → Option Text) (a b : Text) : Prop :=
  ∃ edge ∈ edges, entry edge = some a ∧ exit edge = some b

theorem exists_chain_iff {edges : List ResolvedImportEdge} {entry exit : ResolvedImportEdge → Option Text}
    {a b : Text} : (∃ edge, (∃ n, Chain edges entry exit a n edge) ∧ exit edge = some b) ↔
      Relation.TransGen (Leads edges entry exit) a b := by
  constructor
  · rintro ⟨edge,⟨n,chain⟩,leaves⟩
    induction chain generalizing b with
    | direct mem enters => exact .single ⟨_,mem,enters,leaves⟩
    | next _ through mem enters ih => exact (ih through).tail ⟨_,mem,enters,leaves⟩
  · intro leads
    induction leads with
    | single step =>
      obtain ⟨edge,mem,enters,leaves⟩ := step
      exact ⟨edge,⟨0,.direct mem enters⟩,leaves⟩
    | tail _ step ih =>
      obtain ⟨_,⟨n,chain⟩,through⟩ := ih
      obtain ⟨edge,mem,enters,leaves⟩ := step
      exact ⟨edge,⟨n + 1,.next chain through mem enters⟩,leaves⟩

/-- The imports of a file reach another file exactly where the importers of that file reach the first. -/
theorem imports_reach_iff (normalize : Text → Text) {edges : List ResolvedImportEdge}
    (apart : ∀ first ∈ edges, ∀ second ∈ edges, first.stableId = second.stableId → first = second)
    {fuel : ℕ} (enough : 2 * edges.length ≤ fuel) (source target : Text) :
    ∃ imports importers,
      importsFromSource normalize fuel (appendImportEdges emptyGraph edges) source true = some imports ∧
      importersForTarget normalize fuel (appendImportEdges emptyGraph edges) target true = some importers ∧
      ((∃ edge ∈ imports, edge.targetPath = some (normalizeScopePath normalize target)) ↔
        ∃ edge ∈ importers, edge.importerPath = normalizeScopePath normalize source) := by
  obtain ⟨imports,here,forward⟩ : ∃ result,
      importsFromSource normalize fuel (appendImportEdges emptyGraph edges) source true = some result ∧
      BreadthFirst edges importerKey ResolvedImportEdge.targetPath (normalizeScopePath normalize source) result := by
    simp only [importsFromSource,if_true,(appendImportEdges_eq edges _).1]
    exact traverseEdges_breadthFirst apart enough
  obtain ⟨importers,there,back⟩ : ∃ result,
      importersForTarget normalize fuel (appendImportEdges emptyGraph edges) target true = some result ∧
      BreadthFirst edges ResolvedImportEdge.targetPath importerKey (normalizeScopePath normalize target) result := by
    simp only [importersForTarget,if_true,(appendImportEdges_eq edges _).2]
    exact traverseEdges_breadthFirst apart enough
  refine ⟨imports,importers,here,there,?_⟩
  have turned : Leads edges ResolvedImportEdge.targetPath importerKey =
      Function.swap (Leads edges importerKey ResolvedImportEdge.targetPath) := by
    funext a b
    exact propext (exists_congr fun _ => and_congr_right fun _ => and_comm)
  calc (∃ edge ∈ imports, edge.targetPath = some (normalizeScopePath normalize target))
      ↔ Relation.TransGen (Leads edges importerKey ResolvedImportEdge.targetPath) _ _ := by
        simp only [forward.complete]
        exact exists_chain_iff
    _ ↔ Relation.TransGen (Leads edges ResolvedImportEdge.targetPath importerKey) _ _ := by
        rw [turned,Relation.transGen_swap]
    _ ↔ ∃ edge ∈ importers, edge.importerPath = normalizeScopePath normalize source := by
        simp only [back.complete,← exists_chain_iff,importerKey,Option.some.injEq]

theorem imports_reach_iff_cycle : ∃ imports importers,
    importsFromSource id 10 (appendImportEdges emptyGraph cyclicEdges) ['a'] true = some imports ∧
    importersForTarget id 10 (appendImportEdges emptyGraph cyclicEdges) ['b'] true = some importers ∧
    ((∃ edge ∈ imports, edge.targetPath = some ['b']) ↔ ∃ edge ∈ importers, edge.importerPath = ['a']) :=
  imports_reach_iff id (by decide) (by decide) ['a'] ['b']

end Graphs

end Keiko.ImportGraphEdges
