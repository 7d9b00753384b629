import Keiko.DuplicateClusters

/-! The clusters of a scan are the connected components, of two or more records, of the relation of
matching within one scope and type. Unions connect positions of the ordered records of one partition;
the ids, which are unique, tell the positions apart. -/
namespace Keiko.DuplicateClusters
open Keiko.Library Keiko.MemorySimilarity List Option OrderedMap

section Keys

theorem scopeCoordinateKey_injective : Function.Injective scopeCoordinateKey := by
  intro first second same
  cases first <;> cases second <;> simp_all [scopeCoordinateKey,units,unit]

theorem MemoryType.text_injective : Function.Injective MemoryType.text := by
  intro first second same
  cases first <;> cases second <;> first | rfl | exact absurd same (by decide)

theorem MemoryType.bar_not_mem (type : MemoryType) : unit '|' ∉ units "type:" ++ type.text := by
  cases type <;> decide

theorem append_cons_inj_of_not_mem {α : Type*} [DecidableEq α] {front front' back back' : List α}
    {mark : α} (absent : mark ∉ back) (absent' : mark ∉ back')
    (same : front ++ mark :: back = front' ++ mark :: back') : front = front' ∧ back = back' := by
  have behind : ∀ front back : List α, mark ∉ back →
      (front ++ mark :: back).reverse.takeWhile (· ≠ mark) = back.reverse := by
    intro front back absent
    rw [reverse_append,reverse_cons,append_assoc,takeWhile_append_of_pos]
    · simp
    · intro e mem
      rw [decide_eq_true_eq]
      intro equal
      exact absent (equal ▸ mem_reverse.mp mem)
  have backs : back = back' := by
    rw [← reverse_inj,← behind front back absent,same,behind front' back' absent']
  subst backs
  exact ⟨append_cancel_right same,rfl⟩

theorem partitionKey_eq {a b : MemoryRecord} :
    partitionKey a = partitionKey b ↔ a.scope = b.scope ∧ a.type = b.type := by
  constructor
  · intro same
    have split : ∀ r, partitionKey r =
        scopeCoordinateKey r.scope ++ unit '|' :: (units "type:" ++ r.type.text) := by
      intro r
      rw [partitionKey,append_assoc]
      rfl
    rw [split,split] at same
    obtain ⟨scopes,types⟩ := append_cons_inj_of_not_mem a.type.bar_not_mem b.type.bar_not_mem same
    exact ⟨scopeCoordinateKey_injective scopes,MemoryType.text_injective (append_cancel_left types)⟩
  · intro same
    rw [partitionKey,partitionKey,same.1,same.2]

end Keys

section Order
open Comparator

theorem toNat_injective : Function.Injective (List.map UInt16.toNat) :=
  map_injective_iff.mpr fun _ _ same => UInt16.toNat_inj.mp same

theorem lawful_cmpString : Lawful cmpString := lawful_ordered.mapped (map UInt16.toNat)

theorem cmpString_eq_zero {a b : Units} : cmpString a b = 0 ↔ a = b := by
  rw [cmpString,ordered_eq_zero]
  exact toNat_injective.eq_iff

theorem lawful_compareRecordsByAge : Lawful compareRecordsByAge :=
  (lawful_ordered.mapped _).andThen (lawful_cmpString.mapped _)

theorem id_eq_of_compareRecordsByAge {a b : MemoryRecord} (same : compareRecordsByAge a b = 0) : a.id = b.id :=
  (cmpString_eq_zero).mp (andThen_eq_zero.mp same).2

def UniqueIds (records : List MemoryRecord) : Prop := (records.map MemoryRecord.id).Nodup

instance (records : List MemoryRecord) : Decidable (UniqueIds records) :=
  inferInstanceAs (Decidable (List.Nodup _))

variable {records : List MemoryRecord} {a b : MemoryRecord}

theorem UniqueIds.eq_of_id (unique : UniqueIds records) (in_a : a ∈ records) (in_b : b ∈ records)
    (same : a.id = b.id) : a = b :=
  inj_on_of_nodup_map unique in_a in_b same

theorem UniqueIds.nodup (unique : UniqueIds records) : records.Nodup := List.Nodup.of_map _ unique

theorem UniqueIds.sublist {part : List MemoryRecord} (unique : UniqueIds records)
    (sublist : part.Sublist records) : UniqueIds part :=
  List.Nodup.sublist (sublist.map _) unique

theorem UniqueIds.apart (unique : UniqueIds records) : ∀ a ∈ records, ∀ b ∈ records,
    compareRecordsByAge a b = 0 → a = b := fun _ in_a _ in_b same =>
  unique.eq_of_id in_a in_b (id_eq_of_compareRecordsByAge same)

end Order

section Match
variable (tables : Tables) (jaccardThreshold : Number) (opts : DuplicateClusterScanOptions)

def matchRecords (a b : MemoryRecord) : Option ConsolidationEvidence :=
  matchPair tables.sqrt ⟨a,b,prepareBody tables a.body,prepareBody tables b.body,jaccardThreshold,
    embeddingOf opts a,embeddingOf opts b,opts.semanticSimilarityThreshold⟩

theorem compatibleOptionalField_comm {α : Type*} [DecidableEq α] (left right : Option α) :
    compatibleOptionalField left right = compatibleOptionalField right left := by
  unfold compatibleOptionalField
  rw [Bool.or_comm left.isNone,Bool.beq_comm]

theorem compatibleEmbedding_comm (a b : ConsolidationEmbedding) :
    compatibleEmbedding (some a) (some b) = compatibleEmbedding (some b) (some a) := by
  simp only [compatibleEmbedding]
  rw [compatibleOptionalField_comm a.metric,compatibleOptionalField_comm a.provider,
    compatibleOptionalField_comm a.modelId,compatibleOptionalField_comm a.modelRevision]
  by_cases same : a.vector.length = b.vector.length
  · rw [same]
  · have same' : ¬b.vector.length = a.vector.length := fun equal => same equal.symm
    simp only [same,same',decide_false,Bool.and_false,Bool.false_and]

theorem matchSemantic_isSome_comm (sqrt : Number → Number) (a b : MemoryRecord)
    (aBody bBody : PreparedBody) (first second : Option ConsolidationEmbedding)
    (threshold : Option Number) :
    (matchSemantic sqrt ⟨a,b,aBody,bBody,jaccardThreshold,first,second,threshold⟩).isSome =
      (matchSemantic sqrt ⟨b,a,bBody,aBody,jaccardThreshold,second,first,threshold⟩).isSome := by
  cases threshold with
  | none => rfl
  | some threshold =>
    cases first with
    | none => cases second <;> rfl
    | some first =>
      cases second with
      | none => rfl
      | some second =>
        simp only [matchSemantic,bind_eq_bind,bind_some,
          compatibleEmbedding_comm first second,cosineSimilarity_comm sqrt first.vector]
        split
        · cases cosineSimilarity sqrt second.vector first.vector with
          | none => rfl
          | some score =>
            simp only [bind_some]
            split
            · rfl
            · rfl
        · rfl

theorem matchRecords_isSome_comm (a b : MemoryRecord) : (matchRecords tables jaccardThreshold opts a b).isSome =
      (matchRecords tables jaccardThreshold opts b a).isSome := by
  unfold matchRecords matchPair
  simp only [jaccardSimilarityPrepared_comm (nodup_tokens tables a.body) (nodup_tokens tables b.body)]
  by_cases same : (prepareBody tables a.body).normalized = (prepareBody tables b.body).normalized
  · rw [if_pos same,if_pos same.symm]
    rfl
  · rw [if_neg same,if_neg (Ne.symm same)]
    split
    · rfl
    · exact matchSemantic_isSome_comm _ _ _ _ _ _ _ _ _

def Matches (a b : MemoryRecord) : Prop :=
  a.scope = b.scope ∧ a.type = b.type ∧ (matchRecords tables jaccardThreshold opts a b).isSome = true

def Connected (records : List MemoryRecord) : MemoryRecord → MemoryRecord → Prop :=
  Relation.EqvGen fun a b =>
    a ∈ records ∧ b ∈ records ∧ Matches tables jaccardThreshold opts a b

end Match

section Loops

theorem mem_indexPairs {length i j : ℕ} : (i,j) ∈ indexPairs length ↔ i < j ∧ j < length := by
  rw [indexPairs,mem_flatMap]
  constructor
  · intro mem
    obtain ⟨k,in_range,inside⟩ := mem
    obtain ⟨l,behind,same⟩ := mem_map.mp inside
    obtain ⟨rfl,rfl⟩ := Prod.mk.inj same
    rw [mem_range'_1] at behind
    omega
  · intro both
    refine ⟨i,mem_range.mpr (by omega),mem_map.mpr ⟨j,?_,rfl⟩⟩
    rw [mem_range'_1]
    omega

def matching (found : ℕ → ℕ → Option ConsolidationEvidence) (pairs : List (ℕ × ℕ)) : List (ℕ × ℕ) :=
  pairs.filter fun pair => (found pair.1 pair.2).isSome

def evidenceOf (found : ℕ → ℕ → Option ConsolidationEvidence) (pairs : List (ℕ × ℕ)) : List PairEvidence :=
  pairs.filterMap fun pair => (found pair.1 pair.2).map fun evidence => ⟨pair.1,evidence⟩

theorem foldl_scanPair (hit : ℕ → ℕ → Option ConsolidationEvidence) (pairs : List (ℕ × ℕ))
    (scan : PairScan) : pairs.foldl (scanPair hit) scan =
      ⟨scan.uf.unionAll (matching hit pairs),scan.pairEvidence ++ evidenceOf hit pairs⟩ := by
  induction pairs generalizing scan with
  | nil => simp [matching,evidenceOf]
  | cons pair pairs ih =>
    rw [foldl_cons,ih,scanPair]
    cases seen : hit pair.1 pair.2 with
    | none => simp [matching,evidenceOf,seen]
    | some evidence => simp [matching,evidenceOf,seen,UnionFind.unionAll]

theorem foldl_groupStep {α : Type*} (xs : List (α × ℕ)) (uf : UnionFind) (map : OrderedMap ℕ (List α)) :
    (xs.foldl groupStep (uf,map)).2 = xs.foldl (fun map item => Grouping.push map (uf.root item.2) item.1) map ∧
      ∀ i, (xs.foldl groupStep (uf,map)).1.root i = uf.root i := by
  induction xs generalizing uf map with
  | nil => exact ⟨rfl,fun _ => rfl⟩
  | cons item xs ih =>
    obtain ⟨grouped,roots⟩ := ih (uf.findRoot item.2).2 (Grouping.push map (uf.root item.2) item.1)
    rw [foldl_cons,foldl_cons]
    constructor
    · rw [groupStep,UnionFind.findRoot_fst,grouped]
      simp only [UnionFind.root_findRoot]
    · intro i
      rw [groupStep,UnionFind.findRoot_fst,roots,UnionFind.root_findRoot]

end Loops

section Partition
variable (tables : Tables) (threshold : Number) (opts : DuplicateClusterScanOptions)
variable (part : List MemoryRecord)

def orderedPart : List MemoryRecord := Comparator.sort compareRecordsByAge part

def found (i j : ℕ) : Option ConsolidationEvidence := do
  let a ← (orderedPart part)[i]?
  let b ← (orderedPart part)[j]?
  matchRecords tables threshold opts a b

theorem matchIndexedPair_eq (ordered : List MemoryRecord) (i j : ℕ) :
    matchIndexedPair tables threshold opts ordered
      (ordered.map fun r => prepareBody tables r.body) (collectEmbeddings opts ordered)
      i j = (do
        let a ← ordered[i]?
        let b ← ordered[j]?
        matchRecords tables threshold opts a b) := by
  unfold matchIndexedPair collectEmbeddings
  simp only [getElem?_map]
  cases ordered[i]? with
  | none => rfl
  | some a =>
    cases ordered[j]? with
    | none => rfl
    | some b => rfl

def rootAt (i : ℕ) : ℕ :=
  (UnionFind.create.unionAll (matching (found tables threshold opts part)
    (indexPairs (orderedPart part).length))).root i

def component (root : ℕ) : List MemoryRecord :=
  Grouping.bucket (fun item : MemoryRecord × ℕ => rootAt tables threshold opts part item.2)
    Prod.fst (orderedPart part).zipIdx root

def componentEvidence (root : ℕ) : List ConsolidationEvidence :=
  Grouping.bucket (fun item : ConsolidationEvidence × ℕ =>
    rootAt tables threshold opts part item.2) Prod.fst
    ((evidenceOf (found tables threshold opts part)
      (indexPairs (orderedPart part).length)).map fun item => (item.evidence,item.left)) root

theorem clusterPartition_eq : clusterPartition tables threshold opts part =
    (Grouping.group (fun item : MemoryRecord × ℕ =>
      rootAt tables threshold opts part item.2) Prod.fst
      (orderedPart part).zipIdx).entries.filterMap (fun e =>
        if e.2.length < 2 then none
        else (Comparator.sort compareRecordsByAge e.2).head?.map fun canonical =>
          ⟨canonical.id,Comparator.sort compareRecordsByAge e.2,
            componentEvidence tables threshold opts part e.1⟩) := by
  have same : matchIndexedPair tables threshold opts (orderedPart part)
      ((orderedPart part).map fun r => prepareBody tables r.body)
      (collectEmbeddings opts (orderedPart part)) =
      found tables threshold opts part := by
    funext i j
    exact matchIndexedPair_eq tables threshold opts (orderedPart part) i j
  unfold clusterPartition
  rw [← orderedPart]
  simp only [scanPartitionPairs,same,foldl_scanPair,nil_append]
  unfold finalizeClusters normalizeEvidenceRoots
  rw [(foldl_groupStep _ _ _).1]
  simp only [(foldl_groupStep _ _ _).2,(foldl_groupStep _ _ _).1]
  congr 1
  funext e
  unfold clusterOf
  dsimp only
  split
  · rfl
  · congr 1
    funext canonical
    congr 1
    exact Grouping.getD_group _

variable {tables threshold opts part} {i j : ℕ} {a b : MemoryRecord} {cluster : DuplicateCluster}
  {evidence : ConsolidationEvidence} {root : ℕ}

theorem found_eq_some :
    found tables threshold opts part i j = some evidence ↔
      ∃ a b, (orderedPart part)[i]? = some a ∧ (orderedPart part)[j]? = some b ∧
        matchRecords tables threshold opts a b = some evidence := by
  unfold found
  simp only [bind_eq_bind,bind_eq_some_iff]
  constructor
  · intro seen
    obtain ⟨a,at_i,b,at_j,matched⟩ := seen
    exact ⟨a,b,at_i,at_j,matched⟩
  · intro seen
    obtain ⟨a,b,at_i,at_j,matched⟩ := seen
    exact ⟨a,at_i,b,at_j,matched⟩

theorem mem_matching : (i,j) ∈ matching (found tables threshold opts part)
    (indexPairs (orderedPart part).length) ↔ i < j ∧
      ∃ a b, (orderedPart part)[i]? = some a ∧ (orderedPart part)[j]? = some b ∧
        (matchRecords tables threshold opts a b).isSome = true := by
  rw [matching,mem_filter,mem_indexPairs,isSome_iff_exists]
  constructor
  · intro mem
    obtain ⟨⟨less,_⟩,evidence,seen⟩ := mem
    obtain ⟨a,b,at_i,at_j,matched⟩ := (found_eq_some).mp seen
    exact ⟨less,a,b,at_i,at_j,isSome_iff_exists.mpr ⟨evidence,matched⟩⟩
  · intro mem
    obtain ⟨less,a,b,at_i,at_j,matched⟩ := mem
    obtain ⟨evidence,matched⟩ := isSome_iff_exists.mp matched
    obtain ⟨bound,_⟩ := List.getElem?_eq_some_iff.mp at_j
    exact ⟨⟨less,bound⟩,evidence,(found_eq_some).mpr ⟨a,b,at_i,at_j,matched⟩⟩

theorem mem_orderedPart : a ∈ part ↔ ∃ i : ℕ, (orderedPart part)[i]? = some a := by
  rw [← mem_iff_getElem?,orderedPart,Comparator.mem_sort]

theorem position_unique (unique : UniqueIds part) (at_i : (orderedPart part)[i]? = some a)
    (at_j : (orderedPart part)[j]? = some a) : i = j := by
  have distinct : (orderedPart part).Nodup :=
    (Comparator.perm_sort _ part).nodup_iff.mpr unique.nodup
  obtain ⟨bound,_⟩ := List.getElem?_eq_some_iff.mp at_i
  exact (getElem?_inj bound distinct).mp (at_i.trans at_j.symm)

def Alike (part : List MemoryRecord) : Prop :=
  ∀ a ∈ part, ∀ b ∈ part, a.scope = b.scope ∧ a.type = b.type

theorem connected_of_rootAt (alike : Alike part)
    (same : rootAt tables threshold opts part i = rootAt tables threshold opts part j) :
    i = j ∨ ∃ a b, (orderedPart part)[i]? = some a ∧ (orderedPart part)[j]? = some b ∧
      Connected tables threshold opts part a b := by
  have joined := (UnionFind.root_unionAll_create _ i j).mp same
  clear same
  induction joined with
  | rel i j mem =>
    obtain ⟨_,a,b,at_i,at_j,matched⟩ := (mem_matching).mp mem
    have in_a := (mem_orderedPart).mpr ⟨i,at_i⟩
    have in_b := (mem_orderedPart).mpr ⟨j,at_j⟩
    obtain ⟨scopes,types⟩ := alike a in_a b in_b
    exact .inr ⟨a,b,at_i,at_j,.rel _ _ ⟨in_a,in_b,scopes,types,matched⟩⟩
  | refl i => exact .inl rfl
  | symm i j _ ih =>
    rcases ih with rfl | ⟨a,b,at_i,at_j,connected⟩
    · exact .inl rfl
    · exact .inr ⟨b,a,at_j,at_i,connected.symm⟩
  | trans i k j _ _ first second =>
    rcases first with rfl | ⟨a,c,at_i,at_k,connected⟩
    · exact second
    rcases second with rfl | ⟨c',b,at_k',at_j,connected'⟩
    · exact .inr ⟨a,c,at_i,at_k,connected⟩
    obtain rfl := some.inj (at_k.symm.trans at_k')
    exact .inr ⟨a,b,at_i,at_j,connected.trans _ _ _ connected'⟩

theorem Connected.mem (connected : Connected tables threshold opts part a b) : a ∈ part ↔ b ∈ part := by
  induction connected with
  | rel a b related => exact iff_of_true related.1 related.2.1
  | refl a => exact Iff.rfl
  | symm a b _ ih => exact ih.symm
  | trans a c b _ _ first second => exact first.trans second

theorem rootAt_of_connected (unique : UniqueIds part) (connected : Connected tables threshold opts part a b)
    (at_i : (orderedPart part)[i]? = some a) (at_j : (orderedPart part)[j]? = some b) :
    rootAt tables threshold opts part i = rootAt tables threshold opts part j := by
  induction connected generalizing i j with
  | rel a b related =>
    obtain ⟨_,_,_,_,matched⟩ := related
    apply (UnionFind.root_unionAll_create _ i j).mpr
    rcases lt_trichotomy i j with less | rfl | greater
    · exact .rel _ _ ((mem_matching).mpr ⟨less,a,b,at_i,at_j,matched⟩)
    · exact .refl _
    · rw [matchRecords_isSome_comm] at matched
      exact .symm _ _ (.rel _ _ ((mem_matching).mpr ⟨greater,b,a,at_j,at_i,matched⟩))
  | refl a => rw [position_unique unique at_i at_j]
  | symm a b _ ih => exact (ih at_j at_i).symm
  | trans a c b chain _ first second =>
    obtain ⟨k,at_k⟩ := (mem_orderedPart).mp ((Connected.mem chain).mp ((mem_orderedPart).mpr ⟨i,at_i⟩))
    exact (first at_i at_k).trans (second at_k at_j)

theorem rootAt_eq_iff (unique : UniqueIds part) (alike : Alike part)
    (at_i : (orderedPart part)[i]? = some a) (at_j : (orderedPart part)[j]? = some b) :
    rootAt tables threshold opts part i = rootAt tables threshold opts part j ↔
      Connected tables threshold opts part a b := by
  constructor
  · intro same
    rcases connected_of_rootAt alike same with rfl | ⟨a',b',at_i',at_j',connected⟩
    · obtain rfl := some.inj (at_i.symm.trans at_j)
      exact .refl _
    · obtain rfl := some.inj (at_i.symm.trans at_i')
      obtain rfl := some.inj (at_j.symm.trans at_j')
      exact connected
  · intro connected
    exact rootAt_of_connected unique connected at_i at_j

theorem mem_component : a ∈ component tables threshold opts part root ↔
    ∃ i : ℕ, (orderedPart part)[i]? = some a ∧ rootAt tables threshold opts part i = root := by
  rw [component,Grouping.mem_bucket]
  constructor
  · intro mem
    obtain ⟨⟨_,i⟩,inside,same,rfl⟩ := mem
    exact ⟨i,mem_zipIdx_iff_getElem?.mp inside,same⟩
  · intro mem
    obtain ⟨i,at_i,same⟩ := mem
    exact ⟨(a,i),mem_zipIdx_iff_getElem?.mpr at_i,same,rfl⟩

theorem orderedPart_pairwise (unique : UniqueIds part) :
    (orderedPart part).Pairwise fun a b => compareRecordsByAge a b < 0 :=
  Comparator.pairwise_lt_sort lawful_compareRecordsByAge unique.nodup unique.apart

variable (tables threshold opts) in
theorem component_sublist (root : ℕ) :
    (component tables threshold opts part root).Sublist (orderedPart part) := by
  have first := zipIdx_map_fst 0 (orderedPart part)
  rw [component,Grouping.bucket]
  exact (filter_sublist.map Prod.fst).trans (by rw [first])

variable (tables threshold opts) in
theorem component_pairwise (unique : UniqueIds part) (root : ℕ) :
    (component tables threshold opts part root).Pairwise fun a b =>
      compareRecordsByAge a b < 0 :=
  (orderedPart_pairwise unique).sublist (component_sublist tables threshold opts root)

theorem position_lt (unique : UniqueIds part) (at_i : (orderedPart part)[i]? = some a)
    (at_j : (orderedPart part)[j]? = some b) : i < j ↔ compareRecordsByAge a b < 0 := by
  obtain ⟨bound_i,rfl⟩ := List.getElem?_eq_some_iff.mp at_i
  obtain ⟨bound_j,rfl⟩ := List.getElem?_eq_some_iff.mp at_j
  have ordered := pairwise_iff_getElem.mp (orderedPart_pairwise unique)
  constructor
  · exact ordered i j bound_i bound_j
  · intro older
    by_contra behind
    rcases lt_or_eq_of_le (Nat.le_of_not_lt behind) with less | rfl
    · have younger := ordered j i bound_j bound_i less
      rw [lawful_compareRecordsByAge.swap] at younger
      omega
    · rw [lawful_compareRecordsByAge.self] at older
      omega

theorem mem_componentEvidence (unique : UniqueIds part) (alike : Alike part) :
    evidence ∈ componentEvidence tables threshold opts part root ↔
      ∃ a ∈ component tables threshold opts part root,
      ∃ b ∈ component tables threshold opts part root, compareRecordsByAge a b < 0 ∧
          matchRecords tables threshold opts a b = some evidence := by
  rw [componentEvidence,Grouping.mem_bucket]
  constructor
  · intro mem
    obtain ⟨⟨_,i⟩,inside,same,rfl⟩ := mem
    obtain ⟨⟨left,evidence⟩,listed,equal⟩ := mem_map.mp inside
    obtain ⟨rfl,rfl⟩ := Prod.mk.inj equal
    obtain ⟨⟨i,j⟩,pair,seen⟩ := mem_filterMap.mp listed
    obtain ⟨_,seen',equal⟩ := map_eq_some_iff.mp seen
    obtain ⟨rfl,rfl⟩ := PairEvidence.mk.inj equal
    obtain ⟨less,_⟩ := mem_indexPairs.mp pair
    obtain ⟨a,b,at_i,at_j,matched⟩ := (found_eq_some).mp seen'
    have in_a := (mem_orderedPart).mpr ⟨i,at_i⟩
    have in_b := (mem_orderedPart).mpr ⟨j,at_j⟩
    obtain ⟨scopes,types⟩ := alike a in_a b in_b
    have joined := (rootAt_eq_iff unique alike at_i at_j).mpr
      (.rel _ _ ⟨in_a,in_b,scopes,types,isSome_iff_exists.mpr ⟨_,matched⟩⟩)
    exact ⟨a,(mem_component).mpr ⟨i,at_i,same⟩,b,(mem_component).mpr ⟨j,at_j,joined.symm.trans same⟩,
      (position_lt unique at_i at_j).mp less,matched⟩
  · intro mem
    obtain ⟨a,in_a,b,in_b,older,matched⟩ := mem
    obtain ⟨i,at_i,same⟩ := (mem_component).mp in_a
    obtain ⟨j,at_j,_⟩ := (mem_component).mp in_b
    have less := (position_lt unique at_i at_j).mpr older
    obtain ⟨bound,_⟩ := List.getElem?_eq_some_iff.mp at_j
    refine ⟨(evidence,i),mem_map.mpr ⟨⟨i,evidence⟩,mem_filterMap.mpr ⟨(i,j),?_,?_⟩,rfl⟩,same,rfl⟩
    · exact (mem_indexPairs).mpr ⟨less,bound⟩
    · rw [(found_eq_some).mpr ⟨a,b,at_i,at_j,matched⟩]
      rfl

structure IsCluster (tables : Tables) (threshold : Number)
    (opts : DuplicateClusterScanOptions) (part : List MemoryRecord) (root : ℕ)
    (cluster : DuplicateCluster) : Prop where
  several : 2 ≤ cluster.members.length
  members : cluster.members = component tables threshold opts part root
  canonical : cluster.members.head?.map MemoryRecord.id = some cluster.canonicalId
  evidence : cluster.evidence = componentEvidence tables threshold opts part root

theorem IsCluster.part_ne_nil
    (cluster_of : IsCluster tables threshold opts part root cluster) : part ≠ [] := by
  intro empty
  have several := cluster_of.several
  have mem : (component tables threshold opts part root).Sublist (orderedPart part) :=
    component_sublist tables threshold opts root
  have small := mem.length_le
  rw [← cluster_of.members,orderedPart,Comparator.length_sort,empty,length_nil] at small
  omega

theorem IsCluster.unique {other : DuplicateCluster}
    (first : IsCluster tables threshold opts part root cluster)
    (second : IsCluster tables threshold opts part root other) : cluster = other := by
  have members := first.members.trans second.members.symm
  have evidence := first.evidence.trans second.evidence.symm
  have canonical := first.canonical
  rw [members,second.canonical,some.injEq] at canonical
  cases cluster
  cases other
  simp_all

theorem clusterOf_eq_some (unique : UniqueIds part) :
    (if (component tables threshold opts part root).length < 2 then none
      else (Comparator.sort compareRecordsByAge
        (component tables threshold opts part root)).head?.map fun canonical =>
          (⟨canonical.id,Comparator.sort compareRecordsByAge (component tables threshold opts part root),
            componentEvidence tables threshold opts part root⟩ : DuplicateCluster)) =
        some cluster ↔
      IsCluster tables threshold opts part root cluster := by
  have sorted := Comparator.sort_of_pairwise
    ((component_pairwise tables threshold opts unique root).imp fun older => older.le)
  rw [sorted]
  constructor
  · intro made
    split at made
    · cases made
    · obtain ⟨canonical,first,rfl⟩ := map_eq_some_iff.mp made
      refine ⟨by dsimp only; omega,rfl,?_,rfl⟩
      rw [first]
      rfl
  · intro cluster_of
    have several := cluster_of.several
    have canonical := cluster_of.canonical
    rw [cluster_of.members] at several canonical
    obtain ⟨first,at_first,same⟩ := map_eq_some_iff.mp canonical
    rw [if_neg (by omega),at_first,map_some,same,some.injEq]
    exact (IsCluster.unique ⟨several,rfl,canonical,rfl⟩ cluster_of)

theorem mem_clusterPartition (unique : UniqueIds part) :
    cluster ∈ clusterPartition tables threshold opts part ↔
      ∃ root, IsCluster tables threshold opts part root cluster := by
  rw [clusterPartition_eq,mem_filterMap]
  constructor
  · intro mem
    obtain ⟨⟨root,group⟩,inside,made⟩ := mem
    obtain ⟨rfl,_⟩ := Grouping.mem_group.mp inside
    exact ⟨root,(clusterOf_eq_some unique).mp made⟩
  · intro mem
    obtain ⟨root,cluster_of⟩ := mem
    refine ⟨(root,component tables threshold opts part root),?_,(clusterOf_eq_some unique).mpr cluster_of⟩
    apply Grouping.mem_group.mpr
    refine ⟨rfl,?_⟩
    intro empty
    have several := cluster_of.several
    rw [cluster_of.members,empty] at several
    exact absurd several (by decide)

theorem clusterPartition_disjoint (unique : UniqueIds part) :
    (clusterPartition tables threshold opts part).Pairwise fun cluster other =>
      cluster.members.Disjoint other.members := by
  rw [clusterPartition_eq,pairwise_filterMap]
  have nodup := pairwise_map.mp (Grouping.group
    (fun item : MemoryRecord × ℕ => rootAt tables threshold opts part item.2) Prod.fst
    (orderedPart part).zipIdx).distinct
  apply nodup.imp_of_mem
  intro first second in_first in_second apart cluster made other made' a in_a in_b
  obtain ⟨root,group⟩ := first
  obtain ⟨root',group'⟩ := second
  obtain ⟨rfl,_⟩ := Grouping.mem_group.mp in_first
  obtain ⟨rfl,_⟩ := Grouping.mem_group.mp in_second
  have cluster_of := (clusterOf_eq_some unique).mp made
  have cluster_of' := (clusterOf_eq_some unique).mp made'
  rw [cluster_of.members] at in_a
  rw [cluster_of'.members] at in_b
  obtain ⟨i,at_i,same⟩ := (mem_component).mp in_a
  obtain ⟨j,at_j,same'⟩ := (mem_component).mp in_b
  rw [position_unique unique at_i at_j] at same
  exact apart (same.symm.trans same')

end Partition

section Scan
variable {tabs : Tables} {threshold : Number} {opts : DuplicateClusterScanOptions}
variable {records : List MemoryRecord} {a b : MemoryRecord} {group other : DuplicateCluster} {key : Units}
  {root : ℕ}

def bucketOf (records : List MemoryRecord) (key : Units) : List MemoryRecord :=
  records.filter fun record => partitionKey record = key

theorem bucket_eq (records : List MemoryRecord) (key : Units) :
    Grouping.bucket partitionKey id records key = bucketOf records key := map_id _

theorem mem_bucketOf : a ∈ bucketOf records key ↔ a ∈ records ∧ partitionKey a = key := by
  rw [bucketOf,mem_filter,decide_eq_true_eq]

theorem UniqueIds.bucketOf (unique : UniqueIds records) (key : Units) :
    UniqueIds (bucketOf records key) := unique.sublist filter_sublist

theorem alike_bucketOf (records : List MemoryRecord) (key : Units) : Alike (bucketOf records key) := by
  intro a in_a b in_b
  exact (partitionKey_eq).mp (((mem_bucketOf).mp in_a).2.trans ((mem_bucketOf).mp in_b).2.symm)

theorem Matches.partitionKey_eq (matched : Matches tabs threshold opts a b) :
    partitionKey a = partitionKey b :=
  (DuplicateClusters.partitionKey_eq).mpr ⟨matched.1,matched.2.1⟩

theorem connected_iff_bucketOf : Connected tabs threshold opts records a b ↔
    partitionKey a = partitionKey b ∧
      Connected tabs threshold opts (bucketOf records (partitionKey a)) a b := by
  constructor
  · intro connected
    induction connected with
    | rel a b related =>
      obtain ⟨in_a,in_b,matched⟩ := related
      have same := matched.partitionKey_eq
      exact ⟨same,.rel _ _ ⟨(mem_bucketOf).mpr ⟨in_a,rfl⟩,(mem_bucketOf).mpr ⟨in_b,same.symm⟩,matched⟩⟩
    | refl a => exact ⟨rfl,.refl a⟩
    | symm a b _ ih =>
      obtain ⟨same,connected⟩ := ih
      rw [same] at connected
      exact ⟨same.symm,connected.symm⟩
    | trans a c b _ _ first second =>
      obtain ⟨same,connected⟩ := first
      obtain ⟨same',connected'⟩ := second
      rw [← same] at connected' same'
      exact ⟨same',connected.trans _ _ _ connected'⟩
  · intro both
    apply both.2.mono
    intro a b related
    exact ⟨((mem_bucketOf).mp related.1).1,((mem_bucketOf).mp related.2.1).1,related.2.2⟩

theorem mem_scanDuplicateClusters (unique : UniqueIds records) :
    group ∈ scanDuplicateClusters tabs threshold opts records ↔
      ∃ key root, IsCluster tabs threshold opts (bucketOf records key) root group := by
  rw [scanDuplicateClusters,Comparator.mem_sort,mem_flatMap]
  constructor
  · intro mem
    obtain ⟨part,in_part,inside⟩ := mem
    obtain ⟨key,rfl,_⟩ := Grouping.mem_values.mp in_part
    rw [bucket_eq] at inside
    exact ⟨key,(mem_clusterPartition (unique.bucketOf key)).mp inside⟩
  · intro mem
    obtain ⟨key,root,cluster_of⟩ := mem
    refine ⟨bucketOf records key,Grouping.mem_values.mpr ⟨key,(bucket_eq records key).symm,?_⟩,
      (mem_clusterPartition (unique.bucketOf key)).mpr ⟨root,cluster_of⟩⟩
    exact cluster_of.part_ne_nil

theorem IsCluster.mem_members
    (cluster_of : IsCluster tabs threshold opts (bucketOf records key) root group) :
    a ∈ group.members ↔ ∃ i : ℕ, (orderedPart (bucketOf records key))[i]? = some a ∧
      rootAt tabs threshold opts (bucketOf records key) i = root := by
  rw [cluster_of.members,mem_component]

theorem IsCluster.mem_bucketOf
    (cluster_of : IsCluster tabs threshold opts (bucketOf records key) root group)
    (mem : a ∈ group.members) : a ∈ records ∧ partitionKey a = key := by
  obtain ⟨i,at_i,_⟩ := (cluster_of.mem_members).mp mem
  exact (DuplicateClusters.mem_bucketOf).mp ((mem_orderedPart).mpr ⟨i,at_i⟩)

theorem eq_of_mem_members (unique : UniqueIds records)
    (first : group ∈ scanDuplicateClusters tabs threshold opts records)
    (second : other ∈ scanDuplicateClusters tabs threshold opts records)
    (in_first : a ∈ group.members) (in_second : a ∈ other.members) : group = other := by
  obtain ⟨key,root,cluster_of⟩ := (mem_scanDuplicateClusters unique).mp first
  obtain ⟨key',root',cluster_of'⟩ := (mem_scanDuplicateClusters unique).mp second
  obtain ⟨_,rfl⟩ := cluster_of.mem_bucketOf in_first
  obtain ⟨_,rfl⟩ := cluster_of'.mem_bucketOf in_second
  obtain ⟨i,at_i,rfl⟩ := (cluster_of.mem_members).mp in_first
  obtain ⟨j,at_j,rfl⟩ := (cluster_of'.mem_members).mp in_second
  rw [position_unique (unique.bucketOf _) at_i at_j] at cluster_of
  exact cluster_of.unique cluster_of'

theorem mem_members_iff (unique : UniqueIds records)
    (mem : group ∈ scanDuplicateClusters tabs threshold opts records)
    (in_a : a ∈ group.members) :
    b ∈ group.members ↔ b ∈ records ∧ Connected tabs threshold opts records a b := by
  obtain ⟨key,root,cluster_of⟩ := (mem_scanDuplicateClusters unique).mp mem
  obtain ⟨_,rfl⟩ := cluster_of.mem_bucketOf in_a
  obtain ⟨i,at_i,rfl⟩ := (cluster_of.mem_members).mp in_a
  rw [cluster_of.mem_members,connected_iff_bucketOf]
  constructor
  · intro inside
    obtain ⟨j,at_j,same⟩ := inside
    obtain ⟨in_b,same_key⟩ := (mem_bucketOf).mp ((mem_orderedPart).mpr ⟨j,at_j⟩)
    exact ⟨in_b,same_key.symm,(rootAt_eq_iff (unique.bucketOf _) (alike_bucketOf _ _) at_i at_j).mp same.symm⟩
  · intro both
    obtain ⟨in_b,same_key,connected⟩ := both
    obtain ⟨j,at_j⟩ := (mem_orderedPart).mp ((mem_bucketOf).mpr ⟨in_b,same_key.symm⟩)
    exact ⟨j,at_j,(rootAt_of_connected (unique.bucketOf _) connected at_i at_j).symm⟩

theorem canonical_mem (unique : UniqueIds records)
    (mem : group ∈ scanDuplicateClusters tabs threshold opts records) :
    ∃ canonical ∈ group.members, canonical.id = group.canonicalId := by
  obtain ⟨key,root,cluster_of⟩ := (mem_scanDuplicateClusters unique).mp mem
  obtain ⟨canonical,first,same⟩ := map_eq_some_iff.mp cluster_of.canonical
  exact ⟨canonical,mem_of_mem_head? first,same⟩

theorem mem_records_of_mem_members (unique : UniqueIds records)
    (mem : group ∈ scanDuplicateClusters tabs threshold opts records)
    (inside : a ∈ group.members) : a ∈ records := by
  obtain ⟨key,root,cluster_of⟩ := (mem_scanDuplicateClusters unique).mp mem
  exact (cluster_of.mem_bucketOf inside).1

theorem eq_of_canonicalId (unique : UniqueIds records)
    (first : group ∈ scanDuplicateClusters tabs threshold opts records)
    (second : other ∈ scanDuplicateClusters tabs threshold opts records)
    (same : group.canonicalId = other.canonicalId) : group = other := by
  obtain ⟨a,in_first,id_a⟩ := canonical_mem unique first
  obtain ⟨b,in_second,id_b⟩ := canonical_mem unique second
  have equal := unique.eq_of_id (mem_records_of_mem_members unique first in_first)
    (mem_records_of_mem_members unique second in_second) (id_a.trans (same.trans id_b.symm))
  subst equal
  exact eq_of_mem_members unique first second in_first in_second

theorem scanDuplicateClusters_disjoint (unique : UniqueIds records) :
    (scanDuplicateClusters tabs threshold opts records).Pairwise fun group other =>
      group.members.Disjoint other.members := by
  have symmetric : ∀ {group other : DuplicateCluster},
      group.members.Disjoint other.members → other.members.Disjoint group.members :=
    fun disjoint => disjoint.symm
  apply ((Comparator.perm_sort _ _).pairwise_iff symmetric).mpr
  rw [pairwise_flatMap]
  constructor
  · intro part in_part
    obtain ⟨key,rfl,_⟩ := Grouping.mem_values.mp in_part
    rw [bucket_eq]
    exact clusterPartition_disjoint (unique.bucketOf key)
  · have nodup := pairwise_map.mp (partitions records).distinct
    apply pairwise_map.mpr
    apply nodup.imp_of_mem
    intro first second in_first in_second apart group mem other inside' a in_a in_b
    obtain ⟨key,part⟩ := first
    obtain ⟨key',part'⟩ := second
    obtain ⟨rfl,_⟩ := Grouping.mem_group.mp in_first
    obtain ⟨rfl,_⟩ := Grouping.mem_group.mp in_second
    rw [bucket_eq] at mem inside'
    obtain ⟨root,cluster_of⟩ := (mem_clusterPartition (unique.bucketOf key)).mp mem
    obtain ⟨root',cluster_of'⟩ := (mem_clusterPartition (unique.bucketOf key')).mp inside'
    exact apart ((cluster_of.mem_bucketOf in_a).2.symm.trans (cluster_of'.mem_bucketOf in_b).2)

end Scan

section Permutation
variable (tabs : Tables) (threshold : Number) (opts : DuplicateClusterScanOptions)
variable {rows others : List MemoryRecord}

theorem clusterPartition_of_perm (unique : UniqueIds rows) (same : rows.Perm others) :
    clusterPartition tabs threshold opts rows =
      clusterPartition tabs threshold opts others := by
  have ordered := Comparator.sort_eq_of_perm lawful_compareRecordsByAge same unique.apart
  unfold clusterPartition
  rw [ordered]

theorem mem_keys_partitions {key : Units} : key ∈ (partitions rows).keys ↔ bucketOf rows key ≠ [] := by
  rw [OrderedMap.mem_keys,partitions]
  constructor
  · intro here
    obtain ⟨part,at_key⟩ := here
    obtain ⟨rfl,full⟩ := Grouping.mem_group.mp ((mem_entries).mpr at_key)
    rwa [bucket_eq] at full
  · intro full
    exact ⟨bucketOf rows key,
      (mem_entries).mp (Grouping.mem_group.mpr ⟨(bucket_eq rows key).symm,full⟩)⟩

theorem flatMap_partitions : (partitions rows).values.flatMap (clusterPartition tabs threshold opts) =
      (partitions rows).keys.flatMap fun key =>
        clusterPartition tabs threshold opts (bucketOf rows key) := by
  rw [values,OrderedMap.keys,flatMap_map,flatMap_map]
  apply flatMap_congr
  intro e mem
  obtain ⟨key,part⟩ := e
  obtain ⟨rfl,_⟩ := Grouping.mem_group.mp mem
  rw [bucket_eq]

theorem scanDuplicateClusters_of_perm (unique : UniqueIds rows) (same : rows.Perm others) :
    scanDuplicateClusters tabs threshold opts others =
      scanDuplicateClusters tabs threshold opts rows := by
  have buckets : ∀ key, (bucketOf rows key).Perm (bucketOf others key) := fun key =>
    same.filter _
  have keys : (partitions rows).keys.Perm (partitions others).keys := by
    apply (perm_ext_iff_of_nodup (partitions rows).distinct (partitions others).distinct).mpr
    intro key
    rw [← OrderedMap.keys,← OrderedMap.keys,mem_keys_partitions,mem_keys_partitions,not_iff_not,
      ← length_eq_zero_iff,← length_eq_zero_iff,(buckets key).length_eq]
  have clusters : ((partitions rows).values.flatMap (clusterPartition tabs threshold opts)).Perm
      ((partitions others).values.flatMap (clusterPartition tabs threshold opts)) := by
    rw [flatMap_partitions,flatMap_partitions]
    have congr : ∀ key, clusterPartition tabs threshold opts (bucketOf rows key) =
        clusterPartition tabs threshold opts (bucketOf others key) := fun key =>
      clusterPartition_of_perm tabs threshold opts (unique.bucketOf key) (buckets key)
    simp only [congr]
    exact keys.flatMap_right _
  symm
  apply Comparator.sort_eq_of_perm (lawful_cmpString.mapped _) clusters
  intro cluster in_cluster other in_other same_id
  apply eq_of_canonicalId unique (Comparator.mem_sort.mpr in_cluster) (Comparator.mem_sort.mpr in_other)
  exact (cmpString_eq_zero).mp same_id

end Permutation

/-- Clusters that are the connected components, of two records or more, of the matches within one
scope and type: closed under chains of matches, none left out, apart from each other, their members
from the oldest on, with the evidence of every match inside of them and of no other. -/
structure IsComponents (tables : Tables) (jaccardThreshold : Number)
    (options : DuplicateClusterScanOptions) (records : List MemoryRecord)
    (clusters : List DuplicateCluster) : Prop where
  several : ∀ cluster ∈ clusters, 2 ≤ cluster.members.length
  closed : ∀ cluster ∈ clusters, ∀ a ∈ cluster.members, ∀ b, b ∈ cluster.members ↔
    b ∈ records ∧ Connected tables jaccardThreshold options records a b
  complete : ∀ a ∈ records, ∀ b ∈ records, a ≠ b →
    Connected tables jaccardThreshold options records a b → ∃ cluster ∈ clusters, a ∈ cluster.members
  apart : clusters.Pairwise fun cluster other => cluster.members.Disjoint other.members
  aged : ∀ cluster ∈ clusters, cluster.members.Pairwise fun a b => compareRecordsByAge a b < 0
  canonical : ∀ cluster ∈ clusters, cluster.members.head?.map MemoryRecord.id = some cluster.canonicalId
  evidence : ∀ cluster ∈ clusters, ∀ evidence, evidence ∈ cluster.evidence ↔
    ∃ a ∈ cluster.members, ∃ b ∈ cluster.members, compareRecordsByAge a b < 0 ∧
      matchRecords tables jaccardThreshold options a b = some evidence
  arranged : clusters.Pairwise fun cluster other => compareByCanonicalId cluster other < 0

section Components
variable (tables : Tables) (jaccardThreshold : Number) (options : DuplicateClusterScanOptions)
variable {records : List MemoryRecord}

theorem two_le_length {xs : List MemoryRecord} {a b : MemoryRecord} (in_a : a ∈ xs)
    (in_b : b ∈ xs) (differ : a ≠ b) : 2 ≤ xs.length := by
  match xs with
  | [] => cases in_a
  | [c] =>
    rw [mem_singleton] at in_a in_b
    exact absurd (in_a.trans in_b.symm) differ
  | _ :: _ :: xs => exact Nat.le_add_left 2 xs.length

theorem exists_cluster (unique : UniqueIds records) {a b : MemoryRecord} (in_a : a ∈ records)
    (in_b : b ∈ records) (differ : a ≠ b)
    (connected : Connected tables jaccardThreshold options records a b) :
    ∃ cluster ∈ scanDuplicateClusters tables jaccardThreshold options records, a ∈ cluster.members := by
  obtain ⟨same_key,within⟩ := (connected_iff_bucketOf).mp connected
  obtain ⟨i,at_i⟩ := (mem_orderedPart).mp ((mem_bucketOf).mpr ⟨in_a,rfl⟩)
  obtain ⟨j,at_j⟩ := (mem_orderedPart).mp ((mem_bucketOf).mpr ⟨in_b,same_key.symm⟩)
  have same_root := rootAt_of_connected (unique.bucketOf _) within at_i at_j
  generalize reached : rootAt tables jaccardThreshold options (bucketOf records (partitionKey a)) i = root at same_root
  have mem : a ∈ component tables jaccardThreshold options (bucketOf records (partitionKey a)) root :=
    (mem_component).mpr ⟨i,at_i,reached⟩
  have inside' : b ∈ component tables jaccardThreshold options (bucketOf records (partitionKey a)) root :=
    (mem_component).mpr ⟨j,at_j,same_root.symm⟩
  have head := head?_eq_some_head (ne_nil_of_mem mem)
  refine ⟨⟨MemoryRecord.id (List.head _ (List.ne_nil_of_mem mem)),
    component tables jaccardThreshold options (bucketOf records (partitionKey a)) root,
    componentEvidence tables jaccardThreshold options (bucketOf records (partitionKey a)) root⟩,?_,
    mem⟩
  apply (mem_scanDuplicateClusters unique).mpr
  refine ⟨partitionKey a,root,two_le_length mem inside' differ,rfl,?_,rfl⟩
  rw [head]
  rfl

/-- Duplicate clusters are the connected components of the matches, whatever the threshold and in
whatever order the records come. -/
theorem scanDuplicateClusters_components (unique : UniqueIds records) :
    IsComponents tables jaccardThreshold options records
        (scanDuplicateClusters tables jaccardThreshold options records) ∧
      ∀ others, records.Perm others →
        scanDuplicateClusters tables jaccardThreshold options others =
          scanDuplicateClusters tables jaccardThreshold options records := by
  constructor
  · constructor
    case several =>
      intro cluster member
      obtain ⟨key,root,cluster_of⟩ := (mem_scanDuplicateClusters unique).mp member
      exact cluster_of.several
    case closed =>
      intro cluster member a in_a b
      exact mem_members_iff unique member in_a
    case complete =>
      intro a in_a b in_b different connected
      exact exists_cluster tables jaccardThreshold options unique in_a in_b different connected
    case apart => exact scanDuplicateClusters_disjoint unique
    case aged =>
      intro cluster member
      obtain ⟨key,root,cluster_of⟩ := (mem_scanDuplicateClusters unique).mp member
      rw [cluster_of.members]
      exact component_pairwise tables jaccardThreshold options (unique.bucketOf key) root
    case canonical =>
      intro cluster member
      obtain ⟨key,root,cluster_of⟩ := (mem_scanDuplicateClusters unique).mp member
      exact cluster_of.canonical
    case evidence =>
      intro cluster member evidence
      obtain ⟨key,root,cluster_of⟩ := (mem_scanDuplicateClusters unique).mp member
      rw [cluster_of.members,cluster_of.evidence]
      exact mem_componentEvidence (unique.bucketOf key) (alike_bucketOf records key)
    case arranged =>
      have distinct : (scanDuplicateClusters tables jaccardThreshold options records).Pairwise
          (· ≠ ·) := by
        apply (scanDuplicateClusters_disjoint unique).imp_of_mem
        intro cluster other member _ disjoint same
        obtain ⟨canonical,inside,_⟩ := canonical_mem unique member
        exact disjoint inside (same ▸ inside)
      have sorted := Comparator.pairwise_sort (lawful_cmpString.mapped DuplicateCluster.canonicalId)
        ((partitions records).values.flatMap (clusterPartition tables jaccardThreshold options))
      apply (sorted.and distinct).imp_of_mem
      intro cluster other in_cluster in_other both
      apply lt_of_le_of_ne both.1
      intro same
      exact both.2 (eq_of_canonicalId unique in_cluster in_other ((cmpString_eq_zero).mp same))
  · intro others same
    exact scanDuplicateClusters_of_perm tables jaccardThreshold options unique same

def sampleRecords : List MemoryRecord := [
  ⟨units "m2",.user (units "u"),.decision,units "Use tabs.",.accepted,20⟩,
  ⟨units "m1",.user (units "u"),.decision,units "use tabs",.accepted,10⟩,
  ⟨units "m3",.user (units "v"),.decision,units "use tabs",.accepted,30⟩]

theorem scanDuplicateClusters_components_sample :
    IsComponents asciiTables 1 ⟨none,none⟩ sampleRecords
        (scanDuplicateClusters asciiTables 1 ⟨none,none⟩ sampleRecords) ∧
      ∀ others, sampleRecords.Perm others →
        scanDuplicateClusters asciiTables 1 ⟨none,none⟩ others =
          scanDuplicateClusters asciiTables 1 ⟨none,none⟩ sampleRecords :=
  scanDuplicateClusters_components asciiTables 1 ⟨none,none⟩ (by decide)

end Components

end Keiko.DuplicateClusters
