import Keiko.Consolidation

/-! What a consolidation run reports of the conflicts among the records it inspects. Two sweeps share
the work: each inspected cluster yields an item, and the sweep over the pairs leaves out the pairs of
all clusters, inspected or not. So a conflict has its item unless its cluster comes too late. -/
namespace Keiko.Consolidation
open Keiko.Library Keiko.MemorySimilarity Keiko.DuplicateClusters Keiko.MemoryConflicts List Comparator
open Keiko.ConsolidationSummary

section Ids

def ProposedAction.ids : ProposedAction → List Units
  | .merge winner losers => winner :: losers
  | .supersede newer older => [newer,older]

def itemIds (item : ReviewItem) : List Units :=
  item.relatedMemoryIds ++ item.sourceMemoryIds ++ ProposedAction.ids item.proposedAction ++
    item.evidence.flatMap ConsolidationEvidence.memoryIds ++
    item.proposedEdges.flatMap fun edge => [edge.fromMemoryId,edge.toMemoryId]

variable {resolved : ResolvedOptions}

theorem mem_buildEdges {drafts : List EdgeDraft} {supply : Supply} {edge : MemoryEdge}
    (mem : edge ∈ (buildEdges resolved drafts supply).1) :
    ∃ draft ∈ drafts, edge.fromMemoryId = draft.fromMemoryId ∧ edge.toMemoryId = draft.toMemoryId := by
  induction drafts generalizing supply with
  | nil => cases mem
  | cons draft drafts ih =>
    rw [buildEdges] at mem
    rcases mem_cons.mp mem with rfl | inside
    · exact ⟨draft,mem_cons_self,rfl,rfl⟩
    · obtain ⟨other,among,ends⟩ := ih inside
      exact ⟨other,mem_cons_of_mem _ among,ends⟩

theorem mem_reviewEdges {action : ProposedAction} {draft : EdgeDraft} (mem : draft ∈ reviewEdges action) :
    draft.fromMemoryId ∈ ProposedAction.ids action ∧ draft.toMemoryId ∈ ProposedAction.ids action := by
  cases action with
  | supersede newer older =>
    simp only [reviewEdges,supersedeReviewEdges,mem_cons,not_mem_nil,or_false] at mem
    rcases mem with rfl | rfl | rfl <;> simp [ProposedAction.ids]
  | merge winner losers =>
    obtain ⟨loser,among,inside⟩ := mem_flatMap.mp mem
    simp only [mem_cons,not_mem_nil,or_false] at inside
    rcases inside with rfl | rfl | rfl <;> simp [ProposedAction.ids,among]

theorem itemIds_withProposedReviewEdges {item : ReviewItem} {supply : Supply} {id : Units}
    (plain : item.proposedEdges = [])
    (mem : id ∈ itemIds (withProposedReviewEdges resolved item supply).1) : id ∈ itemIds item := by
  unfold itemIds at mem ⊢
  rw [plain,flatMap_nil,append_nil]
  rcases mem_append.mp mem with front | last
  · exact front
  · obtain ⟨edge,inside,ends⟩ := mem_flatMap.mp last
    obtain ⟨draft,among,from_same,to_same⟩ := mem_buildEdges inside
    obtain ⟨from_action,to_action⟩ := mem_reviewEdges among
    apply mem_append_left
    apply mem_append_right
    simp only [mem_cons,not_mem_nil,or_false] at ends
    rcases ends with rfl | rfl
    · rwa [from_same]
    · rwa [to_same]

end Ids

section Cluster
variable {tables : Tables} {resolved : ResolvedOptions} {cluster : DuplicateCluster}
  {options : ConflictsOptions} {supply : Supply} {older newer : MemoryRecord} {id : Units}

def clusterIds (cluster : DuplicateCluster) : List Units :=
  (Comparator.sort compareRecordsByAge cluster.members).map MemoryRecord.id

theorem mem_clusterIds : id ∈ clusterIds cluster ↔ id ∈ cluster.members.map MemoryRecord.id :=
  ((perm_sort _ _).map _).mem_iff

def clusterConflicts (tables : Tables) (cluster : DuplicateCluster) : Bool :=
  match Comparator.sort compareRecordsByAge cluster.members with
  | [older,newer] => conflictEvidenceForPair tables older newer ≠ []
  | _ => false

def hasItem (tables : Tables) (cluster : DuplicateCluster) : Bool :=
  decide (2 < cluster.members.length) ||
    (decide (cluster.members.length = 2) && (clusterConflicts tables cluster || hasNonAcceptedMember cluster))

/-- An item that stands for a cluster: it relates all members, and names no record beyond those of
the cluster and of its evidence. -/
structure ItemOf (cluster : DuplicateCluster) (item : ReviewItem) : Prop where
  related : item.relatedMemoryIds = clusterIds cluster
  named : ∀ id ∈ itemIds item, id ∈ clusterIds cluster ∨ ∃ evidence ∈ cluster.evidence, id ∈ evidence.memoryIds
  plain : item.proposedEdges = []

theorem itemOf_mergeItem {reason : ReviewReason} {winner : MemoryRecord} (last : (Comparator.sort compareRecordsByAge cluster.members).getLast? = some winner) :
    ItemOf cluster (mergeItem options reason (Comparator.sort compareRecordsByAge cluster.members)
      winner cluster.evidence supply).1 where
  related := rfl
  plain := rfl
  named id mem := by
    have winner_in : winner.id ∈ clusterIds cluster :=
      mem_map_of_mem (mem_of_getLast? last)
    have losers_in : ∀ id ∈ ((sort compareRecordsByAge cluster.members).dropLast.map
        MemoryRecord.id), id ∈ clusterIds cluster := by
      intro id inside
      obtain ⟨r,among,rfl⟩ := mem_map.mp inside
      exact mem_map_of_mem (mem_of_mem_dropLast among)
    simp only [itemIds,mergeItem,ProposedAction.ids,flatMap_nil,append_nil,mem_append,mem_cons,mem_flatMap] at mem
    rcases mem with ((related | src) | rfl | loser) | evidence
    · exact .inl related
    · exact .inl src
    · exact .inl winner_in
    · exact .inl (losers_in id loser)
    · exact .inr evidence

theorem memoryIds_conflictEvidenceForPair
    {evidence : ConsolidationEvidence} (mem : evidence ∈ conflictEvidenceForPair tables older newer) :
    evidence.memoryIds = [older.id,newer.id] := by
  rw [conflictEvidenceForPair] at mem
  rcases mem_append.mp mem with polarity | replaced
  · split at polarity
    · rw [mem_singleton.mp polarity,polarityEvidence]
    · cases polarity
  · rw [Option.mem_toList,findValueReplacementEvidence] at replaced
    obtain ⟨oldFact,_,inner⟩ := exists_of_findSome?_eq_some replaced
    obtain ⟨newFact,_,hit⟩ := exists_of_findSome?_eq_some inner
    split at hit
    · cases hit
    split at hit
    · cases hit
    · rw [← Option.some.inj hit]

theorem itemIds_buildPairConflictItem
    (mem : id ∈ itemIds (buildPairConflictItem options older newer
      (conflictEvidenceForPair tables older newer) supply).1) : id ∈ [older.id,newer.id] := by
  simp only [itemIds,buildPairConflictItem,ProposedAction.ids,flatMap_nil,append_nil,mem_append,mem_flatMap] at mem
  rcases mem with ((related | src) | action) | ⟨evidence,among,inside⟩
  · exact related
  · exact src
  · simp only [mem_cons,not_mem_nil,or_false] at action ⊢
    exact action.symm
  · rwa [memoryIds_conflictEvidenceForPair among] at inside

variable (tables cluster) in
theorem detectConflict_isSome (options : ConflictsOptions) (supply : Supply) :
    (detectConflict tables options cluster supply).isSome =
      (decide (2 < cluster.members.length) || clusterConflicts tables cluster) := by
  have size : (sort compareRecordsByAge cluster.members).length = cluster.members.length :=
    length_sort
  unfold detectConflict clusterConflicts
  by_cases many : 2 < cluster.members.length
  · rw [if_pos many,decide_eq_true many,Bool.true_or,buildMultiWayItem,Option.isSome_map,Option.isSome_iff_ne_none]
    intro none_last
    rw [getLast?_eq_none_iff] at none_last
    rw [none_last,length_nil] at size
    omega
  · rw [if_neg many,decide_eq_false many,Bool.false_or]
    unfold tryBuildPairConflict
    clear size
    generalize sort compareRecordsByAge cluster.members = sorted
    match sorted with
    | [] => rfl
    | [_] => rfl
    | [older,newer] =>
      by_cases empty : conflictEvidenceForPair tables older newer = []
      · simp only [empty,if_true,Option.isSome_none,ne_eq,not_true_eq_false,decide_false]
      · simp only [empty,if_false,Option.isSome_some,ne_eq,not_false_eq_true,decide_true]
    | _ :: _ :: _ :: _ => rfl

theorem itemOf_detectConflict {built : ReviewItem × Supply}
    (detected : detectConflict tables options cluster supply = some built) :
    ItemOf cluster built.1 := by
  unfold detectConflict at detected
  split at detected
  · obtain ⟨winner,last,rfl⟩ := Option.map_eq_some_iff.mp detected
    exact itemOf_mergeItem last
  · unfold tryBuildPairConflict at detected
    split at detected
    next older newer sorted =>
      dsimp only at detected
      split at detected
      · cases detected
      · obtain rfl := Option.some.inj detected
        have ids : clusterIds cluster = [older.id,newer.id] := by
          rw [clusterIds,sorted]
          rfl
        constructor
        · exact ids.symm
        · intro id mem
          rw [ids]
          exact .inl (itemIds_buildPairConflictItem mem)
        · rfl
    · cases detected

structure Processed (tables : Tables) (resolved : ResolvedOptions) (cluster : DuplicateCluster)
    (effects : ClusterEffects) : Prop where
  reviewed : effects.reviewItem.isSome = hasItem tables cluster
  related : ∀ item ∈ effects.reviewItem, item.relatedMemoryIds = clusterIds cluster
  named : ∀ item ∈ effects.reviewItem, ∀ id ∈ itemIds item, id ∈ clusterIds cluster ∨
    ∃ evidence ∈ cluster.evidence, id ∈ evidence.memoryIds
  edges : ∀ edge ∈ effects.edges, edge.fromMemoryId ∈ clusterIds cluster ∧ edge.toMemoryId ∈ clusterIds cluster
  updates : ∀ update ∈ effects.updates, ∃ summary,
    buildSummaryUpdate tables resolved.summary cluster = .ok summary ∧ summary.update = some update

theorem processed_unreviewed (accepted : hasItem tables cluster = false) {edges : List MemoryEdge}
    (edged : ∀ edge ∈ edges, edge.fromMemoryId ∈ clusterIds cluster ∧ edge.toMemoryId ∈ clusterIds cluster) :
    Processed tables resolved cluster ⟨edges,none,[],0,0⟩ where
  reviewed := accepted.symm
  related := by
    intro item absurd
    cases absurd
  named := by
    intro item absurd
    cases absurd
  edges := edged
  updates := by
    intro update absurd
    cases absurd

variable (resolved) in
theorem reviewed_spec (built : Option (ReviewItem × Supply)) (supply : Supply)
    (item_of : ∀ item ∈ built, ItemOf cluster item.1) :
    (reviewed resolved built supply).1.isSome = built.isSome ∧
      (∀ item ∈ (reviewed resolved built supply).1, item.relatedMemoryIds = clusterIds cluster) ∧
      ∀ item ∈ (reviewed resolved built supply).1, ∀ id ∈ itemIds item, id ∈ clusterIds cluster ∨
        ∃ evidence ∈ cluster.evidence, id ∈ evidence.memoryIds := by
  cases built with
  | none =>
    refine ⟨rfl,?_,?_⟩
    · intro item absurd
      cases absurd
    · intro item absurd
      cases absurd
  | some pair =>
    have item_of' := item_of pair rfl
    refine ⟨rfl,?_,?_⟩
    · intro item same
      obtain rfl := Option.some.inj same
      exact item_of'.related
    · intro item same id mem
      obtain rfl := Option.some.inj same
      exact item_of'.named id (itemIds_withProposedReviewEdges item_of'.plain mem)

theorem mergeActionForCluster_some (cluster : DuplicateCluster) (several : 2 ≤ cluster.members.length) :
    ∃ winner losers, mergeActionForCluster cluster = some (winner,losers) ∧
      (Comparator.sort compareRecordsByAge cluster.members).getLast? = some winner := by
  obtain ⟨winner,losers,action,_⟩ := mergeActionForCluster_eq several
  refine ⟨winner,losers,action,?_⟩
  unfold mergeActionForCluster at action
  dsimp only at action
  split at action
  · cases action
  next last =>
    split at action
    · cases action
    · rw [last,(Prod.mk.inj (Option.some.inj action)).1]

variable (tables resolved) in
theorem processTwoMemberCluster_spec (two : cluster.members.length = 2) (supply : Supply) :
    Processed tables resolved cluster (processTwoMemberCluster tables resolved cluster supply).1 := by
  have none_updated : ∀ update ∈ ([] : List MemoryUpdate), ∃ summary,
      buildSummaryUpdate tables resolved.summary cluster = .ok summary ∧
        summary.update = some update := fun _ absurd => by cases absurd
  have none_edged : ∀ edge ∈ ([] : List MemoryEdge),
      edge.fromMemoryId ∈ clusterIds cluster ∧ edge.toMemoryId ∈ clusterIds cluster :=
    fun _ absurd => by cases absurd
  have detects := detectConflict_isSome tables cluster resolved.conflicts supply
  have item : hasItem tables cluster = (clusterConflicts tables cluster || hasNonAcceptedMember cluster) := by
    simp [hasItem,two]
  rw [two,decide_eq_false (lt_irrefl 2),Bool.false_or] at detects
  unfold processTwoMemberCluster
  split
  next built detected =>
    obtain ⟨some_item,related,named⟩ := reviewed_spec resolved (some built) supply fun item same => by
        obtain rfl := Option.some.inj same
        exact itemOf_detectConflict detected
    rw [detected] at detects
    refine ⟨?_,related,named,none_edged,none_updated⟩
    rw [item,← detects,some_item]
    rfl
  next undetected =>
    rw [undetected] at detects
    split
    next outside =>
      obtain ⟨winner,losers,action,last⟩ := mergeActionForCluster_some cluster (by omega)
      have made : buildDuplicateReviewItem resolved cluster .duplicateReview supply =
          some (mergeItem resolved.conflicts .duplicateReview
            (sort compareRecordsByAge cluster.members) winner cluster.evidence supply) := by
        rw [buildDuplicateReviewItem,action]
      obtain ⟨some_item,related,named⟩ := reviewed_spec resolved
        (buildDuplicateReviewItem resolved cluster .duplicateReview supply) supply
        fun item same => by
          rw [made] at same
          obtain rfl := Option.some.inj same
          exact itemOf_mergeItem last
      refine ⟨?_,related,named,none_edged,none_updated⟩
      rw [item,← detects,outside,Bool.or_true,some_item,made]
      rfl
    next inside =>
      have accepted : hasItem tables cluster = false := by
        rw [item,← detects,Bool.eq_false_iff.mpr inside]
        rfl
      split
      next older newer first second =>
        apply processed_unreviewed accepted
        intro edge mem
        obtain ⟨draft,among,from_same,to_same⟩ := mem_buildEdges mem
        have older_in : older.id ∈ clusterIds cluster :=
          (mem_clusterIds).mpr (mem_map_of_mem (mem_of_getElem? first))
        have newer_in : newer.id ∈ clusterIds cluster :=
          (mem_clusterIds).mpr (mem_map_of_mem (mem_of_getElem? second))
        simp only [duplicateEdges,mem_cons,not_mem_nil,or_false] at among
        rw [from_same,to_same]
        rcases among with rfl | rfl | rfl <;> exact ⟨older_in,newer_in⟩
      next => exact processed_unreviewed accepted none_edged

theorem processCluster_spec {supply' : Supply} {effects : ClusterEffects}
    (processed : processCluster tables resolved cluster supply = .ok (effects,supply')) :
    Processed tables resolved cluster effects := by
  unfold processCluster at processed
  split at processed
  next many =>
    obtain ⟨summary,built,processed⟩ := bind_eq_ok.mp processed
    obtain ⟨rfl,rfl⟩ := Prod.mk.inj (Except.ok.inj processed)
    obtain ⟨some_item,related,named⟩ := reviewed_spec resolved (detectConflict tables resolved.conflicts cluster supply)
      (((detectConflict tables resolved.conflicts cluster supply).map Prod.snd).getD supply)
      fun item same => itemOf_detectConflict same
    refine ⟨?_,related,named,(fun _ absurd => by cases absurd),?_⟩
    · rw [some_item,detectConflict_isSome,hasItem,decide_eq_true many,Bool.true_or,Bool.true_or]
    · intro update mem
      exact ⟨summary,built,Option.mem_toList.mp mem⟩
  next few =>
    split at processed
    next two =>
      have same := Except.ok.inj processed
      have spec := processTwoMemberCluster_spec tables resolved two supply
      rwa [same] at spec
    next other =>
      obtain ⟨rfl,rfl⟩ := Prod.mk.inj (Except.ok.inj processed)
      have none_item : hasItem tables cluster = false := by
        simp [hasItem,few,other]
      exact processed_unreviewed none_item fun _ absurd => by cases absurd

end Cluster

section Consume
variable {tabs : Tables} {resolved : ResolvedOptions} {clusters : List DuplicateCluster}

theorem consumeFrom_spec {res result' : ConsumeResult} {supply supply' : Supply}
    (consumed : consumeFrom tabs resolved clusters res supply = .ok (result',supply')) :
    ∃ all : List ClusterEffects, List.Forall₂ (Processed tabs resolved) clusters all ∧
      result' = all.foldl ConsumeResult.add res := by
  induction clusters generalizing res supply with
  | nil =>
    obtain ⟨rfl,rfl⟩ := Prod.mk.inj (Except.ok.inj consumed)
    exact ⟨[],.nil,rfl⟩
  | cons cluster clusters ih =>
    obtain ⟨⟨effects,next⟩,processed,rest⟩ := bind_eq_ok.mp consumed
    obtain ⟨all,each,same⟩ := ih rest
    exact ⟨effects :: all,.cons (processCluster_spec processed) each,same⟩

theorem foldl_add (all : List ClusterEffects) (res : ConsumeResult) :
    (all.foldl ConsumeResult.add res).reviewItems =
        res.reviewItems ++ all.flatMap (fun effects => effects.reviewItem.toList) ∧
      (all.foldl ConsumeResult.add res).edges = res.edges ++ all.flatMap ClusterEffects.edges ∧
      (all.foldl ConsumeResult.add res).updates = res.updates ++ all.flatMap ClusterEffects.updates := by
  induction all generalizing res with
  | nil => simp
  | cons effects all ih =>
    obtain ⟨xs,edges,updates⟩ := ih (res.add effects)
    refine ⟨?_,?_,?_⟩
    · rw [foldl_cons,xs,flatMap_cons,← append_assoc]
      rfl
    · rw [foldl_cons,edges,flatMap_cons,← append_assoc]
      rfl
    · rw [foldl_cons,updates,flatMap_cons,← append_assoc]
      rfl

theorem relatedIds_of_processed {all : List ClusterEffects}
    (each : List.Forall₂ (Processed tabs resolved) clusters all) :
    (all.flatMap fun effects => effects.reviewItem.toList).map ReviewItem.relatedMemoryIds =
      (clusters.filter (hasItem tabs)).map clusterIds := by
  induction each with
  | nil => rfl
  | @cons cluster effects clusters all processed _ ih =>
    have reviewed := processed.reviewed
    have related := processed.related
    rw [flatMap_cons,map_append,ih]
    cases given : effects.reviewItem with
    | none =>
      rw [given] at reviewed
      rw [filter_cons_of_neg (by rw [← reviewed]; exact Bool.false_ne_true)]
      rfl
    | some item =>
      rw [given] at reviewed
      rw [filter_cons_of_pos reviewed.symm,map_cons,← related item given]
      rfl

end Consume

section Sweep
variable {tables : Tables} {resolved : ResolvedOptions} {records : List MemoryRecord}

theorem relatedIds_reviewAll (xs : List ReviewItem) (supply : Supply) :
    (reviewAll resolved xs supply).1.map ReviewItem.relatedMemoryIds = xs.map ReviewItem.relatedMemoryIds := by
  induction xs generalizing supply with
  | nil => rfl
  | cons item xs ih =>
    rw [reviewAll,map_cons,map_cons,ih]
    rfl

def sweepPairs (records : List MemoryRecord) : List (MemoryRecord × MemoryRecord) :=
  (partitions records).values.flatMap fun partition =>
    orderedPairs (Comparator.sort compareRecordsByAge partition)

def isSwept (tables : Tables) (clusters : List DuplicateCluster) (pair : MemoryRecord × MemoryRecord) : Bool :=
  (sweepEvidence tables (buildExcludeSet clusters) conflictOverlapThreshold pair.1 pair.2).isSome

def pairIds (pair : MemoryRecord × MemoryRecord) : List Units := [pair.1.id,pair.2.id]

variable (tables) in
theorem relatedIds_foldl_sweepPair (options : ConflictsOptions) (clusters : List DuplicateCluster)
    (pairs : List (MemoryRecord × MemoryRecord)) (s : List ReviewItem × Supply) :
    (pairs.foldl (sweepPair tables options (buildExcludeSet clusters) conflictOverlapThreshold)
        s).1.map ReviewItem.relatedMemoryIds =
      s.1.map ReviewItem.relatedMemoryIds ++ (pairs.filter (isSwept tables clusters)).map pairIds := by
  induction pairs generalizing s with
  | nil => simp
  | cons pair pairs ih =>
    rw [foldl_cons,ih,sweepPair]
    cases hit : sweepEvidence tables (buildExcludeSet clusters) conflictOverlapThreshold pair.1 pair.2 with
    | none => simp [isSwept,hit]
    | some evidence => simp [isSwept,hit,buildPairConflictItem,pairIds]

theorem foldl_scanPartitionPairs {options : ConflictsOptions} {excluded : List Units}
    {threshold : Number} (parts : List (List MemoryRecord)) (s : List ReviewItem × Supply) :
    parts.foldl (fun s partition =>
        scanPartitionPairs tables options partition excluded threshold s) s =
      (parts.flatMap fun partition =>
        orderedPairs (Comparator.sort compareRecordsByAge partition)).foldl
          (sweepPair tables options excluded threshold) s := by
  induction parts generalizing s with
  | nil => rfl
  | cons part parts ih =>
    rw [foldl_cons,ih,flatMap_cons,foldl_append]
    rfl

theorem relatedIds_collectConflictPairs (clusters : List DuplicateCluster) (supply : Supply) :
    ((collectConflictPairs tables resolved records clusters supply).1.map ReviewItem.relatedMemoryIds).Perm
        (((sweepPairs records).filter (isSwept tables clusters)).map pairIds) := by
  rw [collectConflictPairs,relatedIds_reviewAll,findConflictPairs,partitionForConflicts,foldl_scanPartitionPairs]
  have swept := relatedIds_foldl_sweepPair tables resolved.conflicts clusters (sweepPairs records) ([],supply)
  rw [map_nil,nil_append] at swept
  rw [← swept]
  exact (perm_sort _ _).map _

variable {a b : MemoryRecord} {sorted : List MemoryRecord}

theorem mem_orderedPairs (arranged : sorted.Pairwise fun a b => compareRecordsByAge a b < 0) :
    (a,b) ∈ orderedPairs sorted ↔ a ∈ sorted ∧ b ∈ sorted ∧ compareRecordsByAge a b < 0 := by
  induction sorted with
  | nil => simp [orderedPairs]
  | cons first sorted ih =>
    obtain ⟨pre,arranged⟩ := pairwise_cons.mp arranged
    have itself := lawful_compareRecordsByAge.self first
    rw [orderedPairs,mem_append,mem_map,ih arranged]
    constructor
    · intro mem
      rcases mem with ⟨other,inside,same⟩ | ⟨in_a,in_b,older⟩
      · obtain ⟨rfl,rfl⟩ := Prod.mk.inj same
        exact ⟨mem_cons_self,mem_cons_of_mem _ inside,pre _ inside⟩
      · exact ⟨mem_cons_of_mem _ in_a,mem_cons_of_mem _ in_b,older⟩
    · intro mem
      obtain ⟨in_a,in_b,older⟩ := mem
      rcases mem_cons.mp in_a with rfl | inside_a
      · rcases mem_cons.mp in_b with rfl | inside_b
        · omega
        · exact .inl ⟨b,inside_b,rfl⟩
      · rcases mem_cons.mp in_b with rfl | inside_b
        · have younger := pre a inside_a
          rw [lawful_compareRecordsByAge.swap] at younger
          omega
        · exact .inr ⟨inside_a,inside_b,older⟩

theorem fst_mem_of_mem_orderedPairs
    {pair : MemoryRecord × MemoryRecord} (mem : pair ∈ orderedPairs sorted) :
    pair.1 ∈ sorted := by
  induction sorted with
  | nil => cases mem
  | cons first sorted ih =>
    rcases mem_append.mp mem with here | post
    · obtain ⟨other,_,rfl⟩ := mem_map.mp here
      exact mem_cons_self
    · exact mem_cons_of_mem _ (ih post)

theorem nodup_orderedPairs (nodup : sorted.Nodup) : (orderedPairs sorted).Nodup := by
  induction sorted with
  | nil => exact nodup_nil
  | cons first sorted ih =>
    obtain ⟨fresh,nodup⟩ := nodup_cons.mp nodup
    apply List.Nodup.append
    · exact nodup.map fun _ _ same => (Prod.mk.inj same).2
    · exact ih nodup
    · intro pair here post
      obtain ⟨other,_,rfl⟩ := mem_map.mp here
      exact fresh (fst_mem_of_mem_orderedPairs post)

theorem mem_sweepPairs (unique : UniqueIds records) : (a,b) ∈ sweepPairs records ↔
    a ∈ records ∧ b ∈ records ∧ partitionKey a = partitionKey b ∧ compareRecordsByAge a b < 0 := by
  rw [sweepPairs,mem_flatMap]
  constructor
  · intro mem
    obtain ⟨part,in_part,inside⟩ := mem
    obtain ⟨key,rfl,_⟩ := Grouping.mem_values.mp in_part
    rw [bucket_eq] at inside
    obtain ⟨in_a,in_b,older⟩ := (mem_orderedPairs (orderedPart_pairwise (unique.bucketOf key))).mp inside
    obtain ⟨in_a,key_a⟩ := (mem_bucketOf).mp (mem_sort.mp in_a)
    obtain ⟨in_b,key_b⟩ := (mem_bucketOf).mp (mem_sort.mp in_b)
    exact ⟨in_a,in_b,key_a.trans key_b.symm,older⟩
  · intro mem
    obtain ⟨in_a,in_b,same,older⟩ := mem
    have inside : a ∈ bucketOf records (partitionKey a) := (mem_bucketOf).mpr ⟨in_a,rfl⟩
    have inside' : b ∈ bucketOf records (partitionKey a) := (mem_bucketOf).mpr ⟨in_b,same.symm⟩
    refine ⟨bucketOf records (partitionKey a),Grouping.mem_values.mpr
      ⟨partitionKey a,(bucket_eq records _).symm,ne_nil_of_mem inside⟩,?_⟩
    apply (mem_orderedPairs (orderedPart_pairwise (unique.bucketOf _))).mpr
    exact ⟨mem_sort.mpr inside,mem_sort.mpr inside',older⟩

theorem nodup_sweepPairs (unique : UniqueIds records) : (sweepPairs records).Nodup := by
  rw [sweepPairs,nodup_flatMap]
  constructor
  · intro part in_part
    obtain ⟨key,rfl,_⟩ := Grouping.mem_values.mp in_part
    rw [bucket_eq]
    exact nodup_orderedPairs ((perm_sort _ _).nodup_iff.mpr (unique.bucketOf key).nodup)
  · have distinct := pairwise_map.mp (partitions records).distinct
    apply pairwise_map.mpr
    apply distinct.imp_of_mem
    intro first second in_first in_second apart pair here there
    obtain ⟨key,part⟩ := first
    obtain ⟨key',part'⟩ := second
    obtain ⟨rfl,_⟩ := Grouping.mem_group.mp in_first
    obtain ⟨rfl,_⟩ := Grouping.mem_group.mp in_second
    have in_key := mem_sort.mp (fst_mem_of_mem_orderedPairs here)
    have in_key' := mem_sort.mp (fst_mem_of_mem_orderedPairs there)
    rw [bucket_eq,mem_bucketOf] at in_key in_key'
    exact apart (in_key.2.symm.trans in_key'.2)

end Sweep

section Counting
variable {tabs : Tables} {rows : List MemoryRecord} {a b : MemoryRecord}

def names (a b : MemoryRecord) (ids : List Units) : Bool :=
  decide (a.id ∈ ids) && decide (b.id ∈ ids)

theorem pairKey_comm (idA idB : Units) : pairKey idA idB = pairKey idB idA := by
  have swapped := lawful_cmpString.swap idA idB
  unfold pairKey
  by_cases same : cmpString idA idB = 0
  · rw [cmpString_eq_zero.mp same]
  · by_cases less : cmpString idA idB < 0
    · rw [if_pos less,if_neg (by omega)]
    · rw [if_neg less,if_pos (by omega)]

theorem mem_pairKeys {ids : List Units} {first second : Units} (in_first : first ∈ ids)
    (in_second : second ∈ ids) (differ : first ≠ second) :
    pairKey first second ∈ pairKeys ids := by
  induction ids with
  | nil => cases in_first
  | cons id ids ih =>
    rw [pairKeys]
    rcases mem_cons.mp in_first with rfl | inside_first
    · rcases mem_cons.mp in_second with rfl | inside_second
      · exact absurd rfl differ
      · exact mem_append_left _ (mem_map_of_mem inside_second)
    · rcases mem_cons.mp in_second with rfl | inside_second
      · rw [pairKey_comm]
        exact mem_append_left _ (mem_map_of_mem inside_first)
      · exact mem_append_right _ (ih inside_first inside_second)

theorem pairKey_mem_buildExcludeSet {clusters : List DuplicateCluster} {cluster : DuplicateCluster}
    (mem : cluster ∈ clusters) (in_a : a ∈ cluster.members) (in_b : b ∈ cluster.members)
    (differ : a.id ≠ b.id) : pairKey a.id b.id ∈ buildExcludeSet clusters :=
  mem_flatMap.mpr ⟨cluster,mem,mem_pairKeys (mem_map_of_mem in_a) (mem_map_of_mem in_b) differ⟩

/-- A pair of records has as many items of the sweep as the sweep makes of the pair: one or none. -/
theorem countP_sweep (unique : UniqueIds rows) (in_a : a ∈ rows) (in_b : b ∈ rows)
    (same : partitionKey a = partitionKey b) (older : compareRecordsByAge a b < 0)
    (clusters : List DuplicateCluster) :
    (((sweepPairs rows).filter (isSwept tabs clusters)).map pairIds).countP (names a b) =
      if isSwept tabs clusters (a,b) then 1 else 0 := by
  -- Of the pairs of the sweep, only this one has these two ids.
  have only : ∀ pair ∈ sweepPairs rows, names a b (pairIds pair) = true ↔ pair = (a,b) := by
    intro pair mem
    obtain ⟨c,d⟩ := pair
    obtain ⟨in_c,in_d,_,older'⟩ := (mem_sweepPairs unique).mp mem
    simp only [names,pairIds,mem_cons,not_mem_nil,or_false,Bool.and_eq_true,decide_eq_true_eq,Prod.mk.injEq]
    constructor
    · intro both
      rcases both with ⟨same_a | same_a,same_b | same_b⟩
      · rw [unique.eq_of_id in_a in_c same_a,unique.eq_of_id in_b in_c same_b,lawful_compareRecordsByAge.self] at older
        omega
      · exact ⟨(unique.eq_of_id in_a in_c same_a).symm,(unique.eq_of_id in_b in_d same_b).symm⟩
      · rw [unique.eq_of_id in_a in_d same_a,unique.eq_of_id in_b in_c same_b,lawful_compareRecordsByAge.swap] at older
        omega
      · rw [unique.eq_of_id in_a in_d same_a,unique.eq_of_id in_b in_d same_b,lawful_compareRecordsByAge.self] at older
        omega
    · intro both
      rw [both.1,both.2]
      exact ⟨.inl rfl,.inr rfl⟩
  have listed := (mem_sweepPairs unique).mpr ⟨in_a,in_b,same,older⟩
  rw [countP_map]
  split
  next swept =>
    apply Distinct.countP_eq_one ((nodup_sweepPairs unique).filter _) (mem_filter.mpr ⟨listed,swept⟩)
    intro pair mem
    exact only pair (mem_filter.mp mem).1
  next unswept =>
    apply countP_eq_zero.mpr
    intro pair mem named
    obtain ⟨inside,swept⟩ := mem_filter.mp mem
    exact unswept ((only pair inside).mp named ▸ swept)

end Counting

end Keiko.Consolidation
