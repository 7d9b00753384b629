import Keiko.ConsolidationReport

/-! Conflicts that a run reports once. The sweep leaves out the pairs of all clusters, also of those
behind the limit, which get no item; a conflict is reported once unless its two records are left out
with a cluster that nobody inspects, and no result relates records of different scopes or types. -/
namespace Keiko.Consolidation
open Keiko.Library Keiko.MemorySimilarity Keiko.DuplicateClusters Keiko.MemoryConflicts List Option Comparator
open Keiko.ConsolidationSummary

section Rule
variable (tables : Tables)

/-- The rule of the sweep: a replaced value, or opposite polarity with enough overlap. -/
def Conflicting (older newer : MemoryRecord) : Prop :=
  (findValueReplacementEvidence tables older newer).isSome = true ∨ isPolarityConflict tables older newer = true ∧
      ¬(jaccardSimilarityPrepared (prepareBody tables older.body)
        (prepareBody tables newer.body)).Less conflictOverlapThreshold

variable {tables} {older newer : MemoryRecord}

theorem kind_findValueReplacementEvidence {evidence : ConsolidationEvidence}
    (hit : findValueReplacementEvidence tables older newer = some evidence) :
    evidence.kind = .valueReplacement := by
  rw [findValueReplacementEvidence] at hit
  obtain ⟨oldFact,_,inner⟩ := exists_of_findSome?_eq_some hit
  obtain ⟨newFact,_,hit⟩ := exists_of_findSome?_eq_some inner
  split at hit
  · cases hit
  split at hit
  · cases hit
  · rw [← some.inj hit]

theorem hasValueReplacement_conflictEvidenceForPair : hasValueReplacement (conflictEvidenceForPair tables older newer) =
      (findValueReplacementEvidence tables older newer).isSome := by
  have polarity : hasValueReplacement (if isPolarityConflict tables older newer then
      [polarityEvidence older newer] else []) = false := by
    split <;> rfl
  rw [hasValueReplacement] at polarity ⊢
  rw [conflictEvidenceForPair,any_append,polarity,Bool.false_or]
  cases found : findValueReplacementEvidence tables older newer with
  | none => rfl
  | some evidence =>
    simp [kind_findValueReplacementEvidence found]

theorem conflictEvidenceForPair_eq_nil : conflictEvidenceForPair tables older newer = [] ↔
    isPolarityConflict tables older newer = false ∧ findValueReplacementEvidence tables older newer = none := by
  rw [conflictEvidenceForPair,append_eq_nil_iff,toList_eq_nil_iff]
  cases isPolarityConflict tables older newer <;> simp

theorem Conflicting.evidence (conflicting : Conflicting tables older newer) :
    conflictEvidenceForPair tables older newer ≠ [] := by
  intro empty
  obtain ⟨agreeing,none_replaced⟩ := (conflictEvidenceForPair_eq_nil).mp empty
  rcases conflicting with replaced | ⟨opposite,_⟩
  · rw [none_replaced] at replaced
    cases replaced
  · rw [agreeing] at opposite
    cases opposite

theorem isSwept_iff {clusters : List DuplicateCluster} : isSwept tables clusters (older,newer) = true ↔
      pairKey older.id newer.id ∉ buildExcludeSet clusters ∧ Conflicting tables older newer := by
  rw [isSwept,sweepEvidence]
  by_cases excluded : pairKey older.id newer.id ∈ buildExcludeSet clusters
  · simp [excluded]
  · rw [if_neg excluded]
    by_cases empty : conflictEvidenceForPair tables older newer = []
    · simp only [empty,if_true,isSome_none,Bool.false_eq_true,false_iff]
      exact fun both => both.2.evidence empty
    · simp only [empty,if_false,hasValueReplacement_conflictEvidenceForPair,Conflicting]
      rw [conflictEvidenceForPair_eq_nil] at empty
      cases replaced : findValueReplacementEvidence tables older newer with
      | some evidence => simp [excluded]
      | none =>
        have opposite : isPolarityConflict tables older newer = true := by
          simpa [replaced] using empty
        simp only [isSome_none,Bool.not_false,Bool.true_and,opposite,excluded,
          Bool.false_eq_true,false_or,true_and,not_false_eq_true]
        split
        next less => simpa using less
        next enough => simpa using enough

end Rule

section Clusters
variable {tabs : Tables} {jaccardThreshold : Number} {opts : DuplicateClusterScanOptions}
variable {rows : List MemoryRecord} {clusters : List DuplicateCluster} {a b : MemoryRecord}
  {cluster : DuplicateCluster}

theorem names_clusterIds (unique : UniqueIds rows)
    (mem : cluster ∈ scanDuplicateClusters tabs jaccardThreshold opts rows)
    (in_a : a ∈ rows) (in_b : b ∈ rows) :
    names a b (clusterIds cluster) = true ↔ a ∈ cluster.members ∧ b ∈ cluster.members := by
  have held : ∀ c ∈ rows, c.id ∈ clusterIds cluster ↔ c ∈ cluster.members := by
    intro c in_c
    rw [mem_clusterIds]
    constructor
    · intro inside
      obtain ⟨d,in_d,same⟩ := mem_map.mp inside
      rwa [← unique.eq_of_id (mem_records_of_mem_members unique mem in_d) in_c same]
    · exact mem_map_of_mem
  rw [names,Bool.and_eq_true,decide_eq_true_eq,decide_eq_true_eq,held a in_a,held b in_b]

theorem aged_members (unique : UniqueIds rows)
    (mem : cluster ∈ scanDuplicateClusters tabs jaccardThreshold opts rows) :
    cluster.members.Pairwise fun a b => compareRecordsByAge a b < 0 := by
  obtain ⟨key,root,cluster_of⟩ := (mem_scanDuplicateClusters unique).mp mem
  rw [cluster_of.members]
  exact component_pairwise tabs jaccardThreshold opts (unique.bucketOf key) root

theorem hasItem_of_conflicting (unique : UniqueIds rows)
    (mem : cluster ∈ scanDuplicateClusters tabs jaccardThreshold opts rows)
    (in_a : a ∈ cluster.members) (in_b : b ∈ cluster.members) (older : compareRecordsByAge a b < 0)
    (conflicting : Conflicting tabs a b) : hasItem tabs cluster = true := by
  have aged := aged_members unique mem
  have sorted := sort_of_pairwise (aged.imp fun less => less.le)
  have differ : a ≠ b := by
    intro same
    rw [same,lawful_compareRecordsByAge.self] at older
    omega
  have several := two_le_length in_a in_b differ
  rw [hasItem]
  by_cases many : 2 < cluster.members.length
  · rw [decide_eq_true many,Bool.true_or]
  · have two : cluster.members.length = 2 := by omega
    have conflict : clusterConflicts tabs cluster = true := by
      rw [clusterConflicts,sorted]
      obtain ⟨first,second,pair⟩ := length_eq_two.mp two
      rw [pair] at aged in_a in_b ⊢
      have pre : compareRecordsByAge first second < 0 := by simpa using aged
      simp only [mem_cons,not_mem_nil,or_false] at in_a in_b
      have ordered : a = first ∧ b = second := by
        rcases in_a with rfl | rfl
        · rcases in_b with rfl | rfl
          · exact absurd rfl differ
          · exact ⟨rfl,rfl⟩
        · rcases in_b with rfl | rfl
          · rw [lawful_compareRecordsByAge.swap] at older
            omega
          · exact absurd rfl differ
      obtain ⟨rfl,rfl⟩ := ordered
      exact decide_eq_true conflicting.evidence
    rw [decide_eq_true two,conflict,Bool.true_or,Bool.true_and,Bool.or_true]

theorem nodup_scanDuplicateClusters (unique : UniqueIds rows) :
    (scanDuplicateClusters tabs jaccardThreshold opts rows).Nodup := by
  apply (scanDuplicateClusters_disjoint unique).imp_of_mem
  intro cluster other mem _ disjoint same
  obtain ⟨canonical,inside,_⟩ := canonical_mem unique mem
  exact disjoint inside (same ▸ inside)

/-- Two records in conflict have one item among those of the clusters if one of these holds both of
them, and none otherwise. -/
theorem countP_clusters (unique : UniqueIds rows) (in_a : a ∈ rows) (in_b : b ∈ rows)
    (older : compareRecordsByAge a b < 0) (conflicting : Conflicting tabs a b)
    (inspected : clusters.Sublist (scanDuplicateClusters tabs jaccardThreshold opts rows)) :
    ((clusters.filter (hasItem tabs)).map clusterIds).countP (names a b) =
      if ∃ cluster ∈ clusters, a ∈ cluster.members ∧ b ∈ cluster.members then 1 else 0 := by
  rw [countP_map]
  split
  next held =>
    obtain ⟨cluster,mem,in_a',in_b'⟩ := held
    have listed : cluster ∈ clusters.filter (hasItem tabs) := mem_filter.mpr ⟨mem,
      hasItem_of_conflicting unique (inspected.subset mem) in_a' in_b' older conflicting⟩
    apply Distinct.countP_eq_one ((nodup_scanDuplicateClusters unique).sublist (filter_sublist.trans inspected)) listed
    intro other listed'
    have scanned := inspected.subset (mem_filter.mp listed').1
    rw [Function.comp_apply,names_clusterIds unique scanned in_a in_b]
    constructor
    · intro both
      exact eq_of_mem_members unique scanned (inspected.subset mem) both.1 in_a'
    · intro same
      rw [same]
      exact ⟨in_a',in_b'⟩
  next apart =>
    apply countP_eq_zero.mpr
    intro cluster listed named
    have mem := (mem_filter.mp listed).1
    exact apart ⟨cluster,mem,(names_clusterIds unique (inspected.subset mem) in_a in_b).mp named⟩

end Clusters

section Kinds
variable {tabs : Tables} {jaccardThreshold : Number} {opts : DuplicateClusterScanOptions}
variable {records : List MemoryRecord} {ids part : List Units} {evidence : ConsolidationEvidence}
  {cluster : DuplicateCluster}

def OneKind (records : List MemoryRecord) (ids : List Units) : Prop :=
  ∃ scope type, ∀ id ∈ ids, ∃ record ∈ records, record.id = id ∧ record.scope = scope ∧ record.type = type

theorem OneKind.subset (one : OneKind records ids) (within : ∀ id ∈ part, id ∈ ids) : OneKind records part := by
  obtain ⟨scope,type,each⟩ := one
  exact ⟨scope,type,fun id mem => each id (within id mem)⟩

theorem oneKind_of_partitionKey (members : List MemoryRecord) (key : Units)
    (kept : ∀ r ∈ members, r ∈ records ∧ partitionKey r = key) :
    OneKind records (members.map MemoryRecord.id) := by
  cases members with
  | nil => exact ⟨.global,.decision,fun id absurd => by cases absurd⟩
  | cons first members =>
    refine ⟨first.scope,first.type,?_⟩
    intro id mem
    obtain ⟨r,inside,rfl⟩ := mem_map.mp mem
    obtain ⟨listed,same⟩ := kept r inside
    obtain ⟨scopes,types⟩ := (partitionKey_eq).mp (same.trans (kept first mem_cons_self).2.symm)
    exact ⟨r,listed,rfl,scopes,types⟩

theorem memoryIds_matchRecords {a b : MemoryRecord}
    (matched : matchRecords tabs jaccardThreshold opts a b = some evidence) :
    evidence.memoryIds = [a.id,b.id] := by
  unfold matchRecords matchPair at matched
  split at matched
  · rw [← some.inj matched,lexicalEvidence]
  dsimp only at matched
  split at matched
  · rw [← some.inj matched,lexicalEvidence]
  · simp only [matchSemantic,bind_eq_bind,bind_eq_some_iff] at matched
    obtain ⟨threshold,_,embeddingA,_,embeddingB,_,compared⟩ := matched
    split at compared
    · obtain ⟨score,_,compared⟩ := bind_eq_some_iff.mp compared
      split at compared
      · rw [← some.inj compared,semanticEvidence]
      · cases compared
    · cases compared

theorem mem_clusterIds_of_evidence (unique : UniqueIds records)
    (mem : cluster ∈ scanDuplicateClusters tabs jaccardThreshold opts records) (listed : evidence ∈ cluster.evidence) {id : Units}
    (named : id ∈ evidence.memoryIds) : id ∈ clusterIds cluster := by
  obtain ⟨key,root,cluster_of⟩ := (mem_scanDuplicateClusters unique).mp mem
  rw [cluster_of.evidence] at listed
  obtain ⟨a,in_a,b,in_b,_,matched⟩ :=
    (mem_componentEvidence (unique.bucketOf key) (alike_bucketOf records key)).mp listed
  rw [← cluster_of.members] at in_a in_b
  rw [memoryIds_matchRecords matched] at named
  simp only [mem_cons,not_mem_nil,or_false] at named
  rw [mem_clusterIds]
  rcases named with rfl | rfl
  · exact mem_map_of_mem in_a
  · exact mem_map_of_mem in_b

theorem oneKind_cluster (unique : UniqueIds records)
    (mem : cluster ∈ scanDuplicateClusters tabs jaccardThreshold opts records) :
    OneKind records (clusterIds cluster) := by
  obtain ⟨key,root,cluster_of⟩ := (mem_scanDuplicateClusters unique).mp mem
  apply oneKind_of_partitionKey _ key
  intro r inside
  exact cluster_of.mem_bucketOf (mem_sort.mp inside)

theorem oneKind_pair (unique : UniqueIds records) {pair : MemoryRecord × MemoryRecord}
    (mem : pair ∈ sweepPairs records) : OneKind records (pairIds pair) := by
  obtain ⟨a,b⟩ := pair
  obtain ⟨in_a,in_b,same,_⟩ := (mem_sweepPairs unique).mp mem
  apply oneKind_of_partitionKey [a,b] (partitionKey a)
  intro r inside
  simp only [mem_cons,not_mem_nil,or_false] at inside
  rcases inside with rfl | rfl
  · exact ⟨in_a,rfl⟩
  · exact ⟨in_b,same.symm⟩

end Kinds

section Items
variable {tabs : Tables} {resolved : ResolvedOptions} {rows : List MemoryRecord} {item : ReviewItem}
  {supply : Supply}

theorem mem_reviewAll {xs : List ReviewItem} (mem : item ∈ (reviewAll resolved xs supply).1) :
    ∃ original ∈ xs, ∃ supply, item = (withProposedReviewEdges resolved original supply).1 := by
  induction xs generalizing supply with
  | nil => cases mem
  | cons first xs ih =>
    rw [reviewAll] at mem
    rcases mem_cons.mp mem with rfl | inside
    · exact ⟨first,mem_cons_self,supply,rfl⟩
    · obtain ⟨original,among,same⟩ := ih inside
      exact ⟨original,mem_cons_of_mem _ among,same⟩

theorem mem_foldl_sweepPair {options : ConflictsOptions} {excluded : List Units} {threshold : Number}
    {pairs : List (MemoryRecord × MemoryRecord)} {s : List ReviewItem × Supply}
    (mem : item ∈ (pairs.foldl (sweepPair tabs options excluded threshold) s).1) :
    item ∈ s.1 ∨ item.proposedEdges = [] ∧ ∃ pair ∈ pairs, ∀ id ∈ itemIds item, id ∈ pairIds pair := by
  induction pairs generalizing s with
  | nil => exact .inl mem
  | cons pair pairs ih =>
    rcases ih mem with pre | ⟨plain,other,among,named⟩
    · rw [sweepPair] at pre
      cases found : sweepEvidence tabs excluded threshold pair.1 pair.2 with
      | none =>
        rw [found] at pre
        exact .inl pre
      | some evidence =>
        rw [found] at pre
        rcases mem_append.mp pre with early | here
        · exact .inl early
        · rw [mem_singleton] at here
          subst here
          refine .inr ⟨rfl,pair,mem_cons_self,?_⟩
          intro id named
          rw [sweepEvidence] at found
          split at found
          · cases found
          dsimp only at found
          split at found
          · cases found
          split at found
          · cases found
          obtain rfl := some.inj found
          exact itemIds_buildPairConflictItem named
    · exact .inr ⟨plain,other,mem_cons_of_mem _ among,named⟩

theorem itemIds_collectConflictPairs {clusters : List DuplicateCluster}
    (mem : item ∈ (collectConflictPairs tabs resolved rows clusters supply).1) :
    ∃ pair ∈ sweepPairs rows, ∀ id ∈ itemIds item, id ∈ pairIds pair := by
  obtain ⟨original,hit,post,rfl⟩ := mem_reviewAll mem
  rw [findConflictPairs,partitionForConflicts,foldl_scanPartitionPairs,mem_sort] at hit
  rcases mem_foldl_sweepPair hit with absurd | ⟨plain,pair,among,named⟩
  · cases absurd
  · refine ⟨pair,among,?_⟩
    intro id inside
    exact named id (itemIds_withProposedReviewEdges plain inside)

end Items

section Ready
variable {tables : Tables} {resolved : ResolvedOptions} {bounded : Bounded}
variable {result : ConsolidationResult}

/-- A result whose edges, items and updates each keep to the records of one scope and type. An update
relates the record that it patches to the cluster that it summarises. -/
structure RelatesOneKind (tables : Tables) (records : List MemoryRecord)
    (result : ConsolidationResult) : Prop where
  edges : ∀ edge ∈ result.edgesProposed, OneKind records [edge.fromMemoryId,edge.toMemoryId]
  items : ∀ item ∈ result.reviewItems, OneKind records (itemIds item)
  updates : ∀ update ∈ result.updatesProposed, ∃ options cluster summary,
    buildSummaryUpdate tables options cluster = .ok summary ∧ summary.update = some update ∧
      OneKind records (update.memoryId :: sourceIdsForCluster cluster)

def ReportedOnce (items : List ReviewItem) (a b : MemoryRecord) : Prop :=
  (items.map ReviewItem.relatedMemoryIds).countP (names a b) = 1

theorem memoryId_buildSummaryUpdate {options : SummaryOptions} {cluster : DuplicateCluster}
    {summary : SummaryUpdate} {update : MemoryUpdate}
    (built : buildSummaryUpdate tables options cluster = .ok summary)
    (given : summary.update = some update) : update.memoryId ∈ clusterIds cluster := by
  unfold buildSummaryUpdate mergeActionForCluster at built
  dsimp only at built
  split at built
  · obtain rfl := Except.ok.inj built
    cases given
  next winner losers action =>
    split at action
    · cases action
    next last =>
      split at action
      · cases action
      · obtain ⟨rfl,_⟩ := Prod.mk.inj (some.inj action)
        split at built
        · obtain rfl := Except.ok.inj built
          cases given
        · obtain ⟨note,_,made⟩ := bind_eq_ok.mp built
          obtain rfl := Except.ok.inj made
          obtain rfl := some.inj given
          exact mem_map_of_mem (mem_of_getLast? last)

theorem runReady_spec (ran : runReady tables resolved bounded = .ok result) :
    ∃ all supply, List.Forall₂ (Processed tables resolved)
        (inspectedClusters resolved (clustersOf tables resolved bounded.records)) all ∧
      result.edgesProposed.Perm (all.flatMap ClusterEffects.edges) ∧
      result.updatesProposed.Perm (all.flatMap ClusterEffects.updates) ∧
      result.reviewItems.Perm (all.flatMap (fun effects => effects.reviewItem.toList) ++
        (collectConflictPairs tables resolved bounded.records
          (clustersOf tables resolved bounded.records) supply).1) := by
  rw [runReady] at ran
  obtain ⟨⟨consumed,supply⟩,looped,ran⟩ := bind_eq_ok.mp ran
  obtain rfl := Except.ok.inj ran
  obtain ⟨all,each,rfl⟩ := consumeFrom_spec looped
  obtain ⟨xs,edges,updates⟩ := foldl_add all ⟨[],[],[],0,0,0⟩
  rw [nil_append] at xs edges updates
  refine ⟨all,supply,each,?_,?_,?_⟩
  · exact (perm_sort _ _).trans (by rw [edges])
  · exact (perm_sort _ _).trans (by rw [updates])
  · exact (perm_sort _ _).trans (by rw [xs])

theorem processed_of_mem {clusters : List DuplicateCluster} {all : List ClusterEffects}
    (each : List.Forall₂ (Processed tables resolved) clusters all) {effects : ClusterEffects}
    (mem : effects ∈ all) : ∃ cluster ∈ clusters, Processed tables resolved cluster effects := by
  induction each with
  | nil => cases mem
  | cons processed _ ih =>
    rcases mem_cons.mp mem with rfl | inside
    · exact ⟨_,mem_cons_self,processed⟩
    · obtain ⟨cluster,among,spec⟩ := ih inside
      exact ⟨cluster,mem_cons_of_mem _ among,spec⟩

theorem relatesOneKind_of_ready (unique : UniqueIds bounded.records)
    (ran : runReady tables resolved bounded = .ok result) :
    RelatesOneKind tables bounded.records result := by
  obtain ⟨all,supply,each,edges,updates,items⟩ := runReady_spec ran
  have kinds : ∀ effects ∈ all, ∃ cluster, Processed tables resolved cluster effects ∧
      cluster ∈ clustersOf tables resolved bounded.records ∧
      OneKind bounded.records (clusterIds cluster) := by
    intro effects mem
    obtain ⟨cluster,among,processed⟩ := processed_of_mem each mem
    have scanned := mem_of_mem_take among
    exact ⟨cluster,processed,scanned,oneKind_cluster unique scanned⟩
  constructor
  case edges =>
    intro edge mem
    obtain ⟨effects,inside,drawn⟩ := mem_flatMap.mp (edges.mem_iff.mp mem)
    obtain ⟨cluster,processed,_,one⟩ := kinds effects inside
    obtain ⟨from_in,to_in⟩ := processed.edges edge drawn
    apply one.subset
    intro id named
    simp only [mem_cons,not_mem_nil,or_false] at named
    rcases named with rfl | rfl
    · exact from_in
    · exact to_in
  case updates =>
    intro update mem
    obtain ⟨effects,inside,proposed⟩ := mem_flatMap.mp (updates.mem_iff.mp mem)
    obtain ⟨cluster,processed,_,one⟩ := kinds effects inside
    obtain ⟨summary,built,given⟩ := processed.updates update proposed
    refine ⟨resolved.summary,cluster,summary,built,given,one.subset ?_⟩
    intro id named
    rcases mem_cons.mp named with rfl | src
    · exact memoryId_buildSummaryUpdate built given
    · exact (mem_clusterIds).mpr src
  case items =>
    intro item mem
    rcases mem_append.mp (items.mem_iff.mp mem) with reviewed | swept
    · obtain ⟨effects,inside,drawn⟩ := mem_flatMap.mp reviewed
      obtain ⟨cluster,processed,scanned,one⟩ := kinds effects inside
      apply one.subset
      intro id named
      rcases processed.named item (mem_toList.mp drawn) id named with held | ⟨evidence,listed,held⟩
      · exact held
      · exact mem_clusterIds_of_evidence unique scanned listed held
    · obtain ⟨pair,among,named⟩ := itemIds_collectConflictPairs swept
      exact (oneKind_pair unique among).subset named

/-- A conflict is reported once just if its pair is not left out of the sweep or an inspected cluster
holds both records. -/
theorem reportedOnce_of_ready (unique : UniqueIds bounded.records)
    (ran : runReady tables resolved bounded = .ok result) {older newer : MemoryRecord}
    (in_older : older ∈ bounded.records) (in_newer : newer ∈ bounded.records)
    (same : partitionKey older = partitionKey newer) (pre : compareRecordsByAge older newer < 0)
    (conflicting : Conflicting tables older newer) :
    ReportedOnce result.reviewItems older newer ↔
      (pairKey older.id newer.id ∈ buildExcludeSet (clustersOf tables resolved bounded.records) →
        ∃ cluster ∈ inspectedClusters resolved (clustersOf tables resolved bounded.records),
          older ∈ cluster.members ∧ newer ∈ cluster.members) := by
  obtain ⟨all,supply,each,_,_,xs⟩ := runReady_spec ran
  have differ : older.id ≠ newer.id := by
    intro equal
    rw [unique.eq_of_id in_older in_newer equal,lawful_compareRecordsByAge.self] at pre
    omega
  have inspected : (inspectedClusters resolved (clustersOf tables resolved bounded.records)).Sublist
      (scanDuplicateClusters tables resolved.knobs.jaccardThreshold resolved.scan bounded.records) :=
    take_sublist _ _
  rw [ReportedOnce,(xs.map _).countP_eq,map_append,countP_append,
    relatedIds_of_processed each,(relatedIds_collectConflictPairs _ supply).countP_eq,
    countP_sweep unique in_older in_newer same pre,
    countP_clusters unique in_older in_newer pre conflicting inspected]
  by_cases excluded : pairKey older.id newer.id ∈ buildExcludeSet (clustersOf tables resolved bounded.records)
  · have unswept : ¬isSwept tables (clustersOf tables resolved bounded.records) (older,newer) = true :=
      fun swept => ((isSwept_iff).mp swept).1 excluded
    rw [if_neg unswept,add_zero]
    split
    next held => exact iff_of_true rfl fun _ => held
    next apart => exact iff_of_false Nat.zero_ne_one fun held => apart (held excluded)
  · have swept : isSwept tables (clustersOf tables resolved bounded.records) (older,newer) = true :=
      (isSwept_iff).mpr ⟨excluded,conflicting⟩
    have apart : ¬∃ cluster ∈ inspectedClusters resolved (clustersOf tables resolved bounded.records),
        older ∈ cluster.members ∧ newer ∈ cluster.members := by
      intro held
      obtain ⟨cluster,mem,in_cluster,in_cluster'⟩ := held
      exact excluded (pairKey_mem_buildExcludeSet (mem_of_mem_take mem) in_cluster in_cluster' differ)
    rw [if_pos swept,if_neg apart,zero_add]
    exact iff_of_true rfl fun absurd => (excluded absurd).elim

end Ready

section Returns
variable {tabs : Tables} {resolved : ResolvedOptions} {bounded : Bounded}

/-- The generator's notes are texts or absent, or at least no `null`. -/
def Readable (generator : Option (SummaryInput → GeneratorOutcome)) : Prop :=
  ∀ generate ∈ generator, ∀ input body, generate input ≠ .value (some body) .null

theorem buildSummaryUpdate_ok (tabs : Tables) {options : SummaryOptions} (readable : Readable options.summaryGenerator)
    {cluster : DuplicateCluster} (several : 2 ≤ cluster.members.length) :
    ∃ summary, buildSummaryUpdate tabs options cluster = .ok summary := by
  obtain ⟨winner,_,_,built⟩ := buildSummaryUpdate_eq tabs options cluster several
  rw [built]
  split
  · exact ⟨_,rfl⟩
  · have note_readable : (clusterChoice tabs options cluster winner).reviewerNote ≠ .null :=
      chooseSummaryBody_note fun generator given => readable generator given _
    obtain ⟨added,note⟩ := generatorNote_ok note_readable
    rw [summaryReviewerNote,note]
    exact ⟨_,rfl⟩

theorem processCluster_ok (readable : Readable resolved.summaryGenerator) (cluster : DuplicateCluster)
    (supply : Supply) : ∃ processed, processCluster tabs resolved cluster supply = .ok processed := by
  unfold processCluster
  split
  next many =>
    have readable' : Readable resolved.summary.summaryGenerator := readable
    obtain ⟨summary,built⟩ := buildSummaryUpdate_ok tabs readable' many.le
    rw [processMultiWayCluster,built]
    exact ⟨_,rfl⟩
  next =>
    split
    · exact ⟨_,rfl⟩
    · exact ⟨_,rfl⟩

theorem consumeFrom_ok (readable : Readable resolved.summaryGenerator)
    (clusters : List DuplicateCluster) (result : ConsumeResult) (supply : Supply) :
    ∃ consumed, consumeFrom tabs resolved clusters result supply = .ok consumed := by
  induction clusters generalizing result supply with
  | nil => exact ⟨_,rfl⟩
  | cons cluster clusters ih =>
    obtain ⟨processed,step⟩ := processCluster_ok readable cluster supply
    obtain ⟨consumed,rest⟩ := ih (result.add processed.1) processed.2
    exact ⟨consumed,bind_eq_ok.mpr ⟨processed,step,rest⟩⟩

theorem runReady_ok (readable : Readable resolved.summaryGenerator) :
    ∃ result, runReady tabs resolved bounded = .ok result := by
  obtain ⟨consumed,looped⟩ := consumeFrom_ok readable
    (inspectedClusters resolved (clustersOf tabs resolved bounded.records)) ⟨[],[],[],0,0,0⟩ ⟨0,0⟩
  exact ⟨_,bind_eq_ok.mpr ⟨consumed,looped,rfl⟩⟩

end Returns

section Run
variable (tables : Tables) (validateMemoryRecord : MemoryRecord → Bool)
variable (memories : List MemoryRecord) (options : ConsolidationOptions)

def inspectedRecords : List MemoryRecord :=
  match resolveOptions options with
  | none => []
  | some resolved =>
    match eligibleMemories validateMemoryRecord memories resolved with
    | none => []
    | some eligible => (boundedEligibleMemories eligible resolved).records

/-- What holds of every two records of one scope and type that meet the rule of the sweep. -/
def EachConflict (records : List MemoryRecord) (holds : MemoryRecord → MemoryRecord → Prop) : Prop :=
  ∀ older ∈ records, ∀ newer ∈ records, older.scope = newer.scope → older.type = newer.type →
    compareRecordsByAge older newer < 0 → Conflicting tables older newer → holds older newer

/-- Some cluster is to be inspected, and one that has the sweep leave out the pair is. -/
def Reached (records : List MemoryRecord) (older newer : MemoryRecord) : Prop :=
  ∀ resolved ∈ resolveOptions options, resolved.knobs.maxClustersPerRun ≠ 0 ∧
    (pairKey older.id newer.id ∈ buildExcludeSet (clustersOf tables resolved records) →
      ∃ cluster ∈ inspectedClusters resolved (clustersOf tables resolved records),
        older ∈ cluster.members ∧ newer ∈ cluster.members)

variable {memories} in
theorem uniqueIds_inspectedRecords (unique : UniqueIds memories) :
    UniqueIds (inspectedRecords validateMemoryRecord memories options) := by
  unfold inspectedRecords
  split
  · exact nodup_nil
  next resolved _ =>
    split
    · exact nodup_nil
    next eligible chosen =>
      unfold eligibleMemories at chosen
      split at chosen
      · obtain rfl := some.inj chosen
        have filtered : UniqueIds (memories.filter fun memory =>
          resolved.includeStatuses.contains memory.status) := unique.sublist filter_sublist
        have sorted := (((perm_sort compareRecordsByRecency _).map MemoryRecord.id).nodup_iff).mpr filtered
        exact UniqueIds.sublist sorted (take_sublist _ _)
      · cases chosen

theorem prepareConsolidationRun_spec : (∃ resolved bounded,
      prepareConsolidationRun validateMemoryRecord memories options = .ready resolved bounded ∧
      resolveOptions options = some resolved ∧ resolved.knobs.maxClustersPerRun ≠ 0 ∧
      inspectedRecords validateMemoryRecord memories options = bounded.records) ∨
    ∃ result, prepareConsolidationRun validateMemoryRecord memories options = .result result ∧
      result.edgesProposed = [] ∧ result.updatesProposed = [] ∧ result.reviewItems = [] ∧
      result.recordsInspected = (inspectedRecords validateMemoryRecord memories options).length ∧
      (inspectedRecords validateMemoryRecord memories options ≠ [] →
        ∃ resolved ∈ resolveOptions options, resolved.knobs.maxClustersPerRun = 0) := by
  unfold prepareConsolidationRun inspectedRecords
  cases chosen : resolveOptions options with
  | none => exact .inr ⟨_,rfl,rfl,rfl,rfl,rfl,fun absurd => (absurd rfl).elim⟩
  | some resolved =>
    dsimp only
    cases valid : eligibleMemories validateMemoryRecord memories resolved with
    | none => exact .inr ⟨_,rfl,rfl,rfl,rfl,rfl,fun absurd => (absurd rfl).elim⟩
    | some eligible =>
      dsimp only
      by_cases empty : eligible = []
      · rw [if_pos empty,empty]
        have none_bounded : (boundedEligibleMemories [] resolved).records = [] := take_nil
        rw [none_bounded]
        exact .inr ⟨_,rfl,rfl,rfl,rfl,rfl,fun absurd => (absurd rfl).elim⟩
      · rw [if_neg empty]
        split
        next skipped =>
          refine .inr ⟨_,rfl,rfl,rfl,rfl,rfl,?_⟩
          intro full
          exact ⟨resolved,rfl,skipped.resolve_left full⟩
        next ready => exact .inl ⟨resolved,_,rfl,rfl,fun zero => ready (.inr zero),rfl⟩

variable {memories} in
/-- A run reports each conflict once just if it reaches each of them, and whatever it reports is about
records of one scope and type; it returns unless a note of the generator is `null`. -/
theorem runConsolidation_reports (unique : UniqueIds memories) :
    (∀ result, runConsolidation tables validateMemoryRecord memories options = .ok result →
      (EachConflict tables (inspectedRecords validateMemoryRecord memories options)
          (ReportedOnce result.reviewItems) ∧
        RelatesOneKind tables (inspectedRecords validateMemoryRecord memories options) result ↔
        EachConflict tables (inspectedRecords validateMemoryRecord memories options)
          (Reached tables options (inspectedRecords validateMemoryRecord memories options)))) ∧
    (Readable options.summaryGenerator →
      ∃ result, runConsolidation tables validateMemoryRecord memories options = .ok result) := by
  have inspected := uniqueIds_inspectedRecords validateMemoryRecord options unique
  unfold runConsolidation
  rcases prepareConsolidationRun_spec validateMemoryRecord memories options with ready | early
  · obtain ⟨resolved,bounded,prepared,chosen,several,records⟩ := ready
    rw [prepared]
    dsimp only
    rw [records] at inspected ⊢
    constructor
    · intro result ran
      have one_kind := relatesOneKind_of_ready inspected ran
      constructor
      · intro both older in_older newer in_newer scopes types before conflicting resolved' given
        obtain rfl := some.inj (chosen.symm.trans given)
        exact ⟨several,(reportedOnce_of_ready inspected ran in_older in_newer
          ((partitionKey_eq).mpr ⟨scopes,types⟩) before conflicting).mp
          (both.1 older in_older newer in_newer scopes types before conflicting)⟩
      · intro reached
        refine ⟨?_,one_kind⟩
        intro older in_older newer in_newer scopes types before conflicting
        exact (reportedOnce_of_ready inspected ran in_older in_newer
          ((partitionKey_eq).mpr ⟨scopes,types⟩) before conflicting).mpr
          (reached older in_older newer in_newer scopes types before conflicting resolved chosen).2
    · intro readable
      unfold resolveOptions at chosen
      dsimp only at chosen
      split at chosen
      · cases chosen
      · obtain rfl := some.inj chosen
        exact runReady_ok readable
  · obtain ⟨result',prepared,edges,updates,items,_,cause⟩ := early
    rw [prepared]
    constructor
    · intro result ran
      obtain rfl := Except.ok.inj ran
      have silent : ∀ older newer, ¬ReportedOnce result'.reviewItems older newer := by
        intro older newer
        rw [ReportedOnce,items]
        exact Nat.zero_ne_one
      constructor
      · intro both older in_older newer in_newer scopes types before conflicting
        exact absurd (both.1 older in_older newer in_newer scopes types before conflicting)
          (silent older newer)
      · intro reached
        constructor
        · intro older in_older newer in_newer scopes types before conflicting
          obtain ⟨resolved,chosen,zero⟩ := cause (ne_nil_of_mem in_older)
          exact absurd zero
            (reached older in_older newer in_newer scopes types before conflicting resolved chosen).1
        · constructor
          · rw [edges]
            intro edge absurd
            cases absurd
          · rw [items]
            intro item absurd
            cases absurd
          · rw [updates]
            intro update absurd
            cases absurd
    · intro _
      exact ⟨result',rfl⟩

end Run

section Sample

def crowdedRecords : List MemoryRecord := [
  ⟨units "a1",.user (units "u"),.preference,units "use tabs",.accepted,10⟩,
  ⟨units "a2",.user (units "u"),.preference,units "use tabs",.accepted,20⟩,
  ⟨units "b1",.user (units "v"),.preference,
    units "Never use tabs in any of the source files of this project.",.accepted,10⟩,
  ⟨units "b2",.user (units "v"),.preference,
    units "Use tabs in any of the source files of this project.",.accepted,20⟩]

def crowdedOptions : ConsolidationOptions where
  nowMs := 0
  newEdgeId n := List.replicate n (unit 'e')
  newReviewItemId n := List.replicate n (unit 'i')
  reviewerId := none
  jaccardThreshold := none
  semanticSimilarityThreshold := none
  staleConfidenceThreshold := none
  maxAgeMs := none
  maxClustersPerRun := some 1
  maxRecordsPerRun := none
  includeStatuses := none
  embeddingFor := none
  summaryGenerator := none

theorem runConsolidation_reports_crowded :
    (∀ result, runConsolidation asciiTables (fun _ => true) crowdedRecords crowdedOptions = .ok result →
      (EachConflict asciiTables (inspectedRecords (fun _ => true) crowdedRecords crowdedOptions)
          (ReportedOnce result.reviewItems) ∧
        RelatesOneKind asciiTables (inspectedRecords (fun _ => true) crowdedRecords crowdedOptions)
          result ↔
        EachConflict asciiTables (inspectedRecords (fun _ => true) crowdedRecords crowdedOptions)
          (Reached asciiTables crowdedOptions
            (inspectedRecords (fun _ => true) crowdedRecords crowdedOptions)))) ∧
    ∃ result,
      runConsolidation asciiTables (fun _ => true) crowdedRecords crowdedOptions = .ok result := by
  obtain ⟨reports,returns⟩ :=
    runConsolidation_reports asciiTables (fun _ => true) crowdedOptions
      (show UniqueIds crowdedRecords by decide)
  exact ⟨reports,returns fun generate given => by cases given⟩

instance (older newer : MemoryRecord) : Decidable (Conflicting asciiTables older newer) :=
  inferInstanceAs (Decidable (_ ∨ _ ∧ ¬_))

/-- The conflict of the second cluster is in no item: the cluster is behind the limit, and the sweep
leaves out its pair all the same. -/
theorem runConsolidation_silent :
    ¬∀ result, runConsolidation asciiTables (fun _ => true) crowdedRecords crowdedOptions =
        .ok result →
      EachConflict asciiTables (inspectedRecords (fun _ => true) crowdedRecords crowdedOptions)
        (ReportedOnce result.reviewItems) := by
  intro reports
  have silent : (runConsolidation asciiTables (fun _ => true) crowdedRecords
      crowdedOptions).toOption.map (fun result => result.reviewItems.map ReviewItem.relatedMemoryIds) =
        some [] := by decide +kernel
  obtain ⟨result,ran,items⟩ := map_eq_some_iff.mp silent
  have ran' : runConsolidation asciiTables (fun _ => true) crowdedRecords crowdedOptions =
      .ok result := by
    revert ran
    cases runConsolidation asciiTables (fun _ => true) crowdedRecords crowdedOptions with
    | error _ => intro absurd; cases absurd
    | ok other => exact fun same => congrArg _ (some.inj same)
  have once := reports result ran' crowdedRecords[2] (by decide +kernel) crowdedRecords[3]
    (by decide +kernel) rfl rfl (by decide +kernel) (by decide +kernel)
  rw [ReportedOnce,items] at once
  exact Nat.zero_ne_one once

end Sample

end Keiko.Consolidation
