import Keiko.ConsolidationSummary
import Keiko.MemoryConflicts

/-! A consolidation run that nobody cancels: the newest eligible records are scanned for duplicate
clusters, the first clusters are processed one by one, and a sweep over all pairs looks for further
conflicts. The validator of the records is a parameter; stale flags are left out. -/
namespace Keiko.Consolidation
open Keiko.Library Keiko.MemorySimilarity Keiko.DuplicateClusters Keiko.MemoryConflicts
open Keiko.ConsolidationSummary

section Options

structure ConsolidationOptions where
  nowMs : Number
  newEdgeId : ℕ → Units
  newReviewItemId : ℕ → Units
  reviewerId : Option Units
  jaccardThreshold : Option Number
  semanticSimilarityThreshold : Option Number
  staleConfidenceThreshold : Option Number
  maxAgeMs : Option Number
  maxClustersPerRun : Option Number
  maxRecordsPerRun : Option Number
  includeStatuses : Option (List MemoryStatus)
  embeddingFor : Option (Units → Option ConsolidationEmbedding)
  summaryGenerator : Option (SummaryInput → GeneratorOutcome)

structure NumericKnobs where
  jaccardThreshold : Number
  semanticSimilarityThreshold : Number
  staleConfidenceThreshold : Number
  maxAgeMs : Number
  maxClustersPerRun : Number
  maxRecordsPerRun : Number

structure ResolvedOptions where
  nowMs : Number
  newEdgeId : ℕ → Units
  newReviewItemId : ℕ → Units
  reviewerId : Units
  knobs : NumericKnobs
  includeStatuses : List MemoryStatus
  embeddingFor : Option (Units → Option ConsolidationEmbedding)
  summaryGenerator : Option (SummaryInput → GeneratorOutcome)

def defaultEligibleStatuses : List MemoryStatus := [.accepted,.proposed,.conflicted]

def isFiniteInRange (n lo hi : Number) : Bool := n.isFinite && lo.LessEq n && n.LessEq hi

def isFiniteNonNegative (n : Number) : Bool := n.isFinite && Number.LessEq 0 n

def validateNumericKnobs (knobs : NumericKnobs) : Bool :=
  isFiniteInRange knobs.jaccardThreshold 0 1 && isFiniteInRange knobs.semanticSimilarityThreshold 0 1 &&
    isFiniteInRange knobs.staleConfidenceThreshold 0 1 && isFiniteNonNegative knobs.maxAgeMs &&
    isFiniteInRange knobs.maxClustersPerRun 0 1000 &&
    isFiniteInRange knobs.maxRecordsPerRun 0 1000 &&
    (knobs.maxClustersPerRun.isInteger && knobs.maxRecordsPerRun.isInteger)

def resolveNumericKnobs (options : ConsolidationOptions) : NumericKnobs where
  jaccardThreshold := options.jaccardThreshold.getD (Binary64.round (85 / 100))
  semanticSimilarityThreshold := options.semanticSimilarityThreshold.getD (Binary64.round (88 / 100))
  staleConfidenceThreshold := options.staleConfidenceThreshold.getD (Binary64.round (3 / 10))
  maxAgeMs := options.maxAgeMs.getD (.finite (90 * 24 * 60 * 60 * 1000))
  maxClustersPerRun := options.maxClustersPerRun.getD 100
  maxRecordsPerRun := options.maxRecordsPerRun.getD 1000

def resolveOptions (options : ConsolidationOptions) : Option ResolvedOptions :=
  let knobs := resolveNumericKnobs options
  if !validateNumericKnobs knobs then none
  else some ⟨options.nowMs,options.newEdgeId,options.newReviewItemId,
      options.reviewerId.getD (units "memory-consolidation"),knobs,
      options.includeStatuses.getD defaultEligibleStatuses,options.embeddingFor,
      options.summaryGenerator⟩

def count : Number → ℕ
  | .finite value => value.num.toNat
  | _ => 0

def ResolvedOptions.conflicts (resolved : ResolvedOptions) : ConflictsOptions :=
  ⟨resolved.nowMs,resolved.newReviewItemId⟩

def ResolvedOptions.summary (resolved : ResolvedOptions) : SummaryOptions :=
  ⟨resolved.nowMs,resolved.reviewerId,resolved.summaryGenerator⟩

def ResolvedOptions.scan (resolved : ResolvedOptions) : DuplicateClusterScanOptions :=
  ⟨resolved.embeddingFor,some resolved.knobs.semanticSimilarityThreshold⟩

end Options

section Selection

def compareRecordsByRecency : MemoryRecord → MemoryRecord → ℤ :=
  Comparator.andThen (fun a b => Comparator.ordered b.createdAt a.createdAt)
    (Comparator.mapped MemoryRecord.id cmpString)

def eligibleMemories (validateMemoryRecord : MemoryRecord → Bool) (memories : List MemoryRecord)
    (resolved : ResolvedOptions) : Option (List MemoryRecord) :=
  if memories.all validateMemoryRecord then
    some (memories.filter fun memory => resolved.includeStatuses.contains memory.status)
  else none

structure Bounded where
  records : List MemoryRecord
  truncated : Bool

def boundedEligibleMemories (memories : List MemoryRecord) (resolved : ResolvedOptions) : Bounded :=
  let sorted := Comparator.sort compareRecordsByRecency memories
  ⟨sorted.take (count resolved.knobs.maxRecordsPerRun),decide (count resolved.knobs.maxRecordsPerRun < sorted.length)⟩

end Selection

section Edges

structure EdgeDraft where
  fromMemoryId : Units
  toMemoryId : Units
  kind : MemoryEdgeKind
  provenanceSummary : Units

def buildEdge (resolved : ResolvedOptions) (draft : EdgeDraft) (supply : Supply) : MemoryEdge × Supply :=
  (⟨resolved.newEdgeId supply.edges,draft.fromMemoryId,draft.toMemoryId,draft.kind,resolved.nowMs,
    draft.provenanceSummary⟩,{supply with edges := supply.edges + 1})

def buildEdges (resolved : ResolvedOptions) : List EdgeDraft → Supply → List MemoryEdge × Supply
  | [], supply => ([],supply)
  | draft :: drafts, supply =>
    let first := buildEdge resolved draft supply
    let others := buildEdges resolved drafts first.2
    (first.1 :: others.1,others.2)

def duplicateEdges (older newer : MemoryRecord) : List EdgeDraft := [
  ⟨older.id,newer.id,.derivedFrom,units "consolidation: near-duplicate"⟩,
  ⟨older.id,newer.id,.related,units "consolidation: related duplicate"⟩,
  ⟨older.id,newer.id,.temporalPrecedes,units "consolidation: temporal link"⟩]

def supersedeReviewEdges (older newer : Units) : List EdgeDraft := [
  ⟨older,newer,.conflictsWith,units "consolidation: proposed conflict"⟩,
  ⟨newer,older,.corrects,units "consolidation: proposed correction"⟩,
  ⟨older,newer,.supersedes,units "consolidation: proposed supersession"⟩]

def mergeReviewEdges (winner : Units) (losers : List Units) : List EdgeDraft :=
  losers.flatMap fun loser => [
    ⟨loser,winner,.derivedFrom,units "consolidation: proposed merge lineage"⟩,
    ⟨loser,winner,.related,units "consolidation: proposed merge relationship"⟩,
    ⟨loser,winner,.supersedes,units "consolidation: proposed merge supersession"⟩]

def reviewEdges : ProposedAction → List EdgeDraft
  | .supersede newer older => supersedeReviewEdges older newer
  | .merge winner losers => mergeReviewEdges winner losers

def withProposedReviewEdges (resolved : ResolvedOptions) (item : ReviewItem) (supply : Supply) : ReviewItem × Supply :=
  let built := buildEdges resolved (reviewEdges item.proposedAction) supply
  ({item with proposedEdges := built.1},built.2)

end Edges

section Clusters

structure ClusterEffects where
  edges : List MemoryEdge
  reviewItem : Option ReviewItem
  updates : List MemoryUpdate
  summaryFallbacks : ℕ
  summarySkipped : ℕ

variable (tables : Tables) (resolved : ResolvedOptions)

def buildDuplicateReviewItem (cluster : DuplicateCluster) (reason : ReviewReason) (supply : Supply) :
    Option (ReviewItem × Supply) :=
  match mergeActionForCluster cluster with
  | none => none
  | some (winner,_) =>
    some (mergeItem resolved.conflicts reason
      (Comparator.sort compareRecordsByAge cluster.members) winner cluster.evidence supply)

def reviewed (built : Option (ReviewItem × Supply)) (supply : Supply) : Option ReviewItem × Supply :=
  match built with
  | none => (none,supply)
  | some (item,supply) =>
    let reviewed := withProposedReviewEdges resolved item supply
    (some reviewed.1,reviewed.2)

def hasNonAcceptedMember (cluster : DuplicateCluster) : Bool :=
  cluster.members.any fun member => member.status ≠ .accepted

def processTwoMemberCluster (cluster : DuplicateCluster) (supply : Supply) : ClusterEffects × Supply :=
  match detectConflict tables resolved.conflicts cluster supply with
  | some built =>
    let item := reviewed resolved (some built) supply
    (⟨[],item.1,[],0,0⟩,item.2)
  | none =>
    if hasNonAcceptedMember cluster then
      let item := reviewed resolved (buildDuplicateReviewItem resolved cluster .duplicateReview supply) supply
      (⟨[],item.1,[],0,0⟩,item.2)
    else match cluster.members[0]?,cluster.members[1]? with
      | some older,some newer =>
        let edges := buildEdges resolved (duplicateEdges older newer) supply
        (⟨edges.1,none,[],0,0⟩,edges.2)
      | _, _ => (⟨[],none,[],0,0⟩,supply)

def processMultiWayCluster (cluster : DuplicateCluster) (supply : Supply) : Except Unit (ClusterEffects × Supply) := do
  let built := detectConflict tables resolved.conflicts cluster supply
  let drawn := (built.map Prod.snd).getD supply
  let summary ← buildSummaryUpdate tables resolved.summary cluster
  let item := reviewed resolved built drawn
  return (⟨[],item.1,summary.update.toList,if summary.fallbackUsed then 1 else 0,
    if summary.skipped then 1 else 0⟩,item.2)

def processCluster (cluster : DuplicateCluster) (supply : Supply) : Except Unit (ClusterEffects × Supply) :=
  if 2 < cluster.members.length then processMultiWayCluster tables resolved cluster supply
  else if cluster.members.length = 2 then .ok (processTwoMemberCluster tables resolved cluster supply)
  else .ok (⟨[],none,[],0,0⟩,supply)

structure ConsumeResult where
  edges : List MemoryEdge
  reviewItems : List ReviewItem
  updates : List MemoryUpdate
  summaryFallbacks : ℕ
  summarySkipped : ℕ
  clustersInspected : ℕ

def ConsumeResult.add (result : ConsumeResult) (effects : ClusterEffects) : ConsumeResult where
  edges := result.edges ++ effects.edges
  reviewItems := result.reviewItems ++ effects.reviewItem.toList
  updates := result.updates ++ effects.updates
  summaryFallbacks := result.summaryFallbacks + effects.summaryFallbacks
  summarySkipped := result.summarySkipped + effects.summarySkipped
  clustersInspected := result.clustersInspected + 1

def consumeFrom : (clusters : List DuplicateCluster) → ConsumeResult → Supply → Except Unit (ConsumeResult × Supply)
  | [], result, supply => .ok (result,supply)
  | cluster :: clusters, result, supply => do
    let processed ← processCluster tables resolved cluster supply
    consumeFrom clusters (result.add processed.1) processed.2

def inspectedClusters (clusters : List DuplicateCluster) : List DuplicateCluster :=
  clusters.take (count resolved.knobs.maxClustersPerRun)

def consumeClusters (clusters : List DuplicateCluster) (supply : Supply) : Except Unit (ConsumeResult × Supply) :=
  consumeFrom tables resolved (inspectedClusters resolved clusters) ⟨[],[],[],0,0,0⟩ supply

def reviewAll : List ReviewItem → Supply → List ReviewItem × Supply
  | [], supply => ([],supply)
  | item :: items, supply =>
    let first := withProposedReviewEdges resolved item supply
    let others := reviewAll items first.2
    (first.1 :: others.1,others.2)

def collectConflictPairs (records : List MemoryRecord) (clusters : List DuplicateCluster)
    (supply : Supply) : List ReviewItem × Supply :=
  let found := findConflictPairs tables resolved.conflicts records clusters conflictOverlapThreshold supply
  reviewAll resolved found.1 found.2

end Clusters

section Run

inductive RunState where
  | completed
  | skipped
  | failed
  deriving DecidableEq

structure ConsolidationSummaryStatus where
  configured : Bool
  updatesProposed : ℕ
  skippedMergeClusters : ℕ
  fallbacksUsed : ℕ

structure ConsolidationResult where
  state : RunState
  edgesProposed : List MemoryEdge
  updatesProposed : List MemoryUpdate
  summaryStatus : ConsolidationSummaryStatus
  reviewItems : List ReviewItem
  clustersInspected : ℕ
  conflictPairsDetected : ℕ
  recordsInspected : ℕ
  truncated : Bool

def emptyResult (state : RunState) (recordsInspected : ℕ) (truncated : Bool)
    (resolved : Option ResolvedOptions) : ConsolidationResult where
  state := state
  edgesProposed := []
  updatesProposed := []
  summaryStatus := ⟨(resolved.bind ResolvedOptions.summaryGenerator).isSome,0,0,0⟩
  reviewItems := []
  clustersInspected := 0
  conflictPairsDetected := 0
  recordsInspected := recordsInspected
  truncated := truncated

def compareEdges : MemoryEdge → MemoryEdge → ℤ :=
  Comparator.andThen (Comparator.mapped (fun edge => edge.kind.text) cmpString)
    (Comparator.andThen (Comparator.mapped MemoryEdge.fromMemoryId cmpString)
      (Comparator.andThen (Comparator.mapped MemoryEdge.toMemoryId cmpString)
        (Comparator.mapped MemoryEdge.id cmpString)))

def compareTimes (a b : Number) : ℤ := if a.Less b then -1 else if b.Less a then 1 else 0

def sortUpdates (updates : List MemoryUpdate) : List MemoryUpdate :=
  Comparator.sort (Comparator.andThen (Comparator.mapped MemoryUpdate.memoryId cmpString)
    (Comparator.mapped MemoryUpdate.updatedAt compareTimes)) updates

inductive PreparedConsolidation where
  | result (result : ConsolidationResult)
  | ready (resolved : ResolvedOptions) (bounded : Bounded)

variable (tables : Tables) (validateMemoryRecord : MemoryRecord → Bool)

def prepareConsolidationRun (memories : List MemoryRecord) (options : ConsolidationOptions) :
    PreparedConsolidation :=
  match resolveOptions options with
  | none => .result (emptyResult .failed 0 false none)
  | some resolved =>
    match eligibleMemories validateMemoryRecord memories resolved with
    | none => .result (emptyResult .failed 0 false (some resolved))
    | some eligible =>
      if eligible = [] then .result (emptyResult .skipped 0 false (some resolved))
      else
        let bounded := boundedEligibleMemories eligible resolved
        if bounded.records = [] ∨ resolved.knobs.maxClustersPerRun = 0 then
          .result (emptyResult .skipped bounded.records.length bounded.truncated (some resolved))
        else .ready resolved bounded

def clustersOf (resolved : ResolvedOptions) (records : List MemoryRecord) : List DuplicateCluster :=
  scanDuplicateClusters tables resolved.knobs.jaccardThreshold resolved.scan records

def runReady (resolved : ResolvedOptions) (bounded : Bounded) : Except Unit ConsolidationResult := do
  let clusters := clustersOf tables resolved bounded.records
  let consumed ← consumeClusters tables resolved clusters ⟨0,0⟩
  let conflictPairs := collectConflictPairs tables resolved bounded.records clusters consumed.2
  return {
    state := .completed
    edgesProposed := Comparator.sort compareEdges consumed.1.edges
    updatesProposed := sortUpdates consumed.1.updates
    summaryStatus := ⟨resolved.summaryGenerator.isSome,consumed.1.updates.length,
      consumed.1.summarySkipped,consumed.1.summaryFallbacks⟩
    reviewItems := Comparator.sort compareReviewItems (consumed.1.reviewItems ++ conflictPairs.1)
    clustersInspected := consumed.1.clustersInspected
    conflictPairsDetected := conflictPairs.1.length
    recordsInspected := bounded.records.length
    truncated := bounded.truncated }

def runConsolidation (memories : List MemoryRecord) (options : ConsolidationOptions) :
    Except Unit ConsolidationResult :=
  match prepareConsolidationRun validateMemoryRecord memories options with
  | .result result => .ok result
  | .ready resolved bounded => runReady tables resolved bounded

end Run

end Keiko.Consolidation
