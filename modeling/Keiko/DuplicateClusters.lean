import Keiko.Library.Comparator
import Keiko.Library.Grouping
import Keiko.Library.UnionFind
import Keiko.MemorySimilarity
import Mathlib.Data.List.Lex

/-! Near-duplicate clusters of memory records. Records of one scope and type are compared pair by
pair, oldest first; what matches is united, and the groups of two or more are the clusters, in the
order of the ids of their oldest members. A scan is one that nobody cancels. -/
namespace Keiko.DuplicateClusters
open Keiko.Library Keiko.MemorySimilarity

section Records

inductive MemoryScope where
  | user (userId : Units)
  | workspace (workspaceId : Units)
  | project (projectId : Units)
  | workflow (workflowDefinitionId : Units)
  | global
  deriving DecidableEq

inductive MemoryType where
  | episodic
  | semanticFact
  | procedural
  | preference
  | correction
  | decision
  | negative
  | pinned
  deriving DecidableEq

def MemoryType.text : MemoryType → Units
  | .episodic => units "episodic"
  | .semanticFact => units "semantic-fact"
  | .procedural => units "procedural"
  | .preference => units "preference"
  | .correction => units "correction"
  | .decision => units "decision"
  | .negative => units "negative"
  | .pinned => units "pinned"

inductive MemoryStatus where
  | proposed
  | accepted
  | rejected
  | superseded
  | archived
  | forgotten
  | conflicted
  | expired
  deriving DecidableEq

structure MemoryRecord where
  id : Units
  scope : MemoryScope
  type : MemoryType
  body : Units
  status : MemoryStatus
  createdAt : ℚ
  deriving DecidableEq

def scopeCoordinateKey : MemoryScope → Units
  | .global => units "global:"
  | .user userId => units "user:" ++ userId
  | .workspace workspaceId => units "workspace:" ++ workspaceId
  | .project projectId => units "project:" ++ projectId
  | .workflow workflowDefinitionId => units "workflow:" ++ workflowDefinitionId

def partitionKey (record : MemoryRecord) : Units :=
  scopeCoordinateKey record.scope ++ units "|type:" ++ record.type.text

end Records

section Ordering
open Comparator

def cmpString (a b : Units) : ℤ := ordered (a.map UInt16.toNat) (b.map UInt16.toNat)

def compareRecordsByAge : MemoryRecord → MemoryRecord → ℤ :=
  andThen (mapped MemoryRecord.createdAt ordered) (mapped MemoryRecord.id cmpString)

end Ordering

inductive Metric where
  | cosine
  | euclidean
  | dot
  deriving DecidableEq

structure ConsolidationEmbedding where
  vector : List Number
  provider : Option Units
  modelId : Option Units
  modelRevision : Option Units
  metric : Option Metric

inductive EvidenceKind where
  | lexicalSimilarity
  | semanticSimilarity
  | negationPolarity
  | valueReplacement
  deriving DecidableEq

structure ConsolidationEvidence where
  kind : EvidenceKind
  memoryIds : List Units
  score : Option Number
  threshold : Option Number
  detail : Option Units
  deriving DecidableEq

structure DuplicateCluster where
  canonicalId : Units
  members : List MemoryRecord
  evidence : List ConsolidationEvidence
  deriving DecidableEq

structure DuplicateClusterScanOptions where
  embeddingFor : Option (Units → Option ConsolidationEmbedding)
  semanticSimilarityThreshold : Option Number

section Match

def compatibleOptionalField {α : Type*} [DecidableEq α] (left right : Option α) : Bool :=
  left.isNone || right.isNone || left == right

def compatibleEmbedding : (a b : Option ConsolidationEmbedding) → Bool
  | some a, some b =>
    decide (0 < a.vector.length) && decide (a.vector.length = b.vector.length) &&
      compatibleOptionalField a.metric b.metric && compatibleOptionalField a.provider b.provider &&
      compatibleOptionalField a.modelId b.modelId &&
      compatibleOptionalField a.modelRevision b.modelRevision
  | _, _ => false

def lexicalEvidence (a b : MemoryRecord) (score threshold : Number) (detail : Units) :
    ConsolidationEvidence :=
  ⟨.lexicalSimilarity,[a.id,b.id],some score,some threshold,some detail⟩

def semanticEvidence (a b : MemoryRecord) (score threshold : Number) : ConsolidationEvidence :=
  ⟨.semanticSimilarity,[a.id,b.id],some score,some threshold,none⟩

structure MatchPairInput where
  a : MemoryRecord
  b : MemoryRecord
  aBody : PreparedBody
  bBody : PreparedBody
  jaccardThreshold : Number
  embeddingA : Option ConsolidationEmbedding
  embeddingB : Option ConsolidationEmbedding
  semanticSimilarityThreshold : Option Number

def matchSemantic (sqrt : Number → Number) (input : MatchPairInput) : Option ConsolidationEvidence := do
  let threshold ← input.semanticSimilarityThreshold
  let embeddingA ← input.embeddingA
  let embeddingB ← input.embeddingB
  if compatibleEmbedding (some embeddingA) (some embeddingB) then
    let semanticScore ← cosineSimilarity sqrt embeddingA.vector embeddingB.vector
    if threshold.LessEq semanticScore then some (semanticEvidence input.a input.b semanticScore threshold)
    else none
  else none

def matchPair (sqrt : Number → Number) (input : MatchPairInput) : Option ConsolidationEvidence :=
  if input.aBody.normalized = input.bBody.normalized then
    some (lexicalEvidence input.a input.b 1 input.jaccardThreshold (units "normalized-body"))
  else
    let lexicalScore := jaccardSimilarityPrepared input.aBody input.bBody
    if input.jaccardThreshold.LessEq lexicalScore then
      some (lexicalEvidence input.a input.b lexicalScore input.jaccardThreshold
        (units "bigram-jaccard"))
    else matchSemantic sqrt input

end Match

section Scan
variable (tables : Tables) (jaccardThreshold : Number) (options : DuplicateClusterScanOptions)

def embeddingOf (record : MemoryRecord) : Option ConsolidationEmbedding :=
  options.embeddingFor.bind fun embeddingFor => embeddingFor record.id

variable (records : List MemoryRecord)

def collectEmbeddings : List (Option ConsolidationEmbedding) :=
  records.map (embeddingOf options)

def matchIndexedPair (ordered : List MemoryRecord) (prepared : List PreparedBody)
    (embeddings : List (Option ConsolidationEmbedding)) (i j : ℕ) : Option ConsolidationEvidence := do
  let a ← ordered[i]?
  let b ← ordered[j]?
  let aBody ← prepared[i]?
  let bBody ← prepared[j]?
  matchPair tables.sqrt ⟨a,b,aBody,bBody,jaccardThreshold,embeddings[i]?.join,embeddings[j]?.join,
    options.semanticSimilarityThreshold⟩

def indexPairs (length : ℕ) : List (ℕ × ℕ) :=
  (List.range length).flatMap fun i =>
    (List.range' (i + 1) (length - (i + 1))).map fun j => (i,j)

structure PairEvidence where
  left : ℕ
  evidence : ConsolidationEvidence

structure PairScan where
  uf : UnionFind
  pairEvidence : List PairEvidence

def scanPair (matching : ℕ → ℕ → Option ConsolidationEvidence) (scan : PairScan) (pair : ℕ × ℕ) :
    PairScan :=
  match matching pair.1 pair.2 with
  | none => scan
  | some evidence =>
    ⟨scan.uf.union pair.1 pair.2,scan.pairEvidence ++ [⟨pair.1,evidence⟩]⟩

def scanPartitionPairs (ordered : List MemoryRecord) (prepared : List PreparedBody)
    (embeddings : List (Option ConsolidationEmbedding)) (uf : UnionFind) : PairScan :=
  (indexPairs ordered.length).foldl
    (scanPair (matchIndexedPair tables jaccardThreshold options ordered prepared embeddings)) ⟨uf,[]⟩

def groupStep {α : Type*} (state : UnionFind × OrderedMap ℕ (List α)) (item : α × ℕ) :
    UnionFind × OrderedMap ℕ (List α) :=
  let found := state.1.findRoot item.2
  (found.2,Grouping.push state.2 found.1 item.1)

def normalizeEvidenceRoots (uf : UnionFind) (pairEvidence : List PairEvidence) :
    UnionFind × OrderedMap ℕ (List ConsolidationEvidence) :=
  (pairEvidence.map fun item => (item.evidence,item.left)).foldl groupStep (uf,OrderedMap.empty)

def clusterOf (evidenceByRoot : OrderedMap ℕ (List ConsolidationEvidence))
    (entry : ℕ × List MemoryRecord) : Option DuplicateCluster :=
  if entry.2.length < 2 then none
  else
    let sortedMembers := Comparator.sort compareRecordsByAge entry.2
    sortedMembers.head?.map fun canonical =>
      ⟨canonical.id,sortedMembers,(evidenceByRoot.get? entry.1).getD []⟩

def finalizeClusters (ordered : List MemoryRecord) (uf : UnionFind)
    (evidenceByRoot : OrderedMap ℕ (List ConsolidationEvidence)) : List DuplicateCluster :=
  let grouped := (ordered.zipIdx.foldl groupStep (uf,OrderedMap.empty)).2
  grouped.entries.filterMap (clusterOf evidenceByRoot)

def clusterPartition : List DuplicateCluster :=
  let ordered := Comparator.sort compareRecordsByAge records
  let prepared := ordered.map fun record => prepareBody tables record.body
  let embeddings := collectEmbeddings options ordered
  let scan := scanPartitionPairs tables jaccardThreshold options ordered prepared embeddings UnionFind.create
  let roots := normalizeEvidenceRoots scan.uf scan.pairEvidence
  finalizeClusters ordered roots.1 roots.2

def compareByCanonicalId : DuplicateCluster → DuplicateCluster → ℤ :=
  Comparator.mapped DuplicateCluster.canonicalId cmpString

def partitions : OrderedMap Units (List MemoryRecord) :=
  Grouping.group partitionKey id records

def scanDuplicateClusters : List DuplicateCluster :=
  Comparator.sort compareByCanonicalId
    ((partitions records).values.flatMap (clusterPartition tables jaccardThreshold options))

end Scan

end Keiko.DuplicateClusters
