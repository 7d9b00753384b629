import Keiko.DuplicateClusters
import Keiko.Library.Backtrack

/-! Conflicts between memory records: opposite negation, and a value that replaces another one under
the same key. A cluster yields one review item at most; a sweep over the pairs of each partition
finds the conflicts that no cluster stands for. -/
namespace Keiko.MemoryConflicts
open Keiko.Library Keiko.Library.Backtrack Keiko.MemorySimilarity Keiko.DuplicateClusters

section Negation
variable (tables : Tables)

def negationTokens : List Units :=
  ["aint","arent","cannot","cant","couldnt","didnt","doesnt","dont","hadnt","hasnt","havent","isnt",
    "mustnt","neednt","not","shouldnt","wasnt","werent","wont","wouldnt",
    "never","no","none","without",
    "kein","keine","keinem","keinen","keiner","keines","nicht","nie","niemals","ohne"].map units

def hasNegation (body : Units) : Bool :=
  (((normalizeBody tables body).splitOn (unit ' ')).filter fun token => decide (0 < token.length)).any
    negationTokens.contains

end Negation

section Facts

structure ValueFact where
  key : Units
  value : Units
  rawValue : Units

def regionKeyword : Regex := sequence [.boundary,anyOf [
  sequence [literal "deployment",plus space,literal "region"],
  sequence [literal "server",plus space,literal "region"],
  sequence [literal "aws",plus space,literal "region"],
  sequence [literal "cloud",plus space,literal "region"],
  literal "region"],.boundary]

def digit : Regex := .unit CodeUnit.isDigit

def regionValue : Regex := sequence [.star space,
  .opt (sequence [anyOf (["is","ist","=",":","to","auf"].map literal),.star space]),
  .group 1 (sequence [letter,letter,literal "-",plus letter,literal "-",digit]),.boundary]

def valueKeys : Regex := anyOf [literal "formatter",literal "database",literal "db",
  sequence [literal "test",plus space,literal "runner"],literal "runner",literal "tool",
  literal "model"]

def keyValueKeyword : Regex := sequence [.boundary,.group 1 valueKeys,.boundary]

def keyValueConnector : Regex := sequence [.star space,anyOf [
  sequence [anyOf [literal "is",literal "ist",literal "to",literal "auf",
    sequence [literal "should",plus space,literal "be"],
    sequence [literal "soll",.opt (literal "te")]],.boundary],
  literal "=",literal ":"],.star space]

def isAtomUnit (c : CodeUnit) : Bool :=
  isLetter c || CodeUnit.isDigit c || (units "+#._-").contains c

/-- `[a-z][a-z0-9+#._-]\x7b1,40\x7d`. -/
def atom : Regex := sequence [letter,.unit isAtomUnit,upTo (.unit isAtomUnit) 39]

def keyValueAtom : Regex := sequence [.star space,.group 1 atom,.boundary]

def valueKeyPattern : Regex := sequence [.boundary,
  anyOf (["uses","use","nutzt","verwenden","verwende"].map literal),plus space,.group 1 atom,
  plus space,.opt (sequence [literal "as",plus space]),.group 2 valueKeys,.boundary]

def execKeyValueValue (text : Units) : Option (Units × Cursor) :=
  match matchHere keyValueConnector text with
  | none => none
  | some connector =>
    match matchHere keyValueAtom connector.rest with
    | some found => (found.group? 1).map (·,found)
    | none =>
      -- The connector is itself the value where nothing else follows.
      match matchHere keyValueAtom text with
      | some found => (found.group? 1).map (·,found)
      | none => none

variable (tables : Tables)

def normalizeFactKey (raw : Units) : Units :=
  let key := normalizeBody tables raw
  if key = units "db" then units "database"
  else if key = units "runner" then units "test runner"
  else key

def valueSynonyms : List (Units × Units) := [
  (units "postgresql",units "postgres"),(units "postgres",units "postgres"),
  (units "nodejs",units "node"),(units "node.js",units "node"),(units "js",units "javascript"),
  (units "ts",units "typescript")]

def isValueUnit (c : CodeUnit) : Bool :=
  (unit 'a' ≤ c && c ≤ unit 'z') || CodeUnit.isDigit c || (units "+#._-").contains c

def normalizeFactValue (raw : Units) : Units :=
  let compact := (tables.toLowerCase (Units.trim raw)).filter isValueUnit
  ((valueSynonyms.find? (·.1 == compact)).map Prod.snd).getD compact

/-- `addFact`, which adds one fact or none. -/
def factOf (key rawValue : Units) : List ValueFact :=
  let normalized := normalizeFactValue tables rawValue
  if normalized.length = 0 then []
  else [⟨normalizeFactKey tables key,normalized,rawValue⟩]

/-- The loop over the places of a keyword. What is read behind one place is the facts found there and
the position from which the search goes on. -/
def collectFrom (keyword : Regex) (read : Cursor → List ValueFact × Cursor) :
    (fuel : ℕ) → (before : Option CodeUnit) → Units → List ValueFact
  | 0, _, _ => []
  | fuel + 1, before, text =>
    match search keyword before text with
    | none => []
    | some found =>
      let here := read found
      here.1 ++ collectFrom keyword read fuel here.2.before here.2.rest

def readRegion (found : Cursor) : List ValueFact × Cursor :=
  match matchHere regionValue found.rest with
  | none => ([],found)
  | some value =>
    match value.group? 1 with
    | none => ([],found)
    | some rawValue => (factOf tables (units "region") rawValue,value)

def readKeyValue (found : Cursor) : List ValueFact × Cursor :=
  match execKeyValueValue found.rest,found.group? 1 with
  | some (value,behind),some key => (factOf tables key value,behind)
  | _, _ => ([],found)

def readValueKey (found : Cursor) : List ValueFact × Cursor :=
  match found.group? 1,found.group? 2 with
  | some rawValue,some key => (factOf tables key rawValue,found)
  | _, _ => ([],found)

def extractValueFacts (body : Units) : List ValueFact :=
  let rounds := body.length + 1
  collectFrom regionKeyword (readRegion tables) rounds none body ++
    collectFrom keyValueKeyword (readKeyValue tables) rounds none body ++
    collectFrom valueKeyPattern (readValueKey tables) rounds none body

theorem collectFrom_fuel {keyword : Regex} (reads : Reads keyword = true) {read : Cursor → List ValueFact × Cursor}
    (forward : ∀ hit, (read hit).2.rest.length ≤ hit.rest.length) {fuel fuel' : ℕ}
    {pre : Option CodeUnit} {t : Units} (enough : t.length < fuel)
    (enough' : t.length < fuel') :
    collectFrom keyword read fuel pre t = collectFrom keyword read fuel' pre t := by
  induction fuel generalizing fuel' pre t with
  | zero => omega
  | succ fuel ih =>
    cases fuel' with
    | zero => omega
    | succ fuel' =>
      rw [collectFrom,collectFrom]
      cases hit : search keyword pre t with
      | none => rfl
      | some next =>
        have shorter := length_search_lt reads hit
        have behind := forward next
        dsimp only
        rw [ih (by omega) (by omega : (read next).2.rest.length < fuel')]

theorem readRegion_forward (hit : Cursor) : (readRegion tables hit).2.rest.length ≤ hit.rest.length := by
  unfold readRegion
  split
  · exact le_refl _
  next v here =>
    split
    · exact le_refl _
    · exact length_matchHere here

theorem execKeyValueValue_forward {t v : Units} {behind : Cursor}
    (read : execKeyValueValue t = some (v,behind)) : behind.rest.length ≤ t.length := by
  unfold execKeyValueValue at read
  split at read
  · cases read
  next connector joined =>
    have first := length_matchHere joined
    split at read
    next hit here =>
      obtain ⟨_,_,same⟩ := Option.map_eq_some_iff.mp read
      obtain ⟨rfl,rfl⟩ := Prod.mk.inj same
      exact le_trans (length_matchHere here) first
    next =>
      split at read
      next hit here =>
        obtain ⟨_,_,same⟩ := Option.map_eq_some_iff.mp read
        obtain ⟨rfl,rfl⟩ := Prod.mk.inj same
        exact length_matchHere here
      · cases read

theorem readKeyValue_forward (hit : Cursor) : (readKeyValue tables hit).2.rest.length ≤ hit.rest.length := by
  unfold readKeyValue
  split
  next v behind key read _ => exact execKeyValueValue_forward read
  · exact le_refl _

theorem readValueKey_forward (hit : Cursor) : (readValueKey tables hit).2.rest.length ≤ hit.rest.length := by
  unfold readValueKey
  split
  · exact le_refl _
  · exact le_refl _

theorem extractValueFacts_eq (body : Units) {rounds : ℕ} (enough : body.length < rounds) :
    extractValueFacts tables body = collectFrom regionKeyword (readRegion tables) rounds none body ++
        collectFrom keyValueKeyword (readKeyValue tables) rounds none body ++
        collectFrom valueKeyPattern (readValueKey tables) rounds none body := by
  rw [extractValueFacts,collectFrom_fuel (by decide) (readRegion_forward tables) (Nat.lt_succ_self _) enough,
    collectFrom_fuel (by decide) (readKeyValue_forward tables) (Nat.lt_succ_self _) enough,
    collectFrom_fuel (by decide) (readValueKey_forward tables) (Nat.lt_succ_self _) enough]

end Facts

section Evidence
variable (tables : Tables)

variable (older newer : MemoryRecord)

def findValueReplacementEvidence : Option ConsolidationEvidence :=
  (extractValueFacts tables older.body).findSome? fun oldFact =>
    (extractValueFacts tables newer.body).findSome? fun newFact =>
      if oldFact.key ≠ newFact.key then none
      else if oldFact.value = newFact.value then none
      else some ⟨.valueReplacement,[older.id,newer.id],none,none,
          some (oldFact.key ++ units ": " ++ oldFact.rawValue ++ units " -> " ++ newFact.rawValue)⟩

def isPolarityConflict : Bool :=
  hasNegation tables older.body != hasNegation tables newer.body

def polarityEvidence : ConsolidationEvidence :=
  ⟨.negationPolarity,[older.id,newer.id],none,none,some (units "opposite-negation-polarity")⟩

def conflictEvidenceForPair : List ConsolidationEvidence :=
  (if isPolarityConflict tables older newer then [polarityEvidence older newer] else []) ++
    (findValueReplacementEvidence tables older newer).toList

def hasValueReplacement (evidence : List ConsolidationEvidence) : Bool :=
  evidence.any fun item => item.kind = .valueReplacement

end Evidence

section Items

inductive ReviewReason where
  | duplicateReview
  | multiWayDuplicate
  | potentialConflict
  deriving DecidableEq

def ReviewReason.text : ReviewReason → Units
  | .duplicateReview => units "duplicate-review"
  | .multiWayDuplicate => units "multi-way-duplicate"
  | .potentialConflict => units "potential-conflict"

inductive ProposedAction where
  | merge (winner : Units) (losers : List Units)
  | supersede (newer older : Units)
  deriving DecidableEq

inductive MemoryEdgeKind where
  | related
  | derivedFrom
  | supersedes
  | corrects
  | conflictsWith
  | temporalPrecedes
  deriving DecidableEq

def MemoryEdgeKind.text : MemoryEdgeKind → Units
  | .related => units "related"
  | .derivedFrom => units "derived-from"
  | .supersedes => units "supersedes"
  | .corrects => units "corrects"
  | .conflictsWith => units "conflicts-with"
  | .temporalPrecedes => units "temporal-precedes"

structure MemoryEdge where
  id : Units
  fromMemoryId : Units
  toMemoryId : Units
  kind : MemoryEdgeKind
  createdAt : Number
  provenanceSummary : Units

structure ReviewItem where
  id : Units
  reason : ReviewReason
  relatedMemoryIds : List Units
  sourceMemoryIds : List Units
  proposedAction : ProposedAction
  evidence : List ConsolidationEvidence
  proposedEdges : List MemoryEdge
  detectedAt : Number

/-- How often the two factories of ids were called. -/
structure Supply where
  items : ℕ
  edges : ℕ

structure ConflictsOptions where
  nowMs : Number
  newReviewItemId : ℕ → Units

def compareReviewItems : ReviewItem → ReviewItem → ℤ :=
  Comparator.andThen (Comparator.mapped (fun item => item.reason.text) cmpString) (Comparator.andThen
      (Comparator.mapped (fun item => Units.join (units ",") item.relatedMemoryIds) cmpString)
      (Comparator.mapped ReviewItem.id cmpString))

variable (tables : Tables) (options : ConflictsOptions)

def mergeItem (reason : ReviewReason) (sorted : List MemoryRecord) (winner : MemoryRecord)
    (evidence : List ConsolidationEvidence) (supply : Supply) : ReviewItem × Supply :=
  (⟨options.newReviewItemId supply.items,reason,sorted.map MemoryRecord.id,sorted.map MemoryRecord.id,
    .merge winner.id (sorted.dropLast.map MemoryRecord.id),evidence,[],options.nowMs⟩,
    {supply with items := supply.items + 1})

def buildMultiWayItem (cluster : DuplicateCluster) (supply : Supply) : Option (ReviewItem × Supply) :=
  let sorted := Comparator.sort compareRecordsByAge cluster.members
  sorted.getLast?.map fun winner =>
    mergeItem options .multiWayDuplicate sorted winner cluster.evidence supply

def buildPairConflictItem (older newer : MemoryRecord) (evidence : List ConsolidationEvidence)
    (supply : Supply) : ReviewItem × Supply :=
  (⟨options.newReviewItemId supply.items,.potentialConflict,[older.id,newer.id],[older.id,newer.id],
    .supersede newer.id older.id,evidence,[],options.nowMs⟩,{supply with items := supply.items + 1})

def tryBuildPairConflict (cluster : DuplicateCluster) (supply : Supply) : Option (ReviewItem × Supply) :=
  match Comparator.sort compareRecordsByAge cluster.members with
  | [older,newer] =>
    let evidence := conflictEvidenceForPair tables older newer
    if evidence = [] then none else some (buildPairConflictItem options older newer evidence supply)
  | _ => none

/-- `detectConflicts` of one cluster, which is how the engine calls it: one item or none. -/
def detectConflict (cluster : DuplicateCluster) (supply : Supply) : Option (ReviewItem × Supply) :=
  if 2 < cluster.members.length then buildMultiWayItem options cluster supply
  else tryBuildPairConflict tables options cluster supply

end Items

section Sweep
variable (tables : Tables) (options : ConflictsOptions)

def conflictOverlapThreshold : Number := Binary64.round (4 / 10)

def pairKey (idA idB : Units) : Units :=
  if cmpString idA idB < 0 then idA ++ units "|" ++ idB else idB ++ units "|" ++ idA

def pairKeys : List Units → List Units
  | [] => []
  | id :: ids => ids.map (pairKey id) ++ pairKeys ids

def buildExcludeSet (clusters : List DuplicateCluster) : List Units :=
  clusters.flatMap fun cluster => pairKeys (cluster.members.map MemoryRecord.id)

def sweepEvidence (excluded : List Units) (overlapThreshold : Number) (older newer : MemoryRecord) :
    Option (List ConsolidationEvidence) :=
  if pairKey older.id newer.id ∈ excluded then none
  else
    let evidence := conflictEvidenceForPair tables older newer
    if evidence = [] then none
    else if !hasValueReplacement evidence && (jaccardSimilarityPrepared
        (prepareBody tables older.body) (prepareBody tables newer.body)).Less overlapThreshold then
      none
    else some evidence

def sweepPair (excluded : List Units) (overlapThreshold : Number)
    (state : List ReviewItem × Supply) (pair : MemoryRecord × MemoryRecord) :
    List ReviewItem × Supply :=
  match sweepEvidence tables excluded overlapThreshold pair.1 pair.2 with
  | none => state
  | some evidence =>
    let built := buildPairConflictItem options pair.1 pair.2 evidence state.2
    (state.1 ++ [built.1],built.2)

/-- The pairs of a list in the order of two nested loops, the second of which starts behind the
first. -/
def orderedPairs : List MemoryRecord → List (MemoryRecord × MemoryRecord)
  | [] => []
  | older :: records => records.map (older,·) ++ orderedPairs records

def scanPartitionPairs (partition : List MemoryRecord) (excluded : List Units)
    (overlapThreshold : Number) (state : List ReviewItem × Supply) : List ReviewItem × Supply :=
  (orderedPairs (Comparator.sort compareRecordsByAge partition)).foldl
    (sweepPair tables options excluded overlapThreshold) state

def partitionForConflicts (records : List MemoryRecord) : List (List MemoryRecord) :=
  (partitions records).values

def findConflictPairs (records : List MemoryRecord) (excludeClusters : List DuplicateCluster)
    (overlapThreshold : Number) (supply : Supply) : List ReviewItem × Supply :=
  let excluded := buildExcludeSet excludeClusters
  let scanned := (partitionForConflicts records).foldl (fun state partition =>
      scanPartitionPairs tables options partition excluded overlapThreshold state) ([],supply)
  (Comparator.sort compareReviewItems scanned.1,scanned.2)

end Sweep

end Keiko.MemoryConflicts
