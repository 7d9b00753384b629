import Keiko.Library.Text
import Mathlib.Data.Rat.Floor
import Mathlib.Logic.Function.Basic

/-! The lane allocator of a context budget. Lanes that may not be evicted are taken off the
top; the others fill what is left in the order of their priority, each under its own cap
and policy. -/
namespace Keiko.ContextBudget
open Keiko.Library

inductive ContextLaneId where
  | systemContract
  | userTask
  | activePlan
  | repoEvidence
  | toolObservations
  | workingMemory
  | historySummary
  | verificationEvidence
  deriving DecidableEq

def contextLaneIds : List ContextLaneId :=
  [.systemContract,.userTask,.activePlan,.repoEvidence,.toolObservations,.workingMemory,
    .historySummary,.verificationEvidence]

inductive ContextEvictionPolicy where
  | none
  | summarizeThenDrop
  | dropOldest
  | dropLowestScore
  deriving DecidableEq

inductive ContextBudgetPressure where
  | low
  | moderate
  | high
  | exceeded
  deriving DecidableEq

inductive CompactionReason where
  | summarizeThenDrop
  | dropOldest
  | dropLowestScore
  | budget
  deriving DecidableEq

inductive ContextTokenAccountingSource where
  | calibrated
  | fallbackEstimated
  deriving DecidableEq

structure ContextTokenAccounting where
  source : ContextTokenAccountingSource
  counterId : Text
  scaleMilli : Option ℚ
  offsetTokens : Option ℚ

structure ContextProfile where
  effectiveInputBudget : ℚ
  tokenEstimatorId : Text
  tokenAccounting : Option ContextTokenAccounting

/-- The validator of a budget accepts caps that are finite and not negative. -/
structure ContextLaneBudget where
  laneId : ContextLaneId
  priority : ℚ
  maxTokens : ℚ
  eviction : ContextEvictionPolicy
  maxTokens_nonneg : 0 ≤ maxTokens

structure ContextBudget where
  lanes : List ContextLaneBudget

structure ContextLaneItemInput where
  id : Text
  text : Text
  score : ℚ
  deriving DecidableEq

structure ContextLaneInput where
  laneId : ContextLaneId
  items : List ContextLaneItemInput

structure AllocateContextInput where
  profile : ContextProfile
  budget : ContextBudget
  lanes : List ContextLaneInput

section Tokens

def isCodePointInRanges (codePoint : Nat) (ranges : List (Nat × Nat)) : Bool :=
  ranges.any fun range => range.1 ≤ codePoint && codePoint ≤ range.2

def tokenCjkCodePointRanges : List (Nat × Nat) :=
  [⟨0x3400,0x4dbf⟩,⟨0x4e00,0x9fff⟩,⟨0xf900,0xfaff⟩,⟨0x3040,0x30ff⟩,⟨0x3130,0x318f⟩,⟨0xac00,0xd7af⟩]

def tokenEmojiLikeCodePointRanges : List (Nat × Nat) := [⟨0x1f000,0x1faff⟩,⟨0x2600,0x27bf⟩]

def tokenWhitespaceCodePoints : List Nat := [0x09,0x0a,0x0b,0x0c,0x0d,0x20]

def tokenStructuralCharacters : Text := "\x7b\x7d[]()<>;:=+-*/%&|!?,.#\x60$@\\\"'".toList

structure TokenShapeStats where
  cjkChars : Nat
  emojiLikeChars : Nat
  structuralChars : Nat
  newlineChars : Nat
  nonWhitespaceChars : Nat

def tokenShapeStats (text : Text) : TokenShapeStats where
  cjkChars := text.countP fun char => isCodePointInRanges char.toNat tokenCjkCodePointRanges
  emojiLikeChars :=
    text.countP fun char => isCodePointInRanges char.toNat tokenEmojiLikeCodePointRanges
  structuralChars := text.countP fun char => char ∈ tokenStructuralCharacters
  newlineChars := text.countP fun char => char.toNat = 0x0a
  nonWhitespaceChars := text.countP fun char => char.toNat ∉ tokenWhitespaceCodePoints

def tokenDenseStructuralMinChars : Nat := 6

def requiresDenseTokenizerFloor (text : Text) : Bool :=
  let stats := tokenShapeStats text
  stats.cjkChars > 0 || stats.emojiLikeChars > 0 || stats.newlineChars ≥ 4 ||
    (stats.structuralChars ≥ tokenDenseStructuralMinChars && stats.structuralChars * 3 ≥ max 1 stats.nonWhitespaceChars)

def tokenStructuralOverhead : Nat := 2

/-- The estimate without the cache in front of it: bytes over 3.5, or over 3 for a dense text. -/
def estimateTokens (text : Text) : Nat :=
  let bytes := Text.byteLength text
  let baseline := ⌈(bytes : ℚ) / (7 / 2)⌉₊
  let denseFloor := if requiresDenseTokenizerFloor text then ⌈(bytes : ℚ) / 3⌉₊ else baseline
  tokenStructuralOverhead + max baseline denseFloor

def resolveContextTokenAccounting (profile : ContextProfile) : ContextTokenAccounting :=
  profile.tokenAccounting.getD ⟨.fallbackEstimated,profile.tokenEstimatorId,none,none⟩

def calibratedTokenCount (fallbackTokens : Nat) (accounting : ContextTokenAccounting) : Nat :=
  let scaleMilli := accounting.scaleMilli.getD 1000
  let offsetTokens := accounting.offsetTokens.getD 0
  if scaleMilli.den ≠ 1 ∨ scaleMilli ≤ 0 then fallbackTokens
  else if offsetTokens.den ≠ 1 ∨ offsetTokens < 0 then fallbackTokens
  else ⌈(fallbackTokens * scaleMilli) / 1000 + offsetTokens⌉₊

def countContextTokens (text : Text) (accounting : ContextTokenAccounting) : Nat :=
  let fallbackTokens := estimateTokens text
  if accounting.source = .calibrated then calibratedTokenCount fallbackTokens accounting
  else fallbackTokens

end Tokens

structure LaneFill where
  includedIds : List Text
  excludedIds : List Text
  tokens : Nat
  droppedForBudget : Bool
  compactionReason : Option CompactionReason

/-- `localeCompare` of the host's strings. -/
abbrev LocaleCompare := Text → Text → Int

section Fill

variable (localeCompare : LocaleCompare) (tokenBudget : ℚ) (tokenAccounting : ContextTokenAccounting)
  (items : List ContextLaneItemInput)

def scoreOrder (a b : ContextLaneItemInput) : Bool :=
  let byScore := b.score - a.score
  if byScore ≠ 0 then byScore ≤ 0 else localeCompare a.id b.id ≤ 0

def scoreStep (fill : List Text × List Text × Nat) (item : ContextLaneItemInput) : List Text × List Text × Nat :=
  let cost := countContextTokens item.text tokenAccounting
  if ((fill.2.2 + cost : Nat) : ℚ) > tokenBudget then ⟨fill.1,fill.2.1 ++ [item.id],fill.2.2⟩
  else ⟨fill.1 ++ [item.id],fill.2.1,fill.2.2 + cost⟩

def selectScoredByTokenBudget (compactionReason : CompactionReason) : LaneFill :=
  let ordered := items.mergeSort (scoreOrder localeCompare)
  let filled := ordered.foldl (scoreStep tokenBudget tokenAccounting) ⟨[],[],0⟩
  let droppedForBudget := !filled.2.1.isEmpty
  ⟨filled.1,filled.2.1,filled.2.2,droppedForBudget,if droppedForBudget then some compactionReason else none⟩

def newestStep (fill : List Nat × Nat) (entry : ContextLaneItemInput × Nat) : List Nat × Nat :=
  let cost := countContextTokens entry.1.text tokenAccounting
  if ((fill.2 + cost : Nat) : ℚ) ≤ tokenBudget then ⟨fill.1 ++ [entry.2],fill.2 + cost⟩ else fill

def selectNewestByTokenBudget : LaneFill :=
  let filled := items.zipIdx.reverse.foldl (newestStep tokenBudget tokenAccounting) ⟨[],0⟩
  let includedIds := (items.zipIdx.filter fun entry => entry.2 ∈ filled.1).map fun entry => entry.1.id
  let excludedIds := (items.zipIdx.filter fun entry => entry.2 ∉ filled.1).map fun entry => entry.1.id
  let droppedForBudget := !excludedIds.isEmpty
  ⟨includedIds,excludedIds,filled.2,droppedForBudget,if droppedForBudget then some .dropOldest else none⟩

def includeAll : LaneFill :=
  ⟨items.map ContextLaneItemInput.id,[],
    (items.map fun item => countContextTokens item.text tokenAccounting).sum,false,none⟩

def selectByEvictionPolicy : ContextEvictionPolicy → LaneFill
  | .none => includeAll tokenAccounting items
  | .dropOldest => selectNewestByTokenBudget tokenBudget tokenAccounting items
  | .dropLowestScore =>
    selectScoredByTokenBudget localeCompare tokenBudget tokenAccounting items .dropLowestScore
  | .summarizeThenDrop =>
    selectScoredByTokenBudget localeCompare tokenBudget tokenAccounting items .dropLowestScore

end Fill

def pressureFor (tokens : Nat) (cap : ℚ) : ContextBudgetPressure :=
  if cap ≤ 0 then if tokens > 0 then .exceeded else .low
  else
    let ratio := tokens / cap
    if ratio ≥ 1 then .exceeded
    else if ratio ≥ 85 / 100 then .high
    else if ratio ≥ 60 / 100 then .moderate
    else .low

structure ContextLaneDiagnostics where
  laneId : ContextLaneId
  estimatedTokens : Nat
  includedItems : Nat
  excludedItems : Nat
  budgetPressure : ContextBudgetPressure
  compactionReason : Option CompactionReason

structure AllocatedContextLane where
  laneId : ContextLaneId
  includedItemIds : List Text
  excludedItemIds : List Text
  estimatedTokens : Nat
  diagnostics : ContextLaneDiagnostics

def laneDiagnostics (laneId : ContextLaneId) (fill : LaneFill) (cap : ℚ) : ContextLaneDiagnostics :=
  ⟨laneId,fill.tokens,fill.includedIds.length,fill.excludedIds.length,pressureFor fill.tokens cap,fill.compactionReason⟩

def toAllocatedLane (laneId : ContextLaneId) (fill : LaneFill) (cap : ℚ) : AllocatedContextLane :=
  ⟨laneId,fill.includedIds,fill.excludedIds,fill.tokens,laneDiagnostics laneId fill cap⟩

structure PlannedLane where
  row : ContextLaneBudget
  items : List ContextLaneItemInput

/-- A later lane of one name replaces the earlier. -/
def itemsByLane (lanes : List ContextLaneInput) : ContextLaneId → Option (List ContextLaneItemInput) :=
  lanes.foldl (fun byLane lane => Function.update byLane lane.laneId (some lane.items)) fun _ => none

def planLanes (input : AllocateContextInput) : List PlannedLane :=
  input.budget.lanes.filterMap fun row =>
    (itemsByLane input.lanes row.laneId).map fun items => ⟨row,items⟩

def isNonEvictable (row : ContextLaneBudget) : Bool := row.eviction = .none

def evictionOrder (a b : PlannedLane) : Bool :=
  let byPriority := a.row.priority - b.row.priority
  if byPriority ≠ 0 then byPriority ≤ 0
  else contextLaneIds.idxOf a.row.laneId ≤ contextLaneIds.idxOf b.row.laneId

abbrev LaneFills := ContextLaneId → Option LaneFill

section Plan

variable (localeCompare : LocaleCompare) (tokenAccounting : ContextTokenAccounting)

def fillLane (remaining : ℚ) (lane : PlannedLane) : LaneFill :=
  let cap := min lane.row.maxTokens remaining
  let fill := selectByEvictionPolicy localeCompare cap tokenAccounting lane.items lane.row.eviction
  if !fill.excludedIds.isEmpty && fill.tokens = 0 then {fill with compactionReason := some .budget}
  else fill

def fillStep (filled : LaneFills × ℚ) (lane : PlannedLane) : LaneFills × ℚ :=
  let fill := fillLane localeCompare tokenAccounting filled.2 lane
  ⟨Function.update filled.1 lane.row.laneId (some fill),filled.2 - fill.tokens⟩

def fillEvictableLanes (lanes : List PlannedLane) (budgetAfterReserved : ℚ) : LaneFills :=
  ((lanes.mergeSort evictionOrder).foldl (fillStep localeCompare tokenAccounting)
    ⟨fun _ => none,max 0 budgetAfterReserved⟩).1

structure LaneFillResult where
  fills : LaneFills
  reservedTokens : Nat
  nonEvictableOverflow : Bool

structure Reserving where
  fills : LaneFills
  reservedTokens : Nat
  nonEvictableOverflow : Bool
  evictable : List PlannedLane

def reserveStep (reserving : Reserving) (lane : PlannedLane) : Reserving :=
  if isNonEvictable lane.row then
    let fill := includeAll tokenAccounting lane.items
    {reserving with
      fills := Function.update reserving.fills lane.row.laneId (some fill)
      reservedTokens := reserving.reservedTokens + fill.tokens
      nonEvictableOverflow :=
        reserving.nonEvictableOverflow || (fill.tokens : ℚ) > lane.row.maxTokens}
  else {reserving with evictable := reserving.evictable ++ [lane]}

def buildLaneFills (planned : List PlannedLane) (effectiveBudget : ℚ) : LaneFillResult :=
  let reserving := planned.foldl (reserveStep tokenAccounting) ⟨fun _ => none,0,false,[]⟩
  let evictableFills := fillEvictableLanes localeCompare tokenAccounting reserving.evictable
    (effectiveBudget - reserving.reservedTokens)
  ⟨fun laneId => (evictableFills laneId).or (reserving.fills laneId),reserving.reservedTokens,
    reserving.nonEvictableOverflow⟩

end Plan

def capForLane (budget : ContextBudget) (laneId : ContextLaneId) : ℚ :=
  match budget.lanes.find? fun row => row.laneId = laneId with
  | some row => row.maxTokens
  | none => 0

def orderResults (budget : ContextBudget) (fills : LaneFills) : List AllocatedContextLane :=
  contextLaneIds.filterMap fun laneId =>
    (fills laneId).map fun fill => toAllocatedLane laneId fill (capForLane budget laneId)

structure ContextAssemblyDiagnostics where
  profile : ContextProfile
  totalEstimatedTokens : Nat
  budgetPressure : ContextBudgetPressure
  lanes : List ContextLaneDiagnostics
  orderedForRecency : Bool

structure AllocateContextResult where
  lanes : List AllocatedContextLane
  diagnostics : ContextAssemblyDiagnostics
  totalEstimatedTokens : Nat

def allocateContext (localeCompare : LocaleCompare) (input : AllocateContextInput) :
    AllocateContextResult :=
  let tokenAccounting := resolveContextTokenAccounting input.profile
  let activeProfile := {input.profile with tokenAccounting := some tokenAccounting}
  let effectiveBudget := activeProfile.effectiveInputBudget
  let filled := buildLaneFills localeCompare tokenAccounting (planLanes input) effectiveBudget
  let lanes := orderResults input.budget filled.fills
  let totalEstimatedTokens := (lanes.map AllocatedContextLane.estimatedTokens).sum
  let overflow := filled.nonEvictableOverflow || (filled.reservedTokens : ℚ) > effectiveBudget
  let budgetPressure := if overflow then .exceeded else pressureFor totalEstimatedTokens effectiveBudget
  ⟨lanes,⟨activeProfile,totalEstimatedTokens,budgetPressure,
    lanes.map AllocatedContextLane.diagnostics,true⟩,totalEstimatedTokens⟩

end Keiko.ContextBudget
