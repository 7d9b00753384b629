import Keiko.ContextAllocationPlan

/-! The compaction records of an allocation. They are counted over from the lanes of the request, and agree
with what the allocator says of each lane that lost items. -/
namespace Keiko.ContextBudget
open Keiko.Library List

section Records

variable (lanes : List ContextLaneInput) (items : List ContextLaneItemInput)

def tokensForItems (tokenAccounting : ContextTokenAccounting) : ℕ :=
  (items.map fun item => countContextTokens item.text tokenAccounting).sum

def laneItems (laneId : ContextLaneId) : List ContextLaneItemInput :=
  ((lanes.find? fun lane => lane.laneId = laneId).map ContextLaneInput.items).getD []

/-- Of two items with one id the map of them holds the later. -/
def itemsByIds (ids : List Text) : List ContextLaneItemInput :=
  ids.filterMap fun id => items.reverse.find? fun item => item.id = id

structure ContextRehydrationHandle where
  laneId : ContextLaneId
  itemCount : ℕ
  approxTokens : ℤ

structure ContextCompactionRecord where
  laneId : ContextLaneId
  reason : CompactionReason
  itemsBefore : ℕ
  itemsAfter : ℕ
  tokensBefore : ℕ
  tokensAfter : ℕ
  orderedAt : ℚ
  rehydration : ContextRehydrationHandle

end Records

section Agreement

variable {lanes : List ContextLaneInput} {items kept : List ContextLaneItemInput}

/-- What a record says of a lane of the allocation. -/
structure Agrees (lanes : List ContextLaneInput) (tokenAccounting : ContextTokenAccounting)
    (lane : AllocatedContextLane) (record : ContextCompactionRecord) : Prop where
  laneId : record.laneId = lane.laneId
  before : record.itemsBefore = lane.includedItemIds.length + lane.excludedItemIds.length
  itemsAfter : record.itemsAfter = lane.includedItemIds.length
  tokensAfter : record.tokensAfter = lane.estimatedTokens
  itemCount : record.rehydration.itemCount = lane.excludedItemIds.length
  approxTokens : record.rehydration.approxTokens = record.tokensBefore - record.tokensAfter
  tokens : record.tokensBefore = record.tokensAfter +
    tokensForItems (itemsByIds (laneItems lanes lane.laneId) lane.excludedItemIds) tokenAccounting

end Agreement

end Keiko.ContextBudget
