import Keiko.ToolInvocationTrace

/-! Evicting settled identities, compared with a registry that holds them. The held registry archives
what the other evicts: its tombstones and index entries stay and only count no longer. Whenever the
filter finds no key but those of its own kind that were evicted, both registries answer alike, apart
from what only the tombstone knew. -/
namespace Keiko.ToolInvocation
open Keiko.Library Keiko.Runtime List

section Held

/-- A registry that evicts nothing, with the identities that another one in its place evicted. -/
structure HeldRegistry where
  registry : Registry
  archived : List InvocationIdentity

variable (hash : Text → UInt32 × UInt32)

def HeldRegistry.empty : HeldRegistry := ⟨.empty,[]⟩

def evictChosen (chosen : Text → Bool) (runId : Text) (now : ℤ) (reg : Registry) : Registry :=
  let filter := (reg.evicted.get? runId).getD .empty
  let (reg,filter,evictedCount) := (reg.tombstones.entries.filter fun item => chosen item.1).foldl
    (evictTombstone hash runId now) (reg,filter,0)
  if evictedCount = 0 then reg
  else { reg with evicted := reg.evicted.set runId filter }

theorem evictSettled_eq (runId : Text) (now : ℤ) (reg : Registry) :
    evictSettled hash runId now reg = evictChosen hash (fun _ => true) runId now reg := by
  rw [evictSettled,evictChosen,filter_true]

def isArchived (name : InvocationIdentity → Text) (archived : List InvocationIdentity) (key : Text) :
    Bool := (archived.map name).contains key

def partsOf (runId key : Text) : InvocationIdentity :=
  ⟨runId,(key.splitOn nul).getD 1 [],(key.splitOn nul).getD 2 []⟩

def settledIdentities (chosen : Text → Bool) (runId : Text) (now : ℤ) (held : HeldRegistry) : List InvocationIdentity :=
  ((held.registry.tombstones.entries.filter fun item =>
      !isArchived identity held.archived item.1 && chosen item.1 &&
        evicts runId now held.registry item).map fun item => partsOf runId item.1)

def archiveChosen (chosen : Text → Bool) (runId : Text) (now : ℤ) (held : HeldRegistry) :
    HeldRegistry :=
  { held with archived := held.archived ++ settledIdentities chosen runId now held }

def heldIdentityCount (held : HeldRegistry) (runId : Text) : Nat :=
  held.registry.actionIndex.total fun action key =>
    if !isArchived actionIdentity held.archived action then (if keyForRun key runId then 1 else 0) else 0

def heldRoom (request : CodingToolInvocationStage) (now : ℤ) (held : HeldRegistry) : HeldRegistry :=
  if maxIdentities ≤ heldIdentityCount held request.runId then archiveChosen (fun _ => true) request.runId now held
  else held

def heldCapacity (request : CodingToolInvocationStage) (held : HeldRegistry) : Bool :=
  decide (runEntryCount held.registry request.runId < maxLivePerRun) &&
    decide (heldIdentityCount held request.runId < maxIdentities) &&
    decide (held.registry.totalBytes + request.payload.length ≤ maxAggregateBytes)

def heldStage (request : CodingToolInvocationStage) (now : ℤ) (held : HeldRegistry) : HeldRegistry × StageResult :=
  let held := { held with registry := expire now held.registry }
  if isRevoked held.registry request.runId then (held,.revoked)
  else if !validStage request then (held,.invalid)
  else match collision hash request held.registry with
    | some refused => (held,refused)
    | none =>
      let held := heldRoom request now held
      if heldCapacity request held then ({ held with registry := add request now held.registry },.staged)
      else (held,.busy)

/-- A call, or an eviction of chosen identities at any moment. -/
inductive Move where
  | call (event : Event)
  | evict (chosen : List Text) (runId : Text) (now : ℤ)

def archiveWithout (runId : Text) (archived : List InvocationIdentity) : List InvocationIdentity :=
  archived.filter (·.runId != runId)

def heldCall (held : HeldRegistry) (event : Event) : HeldRegistry :=
  match event.call with
  | .stage request => (heldStage hash request event.now held).1
  | .revokeRun runId =>
    ⟨step hash held.registry event,if held.registry.revoked.contains runId then held.archived
      else archiveWithout runId held.archived⟩
  | .dispose =>
    ⟨step hash held.registry event,if held.registry.disposed then held.archived else []⟩
  | _ => { held with registry := step hash held.registry event }

def HeldRegistry.move (held : HeldRegistry) : Move → HeldRegistry
  | .call event => heldCall hash held event
  | .evict chosen runId now => archiveChosen chosen.contains runId now held

def Registry.move (reg : Registry) : Move → Registry
  | .call event => step hash reg event
  | .evict chosen runId now => evictChosen hash chosen.contains runId now reg

def heldRun (moves : List Move) : HeldRegistry := moves.foldl (HeldRegistry.move hash) .empty

def evictingRun (moves : List Move) : Registry := moves.foldl (Registry.move hash) .empty

end Held

section Conditions

variable (hash : Text → UInt32 × UInt32) (held : HeldRegistry) (reg : Registry)

/-- What the filter finds of an asked identity was evicted, whatever kind of key it was. -/
def NoFalsePositive (request : InvocationIdentity) : Prop :=
  ∀ name ∈ [identity,actionIdentity,idempotencyIdentity], wasEvicted hash reg request.runId (name request) = true →
      ∃ evicted ∈ held.archived, evicted.runId = request.runId ∧
        ∃ other ∈ [identity,actionIdentity,idempotencyIdentity], other evicted = name request

/-- What the filter finds of an asked identity was evicted as a key of the same kind. -/
def Exact (request : InvocationIdentity) : Prop :=
  ∀ name ∈ [identity,actionIdentity,idempotencyIdentity], wasEvicted hash reg request.runId (name request) = true →
      ∃ evicted ∈ held.archived, name evicted = name request

/-- What is asked of the filter holds of an identity that a move stages, and run ids are plain. -/
def Asks (asked : HeldRegistry → Registry → InvocationIdentity → Prop) : Move → Prop
  | .call ⟨_,.stage request⟩ => asked held reg request.toInvocationIdentity
  | .call ⟨_,.revokeRun runId⟩ => nul ∉ runId
  | .call _ => True
  | .evict _ runId _ => nul ∉ runId

def Asking (asked : HeldRegistry → Registry → InvocationIdentity → Prop) : HeldRegistry → Registry → List Move → Prop
  | _, _, [] => True
  | held, reg, move :: moves => Asks held reg asked move ∧
      Asking asked (held.move hash move) (reg.move hash move) moves

end Conditions

section Mirror

variable {hash : Text → UInt32 × UInt32} {archived : List InvocationIdentity} {held reg : Registry}
  {key : Text} {kind : TombstoneKind} {e : ClaimedEntry}

/-- The registry lacks what is archived of the tombstones and indexes that the held one has. -/
structure Mirror (archived : List InvocationIdentity) (held reg : Registry) : Prop where
  entries : reg.entries = held.entries
  claimed : reg.claimed = held.claimed
  revoked : reg.revoked = held.revoked
  totalBytes : reg.totalBytes = held.totalBytes
  disposed : reg.disposed = held.disposed
  tombstones : reg.tombstones = held.tombstones.filter fun key _ => !isArchived identity archived key
  actionIndex : reg.actionIndex = held.actionIndex.filter fun key _ => !isArchived actionIdentity archived key
  idempotencyIndex : reg.idempotencyIndex =
    held.idempotencyIndex.filter fun key _ => !isArchived idempotencyIdentity archived key

theorem isArchived_iff {name : InvocationIdentity → Text} :
    isArchived name archived key = true ↔ ∃ evicted ∈ archived, name evicted = key := by
  rw [isArchived,contains_iff_mem,mem_map]

theorem Mirror.remember (mirror : Mirror archived held reg) {digest : Text} {expiresAt : ℤ} (fresh : isArchived identity archived key = false) :
    Mirror archived (remember key digest expiresAt kind held) (remember key digest expiresAt kind reg) := by
  have same : reg.tombstones.has key = held.tombstones.has key := by
    rw [OrderedMap.has,OrderedMap.has,mirror.tombstones,OrderedMap.get?_filter,fresh]
    cases held.tombstones.get? key <;> rfl
  rw [ToolInvocation.remember,ToolInvocation.remember,same]
  split
  · exact mirror
  · refine { mirror with tombstones := ?_ }
    change reg.tombstones.set _ _ = (held.tombstones.set _ _).filter _
    rw [OrderedMap.filter_set (fun key => !isArchived identity archived key) (by rw [fresh]; rfl),mirror.tombstones]

theorem Mirror.dropLive (mirror : Mirror archived held reg) {e : Entry} (fresh : isArchived identity archived key = false) :
    Mirror archived (dropLive key e kind held) (dropLive key e kind reg) := by
  apply Mirror.remember _ fresh
  refine { mirror with entries := ?_, totalBytes := ?_ }
  · change reg.entries.delete key = held.entries.delete key
    rw [mirror.entries]
  · change reg.totalBytes - _ = held.totalBytes - _
    rw [mirror.totalBytes]

theorem Mirror.dropClaimed (mirror : Mirror archived held reg) (fresh : isArchived identity archived key = false) :
    Mirror archived (dropClaimed key e kind held) (dropClaimed key e kind reg) := by
  apply Mirror.remember _ fresh
  refine { mirror with claimed := ?_, totalBytes := ?_ }
  · change reg.claimed.delete key = held.claimed.delete key
    rw [mirror.claimed]
  · change reg.totalBytes - _ = held.totalBytes - _
    rw [mirror.totalBytes]

theorem Mirror.foldl {α : Type} {xs : List α} {step : Registry → α → Registry} (mirror : Mirror archived held reg)
    (each : ∀ item ∈ xs, ∀ held reg, Mirror archived held reg → Mirror archived (step held item) (step reg item)) :
    Mirror archived (xs.foldl step held) (xs.foldl step reg) := by
  induction xs generalizing held reg with
  | nil => exact mirror
  | cons item xs ih =>
    apply ih
    · exact each item mem_cons_self _ _ mirror
    · exact fun other mem => each other (mem_cons_of_mem _ mem)

def Settled (archived : List InvocationIdentity) (held : Registry) : Prop :=
  ∀ evicted ∈ archived, held.entries.get? (identity evicted) = none ∧ held.claimed.get? (identity evicted) = none

theorem Settled.live (settled : Settled archived held) {e : Entry}
    (hit : held.entries.get? key = some e) : isArchived identity archived key = false := by
  rw [← Bool.not_eq_true,isArchived_iff]
  intro ⟨evicted,mem,same⟩
  have idle := (settled evicted mem).1
  rw [same,hit] at idle
  cases idle

theorem Settled.claimed (settled : Settled archived held)
    (hit : held.claimed.get? key = some e) : isArchived identity archived key = false := by
  rw [← Bool.not_eq_true,isArchived_iff]
  intro ⟨evicted,mem,same⟩
  have idle := (settled evicted mem).2
  rw [same,hit] at idle
  cases idle

theorem Mirror.dropEntries (mirror : Mirror archived held reg)
    (settled : Settled archived held) (drops : Text → Entry → Bool) (kind : TombstoneKind) :
    Mirror archived (dropEntries drops kind held) (dropEntries drops kind reg) := by
  rw [ToolInvocation.dropEntries,ToolInvocation.dropEntries,mirror.entries]
  apply mirror.foldl
  intro item mem held' reg' mirror'
  split
  · exact mirror'.dropLive (settled.live (OrderedMap.mem_entries.mp mem))
  · exact mirror'

theorem Mirror.dropClaims (mirror : Mirror archived held reg)
    (settled : Settled archived held) (drops : Text → ClaimedEntry → Bool) (kind : TombstoneKind) :
    Mirror archived (dropClaims drops kind held) (dropClaims drops kind reg) := by
  rw [ToolInvocation.dropClaims,ToolInvocation.dropClaims,mirror.claimed]
  apply mirror.foldl
  intro item mem held' reg' mirror'
  split
  · exact mirror'.dropClaimed (settled.claimed (OrderedMap.mem_entries.mp mem))
  · exact mirror'

theorem Dropped.settled {drops : Text → Entry → Bool} {claims : Text → ClaimedEntry → Bool}
    {held' : Registry} (dropped : Dropped drops claims held held') (settled : Settled archived held) :
    Settled archived held' := by
  intro evicted mem
  obtain ⟨idle,unclaimed⟩ := settled evicted mem
  refine ⟨?_,?_⟩
  · rw [← OrderedMap.not_mem_keys,OrderedMap.mem_keys]
    intro ⟨e,hit⟩
    rw [(dropped.live _ e hit).1] at idle
    cases idle
  · rw [← OrderedMap.not_mem_keys,OrderedMap.mem_keys]
    intro ⟨e,hit⟩
    rw [(dropped.claimed _ e hit).1] at unclaimed
    cases unclaimed

end Mirror

section Evicting

variable {hash : Text → UInt32 × UInt32} {archived : List InvocationIdentity} {held reg : Registry}

theorem isArchived_append (name : InvocationIdentity → Text) (key : Text) (more : List InvocationIdentity) :
    isArchived name (archived ++ more) key = (isArchived name archived key || isArchived name more key) := by
  rw [isArchived,isArchived,isArchived,map_append,contains_append]

theorem Mirror.forget (mirror : Mirror archived held reg) (req : InvocationIdentity) :
    Mirror (archived ++ [req]) held (forgetIdentity req reg) := by
  have deleted {α : Type} (name : InvocationIdentity → Text) (map : OrderedMap Text α) :
      (map.filter fun key _ => !isArchived name archived key).delete (name req) =
        map.filter fun key _ => !isArchived name (archived ++ [req]) key := by
    rw [OrderedMap.delete,OrderedMap.filter_filter]
    apply OrderedMap.filter_congr
    intro key _ _
    rw [isArchived_append,Bool.not_or]
    congr 1
    rw [Bool.eq_iff_iff]
    simp [isArchived]
  refine { mirror with tombstones := ?_, actionIndex := ?_, idempotencyIndex := ?_ }
  · change reg.tombstones.delete _ = _
    rw [mirror.tombstones,deleted]
  · change reg.actionIndex.delete _ = _
    rw [mirror.actionIndex,deleted]
  · change reg.idempotencyIndex.delete _ = _
    rw [mirror.idempotencyIndex,deleted]

theorem evict_loop {runId : Text} (run : nul ∉ runId) (now : ℤ) {xs : List (Text × Tombstone)}
    (named : ∀ item ∈ xs, ∃ req : InvocationIdentity, req.Plain ∧ identity req = item.1)
    (mirror : Mirror archived held reg) (filter : CodingToolReplayFilter) (count : Nat) :
    let gone := (xs.filter (evicts runId now held)).map fun item => partsOf runId item.1
    let eviction := xs.foldl (evictTombstone hash runId now) (reg,filter,count)
    Mirror (archived ++ gone) held eviction.1 ∧ eviction.1.evicted = reg.evicted ∧
      (∀ v, filter.has hash v = true → eviction.2.1.has hash v = true) ∧
      (∀ evicted ∈ gone, ∀ name ∈ [identity,actionIdentity,idempotencyIdentity],
        eviction.2.1.has hash (name evicted) = true) ∧
      eviction.2.2 = count + gone.length ∧ (gone = [] → eviction.1 = reg) := by
  induction xs generalizing archived reg filter count with
  | nil =>
    simp only [filter_nil,map_nil,append_nil,foldl_nil]
    exact ⟨mirror,trivial,fun _ has => has,by simp,rfl,fun _ => trivial⟩
  | cons item xs ih =>
    obtain ⟨req,plain,own⟩ := named item mem_cons_self
    have rest := fun other mem => named other (mem_cons_of_mem _ mem)
    have same : evicts runId now reg item = evicts runId now held item := by
      rw [evicts,evicts,mirror.entries,mirror.claimed]
    intro gone eviction
    have first := @evictTombstone_eq hash reg req item runId run now filter count plain own
    rw [same] at first
    cases due : evicts runId now held item with
    | false =>
      have steps : eviction = xs.foldl (evictTombstone hash runId now) (reg,filter,count) := by
        change (item :: xs).foldl _ _ = _
        rw [foldl_cons,first,due]
        rfl
      have left : gone = (xs.filter (evicts runId now held)).map fun item => partsOf runId item.1 := by
        change ((item :: xs).filter _).map _ = _
        rw [filter_cons_of_neg (by rw [due]; exact Bool.false_ne_true)]
      rw [steps,left]
      exact ih rest mirror filter count
    | true =>
      have run_owned : req.runId = runId := by
        obtain ⟨owned,_⟩ := evicts_iff.mp due
        rw [← own] at owned
        exact keyForRun_identity plain run owned
      have parts : partsOf runId item.1 = req := by
        rw [partsOf,← own,splitOn_identity plain,← run_owned]
        rfl
      have steps : eviction = xs.foldl (evictTombstone hash runId now)
          (forgetIdentity req reg,addIdentity hash req filter,count + 1) := by
        change (item :: xs).foldl _ _ = _
        rw [foldl_cons,first,due]
        rfl
      have left : gone = req :: (xs.filter (evicts runId now held)).map fun item => partsOf runId item.1 := by
        change ((item :: xs).filter _).map _ = _
        rw [filter_cons_of_pos due,map_cons,parts]
      obtain ⟨mirrored,evicted,grows,has,counted,_⟩ := ih rest (mirror.forget req)
        (addIdentity hash req filter) (count + 1)
      rw [steps,left]
      rw [append_assoc,singleton_append] at mirrored
      refine ⟨mirrored,evicted,fun v held => grows v (addIdentity_has held),?_,?_,?_⟩
      · intro other mem name kind
        rcases mem_cons.mp mem with rfl | post
        · apply grows
          simp only [mem_cons,not_mem_nil,or_false] at kind
          obtain rfl | rfl | rfl := kind
          · exact addIdentity_self
          · exact Bloom.has_add Bloom.has_add_self
          · exact Bloom.has_add_self
        · exact has other post name kind
      · rw [counted,length_cons]
        omega
      · intro none_gone
        cases none_gone

/-- The registry behaves like the held one, and its filter tells of every archived identity. -/
structure Simulates (hash : Text → UInt32 × UInt32) (held : HeldRegistry) (reg : Registry) :
    Prop where
  kept : Kept held.registry
  mirror : Mirror held.archived held.registry reg
  settled : Settled held.archived held.registry
  plain : ∀ evicted ∈ held.archived, evicted.Plain
  buried : ∀ evicted ∈ held.archived, ∃ tombstone, held.registry.tombstones.get? (identity evicted) = some tombstone
  unevicted : held.registry.evicted = .empty
  filtered : ∀ evicted ∈ held.archived, ∀ name ∈ [identity,actionIdentity,idempotencyIdentity],
    wasEvicted hash reg evicted.runId (name evicted) = true

theorem Simulates.evict {held : HeldRegistry} (sim : Simulates hash held reg)
    {runId : Text} (run : nul ∉ runId) (chosen : Text → Bool) (now : ℤ) :
    Simulates hash (archiveChosen chosen runId now held) (evictChosen hash chosen runId now reg) := by
  obtain ⟨kept,mirror,settled,plain,buried,unevicted,filtered⟩ := sim
  have src : (reg.tombstones.entries.filter fun item => chosen item.1) =
      held.registry.tombstones.entries.filter fun item =>
        !isArchived identity held.archived item.1 && chosen item.1 := by
    rw [mirror.tombstones]
    change (held.registry.tombstones.entries.filter _).filter _ = _
    rw [filter_filter]
    apply filter_congr
    intro item _
    exact Bool.and_comm _ _
  have gone : ((reg.tombstones.entries.filter fun item => chosen item.1).filter
      (evicts runId now held.registry)).map (fun item => partsOf runId item.1) =
        settledIdentities chosen runId now held := by
    rw [src,filter_filter,settledIdentities]
    congr 1
    apply filter_congr
    intro item _
    exact Bool.and_comm _ _
  have named : ∀ item ∈ reg.tombstones.entries.filter (fun item => chosen item.1),
      ∃ req : InvocationIdentity, req.Plain ∧ identity req = item.1 := by
    intro item mem
    rw [src,mem_filter] at mem
    obtain ⟨req,whole,same,_⟩ := kept.tombstones item.1 item.2 (OrderedMap.mem_entries.mp mem.1)
    exact ⟨req,whole,same⟩
  have moved : ∀ evicted ∈ settledIdentities chosen runId now held, evicted.Plain ∧
      evicted.runId = runId ∧ held.registry.entries.get? (identity evicted) = none ∧
        held.registry.claimed.get? (identity evicted) = none ∧ ∃ tombstone,
          held.registry.tombstones.get? (identity evicted) = some tombstone := by
    intro evicted mem
    obtain ⟨item,inside,rfl⟩ := mem_map.mp mem
    rw [mem_filter,Bool.and_eq_true] at inside
    obtain ⟨here,_,due⟩ := inside
    obtain ⟨owned,_,idle,unclaimed⟩ := evicts_iff.mp due
    have stored := OrderedMap.mem_entries.mp here
    obtain ⟨req,whole,same,_⟩ := kept.tombstones item.1 item.2 stored
    rw [← same] at owned
    have own := keyForRun_identity whole run owned
    have parts : partsOf runId item.1 = req := by
      rw [partsOf,← same,splitOn_identity whole,← own]
      rfl
    rw [parts,same]
    exact ⟨whole,own,idle,unclaimed,item.2,stored⟩
  have loop := @evict_loop hash held.archived held.registry reg runId run now _ named mirror
    ((reg.evicted.get? runId).getD .empty) 0
  simp only [gone] at loop
  have archiving (reg' : Registry) (mirrored : Mirror (held.archived ++
      settledIdentities chosen runId now held) held.registry reg')
      (known : ∀ evicted ∈ held.archived ++ settledIdentities chosen runId now held,
        ∀ name ∈ [identity,actionIdentity,idempotencyIdentity],
          wasEvicted hash reg' evicted.runId (name evicted) = true) :
      Simulates hash (archiveChosen chosen runId now held) reg' := by
    refine ⟨kept,mirrored,?_,?_,?_,unevicted,known⟩
    · intro evicted mem
      rcases mem_append.mp mem with old | new
      · exact settled evicted old
      · obtain ⟨_,_,idle,unclaimed,_⟩ := moved evicted new
        exact ⟨idle,unclaimed⟩
    · intro evicted mem
      rcases mem_append.mp mem with old | new
      · exact plain evicted old
      · exact (moved evicted new).1
    · intro evicted mem
      rcases mem_append.mp mem with old | new
      · exact buried evicted old
      · exact (moved evicted new).2.2.2.2
  rw [evictChosen]
  simp only
  generalize (reg.tombstones.entries.filter fun item => chosen item.1).foldl
    (evictTombstone hash runId now) (reg,(reg.evicted.get? runId).getD .empty,0) = eviction at loop
  obtain ⟨cur,filter,count⟩ := eviction
  obtain ⟨mirrored,same,grows,has,counted,untouched⟩ := loop
  simp only at mirrored same grows has counted untouched
  split
  next none_evicted =>
    have nothing : settledIdentities chosen runId now held = [] := by
      apply eq_nil_of_length_eq_zero
      rw [zero_add] at counted
      exact counted.symm.trans none_evicted
    apply archiving _ mirrored
    rw [untouched nothing,nothing,append_nil]
    exact filtered
  next =>
    apply archiving
    · exact { mirrored with }
    · intro evicted mem name kind
      rw [wasEvicted]
      simp only
      by_cases own : evicted.runId = runId
      · rw [own,OrderedMap.get?_set_self]
        rcases mem_append.mp mem with old | new
        · have pre := filtered evicted old name kind
          rw [wasEvicted,own] at pre
          apply grows
          cases found : reg.evicted.get? runId with
          | none =>
            rw [found] at pre
            cases pre
          | some a =>
            rw [found] at pre
            exact pre
        · exact has evicted new name kind
      · rw [OrderedMap.get?_set_of_ne _ own,same]
        rcases mem_append.mp mem with old | new
        · exact filtered evicted old name kind
        · exact absurd (moved evicted new).2.1 own

end Evicting

section Calls

variable {hash : Text → UInt32 × UInt32} {held : HeldRegistry} {reg : Registry}

theorem Same.wasEvicted {reg' : Registry} (same : Same reg reg') (runId v : Text) :
    wasEvicted hash reg' runId v = wasEvicted hash reg runId v := by
  rw [ToolInvocation.wasEvicted,ToolInvocation.wasEvicted,same.evicted]

theorem Simulates.frame (sim : Simulates hash held reg) {held' reg' : Registry}
    (kept : Kept held') (mirror : Mirror held.archived held' reg')
    (settled : Settled held.archived held')
    (buried : ∀ key tombstone, held.registry.tombstones.get? key = some tombstone →
      ∃ tombstone', held'.tombstones.get? key = some tombstone')
    (unevicted : held'.evicted = held.registry.evicted)
    (filters : reg'.evicted = reg.evicted) :
    Simulates hash { held with registry := held' } reg' := by
  refine ⟨kept,mirror,settled,sim.plain,?_,unevicted.trans sim.unevicted,?_⟩
  · intro evicted mem
    obtain ⟨tombstone,hit⟩ := sim.buried evicted mem
    exact buried _ _ hit
  · intro evicted mem name kind
    rw [wasEvicted,filters]
    exact sim.filtered evicted mem name kind

theorem Same.foldl {α : Type} {step : Registry → α → Registry}
    (each : ∀ reg item, Same reg (step reg item)) (xs : List α) (reg : Registry) :
    Same reg (xs.foldl step reg) := by
  induction xs generalizing reg with
  | nil => exact Same.refl reg
  | cons item xs ih => exact (each reg item).trans (ih _)

theorem dropEntries_same (drops : Text → Entry → Bool) (kind : TombstoneKind) (reg : Registry) :
    Same reg (dropEntries drops kind reg) := by
  apply Same.foldl
  intro reg item
  split
  · exact dropLive_same
  · exact Same.refl reg

theorem dropClaims_same (drops : Text → ClaimedEntry → Bool) (kind : TombstoneKind)
    (reg : Registry) : Same reg (dropClaims drops kind reg) := by
  apply Same.foldl
  intro reg item
  split
  · exact dropClaimed_same
  · exact Same.refl reg

theorem expire_same (now : ℤ) (reg : Registry) : Same reg (expire now reg) :=
  (dropEntries_same _ _ reg).trans (dropClaims_same _ _ _)

theorem Simulates.drop (sim : Simulates hash held reg) (drops : Text → Entry → Bool)
    (claims : Text → ClaimedEntry → Bool) (kind : TombstoneKind) :
    Simulates hash { held with registry := dropClaims claims kind (dropEntries drops kind held.registry) }
      (dropClaims claims kind (dropEntries drops kind reg)) := by
  have a := @dropEntries_dropped held.registry kind sim.kept drops
  have dropped := a.trans (@dropClaims_dropped _ kind a.kept claims)
  have mirrored := sim.mirror.dropEntries sim.settled drops kind
  apply sim.frame dropped.kept
  · exact mirrored.dropClaims (a.settled sim.settled) claims kind
  · exact dropped.settled sim.settled
  · exact fun key tombstone hit => ⟨tombstone,dropped.buried key tombstone hit⟩
  · exact dropped.same.evicted
  · exact ((dropEntries_same drops kind reg).trans (dropClaims_same claims kind _)).evicted

theorem Simulates.expire (sim : Simulates hash held reg) (now : ℤ) :
    Simulates hash { held with registry := expire now held.registry } (expire now reg) :=
  sim.drop _ _ _

theorem Simulates.indexed (sim : Simulates hash held reg) {evicted : InvocationIdentity}
    (mem : evicted ∈ held.archived) :
    held.registry.actionIndex.get? (actionIdentity evicted) = some (identity evicted) ∧
      held.registry.idempotencyIndex.get? (idempotencyIdentity evicted) = some (identity evicted) := by
  obtain ⟨tombstone,hit⟩ := sim.buried evicted mem
  obtain ⟨req,_,same,indexed⟩ := sim.kept.tombstones _ tombstone hit
  rw [identity_inj (sim.plain evicted mem) same] at indexed
  exact indexed

theorem Simulates.archived_iff (sim : Simulates hash held reg) (req : InvocationIdentity) :
    isArchived identity held.archived (identity req) = true ↔ req ∈ held.archived := by
  rw [isArchived_iff]
  constructor
  · intro ⟨evicted,mem,same⟩
    rw [identity_inj (sim.plain evicted mem) same.symm]
    exact mem
  · exact fun mem => ⟨req,mem,rfl⟩

theorem Simulates.wasEvicted_iff (sim : Simulates hash held reg)
    {req : InvocationIdentity} (exact_hits : Exact hash held reg req) :
    wasEvicted hash reg req.runId (identity req) = true ↔ req ∈ held.archived := by
  constructor
  · intro hit
    obtain ⟨evicted,mem,same⟩ := exact_hits identity mem_cons_self hit
    rw [identity_inj (sim.plain evicted mem) same.symm]
    exact mem
  · exact fun mem => sim.filtered req mem identity mem_cons_self

theorem Simulates.unfiltered (sim : Simulates hash held reg) (runId v : Text) :
    wasEvicted hash held.registry runId v = false := by
  rw [wasEvicted,sim.unevicted]
  rfl

theorem get?_unarchived {α : Type} {archived : List InvocationIdentity} {name : InvocationIdentity → Text}
    {map shown : OrderedMap Text α} (same : shown = map.filter fun key _ => !isArchived name archived key)
    (key : Text) : shown.get? key = if isArchived name archived key then none else map.get? key := by
  rw [same,OrderedMap.get?_filter]
  cases isArchived name archived key with
  | true => cases map.get? key <;> rfl
  | false => cases map.get? key <;> rfl

theorem Simulates.index (sim : Simulates hash held reg) (key : Text) : reg.actionIndex.get? key =
      if isArchived actionIdentity held.archived key then none
      else held.registry.actionIndex.get? key :=
  get?_unarchived sim.mirror.actionIndex key

theorem Simulates.keys (sim : Simulates hash held reg) (key : Text) : reg.idempotencyIndex.get? key =
      if isArchived idempotencyIdentity held.archived key then none
      else held.registry.idempotencyIndex.get? key :=
  get?_unarchived sim.mirror.idempotencyIndex key

theorem Simulates.tombs (sim : Simulates hash held reg) (key : Text) : reg.tombstones.get? key =
      if isArchived identity held.archived key then none
      else held.registry.tombstones.get? key :=
  get?_unarchived sim.mirror.tombstones key

theorem Simulates.isRevoked (sim : Simulates hash held reg) (runId : Text) :
    isRevoked reg runId = isRevoked held.registry runId := by
  rw [ToolInvocation.isRevoked,ToolInvocation.isRevoked,sim.mirror.disposed,sim.mirror.revoked]

structure Views (hash : Text → UInt32 × UInt32) (archived : List InvocationIdentity)
    (held reg : Registry) : Prop where
  entries : reg.entries = held.entries
  claimed : reg.claimed = held.claimed
  disposed : reg.disposed = held.disposed
  totalBytes : reg.totalBytes = held.totalBytes
  isRevoked : ∀ runId, ToolInvocation.isRevoked reg runId = ToolInvocation.isRevoked held runId
  unfiltered : ∀ runId value, wasEvicted hash held runId value = false
  tombs : ∀ key, reg.tombstones.get? key = if isArchived identity archived key then none else held.tombstones.get? key

theorem Simulates.expire_views (sim : Simulates hash held reg) (now : ℤ) :
    Views hash held.archived (ToolInvocation.expire now held.registry) (ToolInvocation.expire now reg) := by
  have expired := sim.expire now
  exact ⟨expired.mirror.entries,expired.mirror.claimed,expired.mirror.disposed,
    expired.mirror.totalBytes,expired.isRevoked,expired.unfiltered,expired.tombs⟩

theorem collisionOwnership_conflict {actionOwner keyOwner : Option Text} {key : Text}
    (owned : actionOwner ≠ none ∨ keyOwner ≠ none)
    (other : actionOwner ≠ some key ∨ keyOwner ≠ some key) :
    collisionOwnership actionOwner keyOwner key = .conflict := by
  rw [collisionOwnership,if_neg,if_neg]
  · rw [Bool.and_eq_true,decide_eq_true_eq,decide_eq_true_eq,not_and_or]
    exact other
  · rw [Bool.and_eq_true,decide_eq_true_eq,decide_eq_true_eq,not_and_or]
    exact owned

/-- A request that only shares a part with an archived identity is a conflict in both registries. -/
theorem evictedCollision_conflict {req : CodingToolInvocationStage} {v : Text}
    (shared : v = actionIdentity req.toInvocationIdentity ∨
      v = idempotencyIdentity req.toInvocationIdentity)
    (hit : wasEvicted hash reg req.runId v = true) {key : Text}
    (gone : wasEvicted hash reg req.runId key = false) :
    evictedCollision hash req key reg = some .conflict := by
  rw [wasEvicted] at hit gone
  rw [evictedCollision]
  cases filters : reg.evicted.get? req.runId with
  | none =>
    rw [filters] at hit
    cases hit
  | some filter =>
    rw [filters] at hit gone
    simp only [Option.any_some] at hit gone
    simp only
    rw [gone,if_neg Bool.false_ne_true,if_pos]
    rw [Bool.or_eq_true]
    rcases shared with rfl | rfl
    · exact .inl hit
    · exact .inr hit

theorem evictedCollision_none {req : CodingToolInvocationStage} {key : Text}
    (gone : wasEvicted hash reg req.runId key = false)
    (action : wasEvicted hash reg req.runId (actionIdentity req.toInvocationIdentity) = false)
    (idempotency : wasEvicted hash reg req.runId (idempotencyIdentity req.toInvocationIdentity) = false) :
    evictedCollision hash req key reg = none := by
  rw [wasEvicted] at gone action idempotency
  rw [evictedCollision]
  cases filters : reg.evicted.get? req.runId with
  | none => rfl
  | some filter =>
    rw [filters] at gone action idempotency
    simp only [Option.any_some] at gone action idempotency
    simp only
    rw [gone,action,idempotency]
    rfl

theorem Simulates.collision_archived (sim : Simulates hash held reg)
    {req : CodingToolInvocationStage} (mem : req.toInvocationIdentity ∈ held.archived) :
    collision hash req reg = some .replayed ∧ (collision hash req held.registry = some .replayed ∨
        collision hash req held.registry = some .conflict) := by
  obtain ⟨actions,keys⟩ := sim.indexed mem
  obtain ⟨idle,unclaimed⟩ := sim.settled _ mem
  refine ⟨?_,?_⟩
  · have noAction : reg.actionIndex.get? (actionIdentity req.toInvocationIdentity) = none := by
      rw [sim.index,if_pos (isArchived_iff.mpr ⟨_,mem,rfl⟩)]
    have noKey : reg.idempotencyIndex.get? (idempotencyIdentity req.toInvocationIdentity) = none := by
      rw [sim.keys,if_pos (isArchived_iff.mpr ⟨_,mem,rfl⟩)]
    have hit := sim.filtered _ mem identity mem_cons_self
    rw [wasEvicted] at hit
    rw [collision,noAction,noKey]
    change evictedCollision _ _ _ _ = _
    rw [evictedCollision]
    cases filters : reg.evicted.get? req.runId with
    | none =>
      rw [filters] at hit
      cases hit
    | some filter =>
      rw [filters] at hit
      exact if_pos hit
  · have same : collisionOwnership (some (identity req.toInvocationIdentity))
        (some (identity req.toInvocationIdentity)) (identity req.toInvocationIdentity) =
          .same := by
      simp [collisionOwnership]
    rw [collision,actions,keys]
    simp only
    rw [same,idle]
    simp only
    split
    · exact .inl rfl
    · exact .inr rfl

theorem Simulates.shared (sim : Simulates hash held reg) {evicted : InvocationIdentity}
    (mem : evicted ∈ held.archived) {req : InvocationIdentity} (plain : req.Plain)
    {name : InvocationIdentity → Text} (kind : name ∈ [actionIdentity,idempotencyIdentity])
    (same : name evicted = name req) :
    wasEvicted hash reg req.runId (name req) = true := by
  have filtered := sim.filtered evicted mem name (mem_cons_of_mem _ kind)
  have front := (sim.plain evicted mem).runId
  have own : evicted.runId = req.runId := by
    simp only [mem_cons,not_mem_nil,or_false] at kind
    rcases kind with rfl | rfl <;> exact (append_nul_inj front plain.runId same).1
  rwa [own,same] at filtered

theorem Simulates.held_conflict (sim : Simulates hash held reg)
    {evicted req : InvocationIdentity} (mem : evicted ∈ held.archived)
    (other : identity evicted ≠ identity req)
    (same : actionIdentity evicted = actionIdentity req ∨
      idempotencyIdentity evicted = idempotencyIdentity req) :
    collisionOwnership (held.registry.actionIndex.get? (actionIdentity req))
      (held.registry.idempotencyIndex.get? (idempotencyIdentity req)) (identity req) =
        .conflict := by
  obtain ⟨action,idempotency⟩ := sim.indexed mem
  have differ : some (identity evicted) ≠ some (identity req) := fun equal =>
    other (Option.some.inj equal)
  rcases same with same | same
  · rw [← same,action]
    exact collisionOwnership_conflict (.inl (Option.some_ne_none _)) (.inl differ)
  · rw [← same,idempotency]
    exact collisionOwnership_conflict (.inr (Option.some_ne_none _)) (.inr differ)

theorem Simulates.collision_fresh (sim : Simulates hash held reg)
    {req : CodingToolInvocationStage} (plain : req.toInvocationIdentity.Plain)
    (exact_hits : Exact hash held reg req.toInvocationIdentity)
    (fresh : req.toInvocationIdentity ∉ held.archived) :
    collision hash req reg = collision hash req held.registry := by
  have gone : wasEvicted hash reg req.runId (identity req.toInvocationIdentity) = false := by
    rw [← Bool.not_eq_true]
    exact mt (sim.wasEvicted_iff exact_hits).mp fresh
  -- An archived identity that shares a part with the request is another one.
  have others {evicted : InvocationIdentity} (mem : evicted ∈ held.archived) :
      identity evicted ≠ identity req.toInvocationIdentity := by
    intro same
    rw [identity_inj plain same] at mem
    exact fresh mem
  have hits {name : InvocationIdentity → Text} (kind : name ∈ [identity,actionIdentity,idempotencyIdentity])
      (unarchived : isArchived name held.archived (name req.toInvocationIdentity) = false) :
      wasEvicted hash reg req.runId (name req.toInvocationIdentity) = false := by
    rw [← Bool.not_eq_true] at unarchived ⊢
    intro hit
    exact unarchived (isArchived_iff.mpr (exact_hits name kind hit))
  rw [collision,collision]
  simp only
  cases action : isArchived actionIdentity held.archived (actionIdentity req.toInvocationIdentity) with
  | true =>
    obtain ⟨evicted,mem,same⟩ := isArchived_iff.mp action
    rw [sim.held_conflict mem (others mem) (.inl same),sim.index,action,if_pos rfl]
    cases keyOwner : reg.idempotencyIndex.get? (idempotencyIdentity req.toInvocationIdentity) with
    | none =>
      exact evictedCollision_conflict (.inl rfl) (sim.shared mem plain (by simp) same) gone
    | some other =>
      rw [collisionOwnership_conflict (.inr (Option.some_ne_none _)) (.inl (Option.some_ne_none _).symm)]
  | false =>
    cases idempotency : isArchived idempotencyIdentity held.archived
        (idempotencyIdentity req.toInvocationIdentity) with
    | true =>
      obtain ⟨evicted,mem,same⟩ := isArchived_iff.mp idempotency
      rw [sim.held_conflict mem (others mem) (.inr same),sim.keys,idempotency,if_pos rfl]
      cases actionOwner : reg.actionIndex.get? (actionIdentity req.toInvocationIdentity) with
      | none =>
        exact evictedCollision_conflict (.inr rfl) (sim.shared mem plain (by simp) same) gone
      | some other =>
        rw [collisionOwnership_conflict (.inl (Option.some_ne_none _)) (.inr (Option.some_ne_none _).symm)]
    | false =>
      have unarchived : isArchived identity held.archived (identity req.toInvocationIdentity) = false := by
        rw [← Bool.not_eq_true]
        exact mt (sim.archived_iff _).mp fresh
      rw [sim.index,sim.keys,sim.tombs,action,idempotency,unarchived,sim.mirror.entries,sim.mirror.claimed]
      simp only [Bool.false_eq_true,if_false]
      split
      · rw [evictedCollision_none gone (hits (by simp) action) (hits (by simp) idempotency),
          evictedCollision_none (sim.unfiltered _ _) (sim.unfiltered _ _) (sim.unfiltered _ _)]
      · rfl
      · rfl

end Calls

section Answers

variable {hash : Text → UInt32 × UInt32} {held : HeldRegistry} {reg : Registry} {req : InvocationIdentity}
  {e : Entry}

variable (archived : List InvocationIdentity)

/-- An evicted identity is replayed whatever its digest. -/
def StageAgrees (request : InvocationIdentity)
    (held evicting : StageResult) : Prop :=
  evicting = held ∨ request ∈ archived ∧ evicting = .replayed ∧ held = .conflict

/-- An evicted identity is replayed also when it expired untaken. -/
def TakeAgrees (request : InvocationIdentity)
    (held evicting : TakeResult) : Prop :=
  evicting = held ∨ request ∈ archived ∧ evicting = .replayed ∧ held = .expired

/-- An evicted identity has lost its receipt. -/
def InspectAgrees (request : InvocationIdentity)
    (held evicting : Inspection) : Prop :=
  evicting = held ∨ request ∈ archived ∧ evicting = .terminal none ∧ ∃ receipt, held = .terminal (some receipt)

theorem Exact.expire (exact_hits : Exact hash held reg req)
    (now : ℤ) : Exact hash { held with registry := expire now held.registry } (expire now reg) req := by
  intro name kind hit
  rw [(expire_same now reg).wasEvicted] at hit
  exact exact_hits name kind hit

theorem Simulates.count (sim : Simulates hash held reg) (runId : Text) :
    runIdentityCount reg runId = heldIdentityCount held runId := by
  rw [runIdentityCount,heldIdentityCount,sim.mirror.actionIndex,OrderedMap.total_filter]

theorem Simulates.room (sim : Simulates hash held reg)
    (req : CodingToolInvocationStage) (run : nul ∉ req.runId) (now : ℤ) :
    Simulates hash (heldRoom req now held) (makeRoom hash req now reg) := by
  rw [heldRoom,makeRoom,sim.count]
  split
  · rw [evictSettled_eq]
    exact sim.evict run _ now
  · exact sim

theorem heldRoom_registry (req : CodingToolInvocationStage) (now : ℤ) (held : HeldRegistry) :
    (heldRoom req now held).registry = held.registry := by
  rw [heldRoom]
  split <;> rfl

theorem Simulates.capacity (sim : Simulates hash held reg) (req : CodingToolInvocationStage) :
    hasCapacity req reg = heldCapacity req held := by
  rw [hasCapacity,heldCapacity,sim.count,runEntryCount,runEntryCount,sim.mirror.entries,
    sim.mirror.claimed,sim.mirror.totalBytes]

theorem Simulates.add (sim : Simulates hash held reg)
    {req : CodingToolInvocationStage} (now : ℤ) (plain : req.toInvocationIdentity.Plain)
    (freeAction : held.registry.actionIndex.get? (actionIdentity req.toInvocationIdentity) = none)
    (freeKey : held.registry.idempotencyIndex.get? (idempotencyIdentity req.toInvocationIdentity) = none)
    (room : heldCapacity req held = true) :
    Simulates hash { held with registry := add req now held.registry } (add req now reg) := by
  simp only [heldCapacity,Bool.and_eq_true,decide_eq_true_eq] at room
  have unindexed : isArchived actionIdentity held.archived (actionIdentity req.toInvocationIdentity) = false := by
    rw [← Bool.not_eq_true,isArchived_iff]
    intro ⟨evicted,mem,same⟩
    have owner := (sim.indexed mem).1
    rw [same,freeAction] at owner
    cases owner
  have unkeyed : isArchived idempotencyIdentity held.archived
      (idempotencyIdentity req.toInvocationIdentity) = false := by
    rw [← Bool.not_eq_true,isArchived_iff]
    intro ⟨evicted,mem,same⟩
    have owner := (sim.indexed mem).2
    rw [same,freeKey] at owner
    cases owner
  have mirror := sim.mirror
  apply sim.frame (sim.kept.add now plain freeAction freeKey room.1.1 room.2)
  · refine ⟨?_,mirror.claimed,mirror.revoked,?_,mirror.disposed,mirror.tombstones,?_,?_⟩
    · change reg.entries.set _ _ = held.registry.entries.set _ _
      rw [mirror.entries]
    · change reg.totalBytes + _ = held.registry.totalBytes + _
      rw [mirror.totalBytes]
    · change reg.actionIndex.set _ _ = (held.registry.actionIndex.set _ _).filter _
      rw [OrderedMap.filter_set (fun key => !isArchived actionIdentity held.archived key)
        (by rw [unindexed]; rfl),mirror.actionIndex]
    · change reg.idempotencyIndex.set _ _ = (held.registry.idempotencyIndex.set _ _).filter _
      rw [OrderedMap.filter_set (fun key => !isArchived idempotencyIdentity held.archived key)
        (by rw [unkeyed]; rfl),mirror.idempotencyIndex]
  · intro evicted mem
    obtain ⟨idle,unclaimed⟩ := sim.settled evicted mem
    refine ⟨?_,unclaimed⟩
    change (held.registry.entries.set _ _).get? _ = none
    rw [OrderedMap.get?_set_of_ne,idle]
    intro same
    rw [identity_inj plain same] at mem
    have owner := (sim.indexed mem).1
    rw [freeAction] at owner
    cases owner
  · exact fun key tombstone hit => ⟨tombstone,hit⟩
  · rfl
  · rfl

theorem Simulates.stage (sim : Simulates hash held reg) {req : CodingToolInvocationStage}
    (exact_hits : Exact hash held reg req.toInvocationIdentity) (now : ℤ) :
    Simulates hash (heldStage hash req now held).1 (stage hash req now reg).1 ∧
      StageAgrees held.archived req.toInvocationIdentity (heldStage hash req now held).2
        (ToolInvocation.stage hash req now reg).2 := by
  have expired := sim.expire now
  have still := exact_hits.expire now
  rw [heldStage,ToolInvocation.stage]
  simp only
  rw [expired.isRevoked]
  split
  · exact ⟨expired,.inl rfl⟩
  · split
    · exact ⟨expired,.inl rfl⟩
    next valid =>
      have plain := validStage_plain (by simpa using valid)
      by_cases mem : req.toInvocationIdentity ∈ held.archived
      · obtain ⟨replayed,either⟩ := @Simulates.collision_archived _ _ _ expired req mem
        rw [replayed]
        rcases either with same | conflict
        · rw [same]
          exact ⟨expired,.inl rfl⟩
        · rw [conflict]
          exact ⟨expired,.inr ⟨mem,rfl,rfl⟩⟩
      · have same : collision hash req (ToolInvocation.expire now reg) =
            collision hash req (ToolInvocation.expire now held.registry) :=
          @Simulates.collision_fresh _ _ _ expired req plain still mem
        rw [same]
        cases collided : collision hash req (ToolInvocation.expire now held.registry) with
        | some refused => exact ⟨expired,.inl rfl⟩
        | none =>
          obtain ⟨freeAction,freeKey,_⟩ := collision_eq_none collided
          have roomy := expired.room req plain.runId now
          have unmoved := heldRoom_registry req now ⟨ToolInvocation.expire now held.registry,held.archived⟩
          simp only
          rw [roomy.capacity]
          split
          next room =>
            refine ⟨roomy.add now plain ?_ ?_ room,.inl rfl⟩
            · rw [unmoved]
              exact freeAction
            · rw [unmoved]
              exact freeKey
          next => exact ⟨roomy,.inl rfl⟩

theorem Mirror.claim {archived : List InvocationIdentity} {held reg : Registry}
    (mirror : Mirror archived held reg)
    (fresh : isArchived identity archived (identity req) = false) :
    Mirror archived (claim req e held) (claim req e reg) := by
  apply Mirror.remember _ fresh
  refine { mirror with entries := ?_, claimed := ?_ }
  · change reg.entries.delete _ = held.entries.delete _
    rw [mirror.entries]
  · change reg.claimed.set _ _ = held.claimed.set _ _
    rw [mirror.claimed]

theorem Simulates.claim (sim : Simulates hash held reg) (hit : held.registry.entries.get? (identity req) = some e)
    (unclaimed : held.registry.claimed.get? (identity req) = none) :
    Simulates hash { held with registry := claim req e held.registry }
      (ToolInvocation.claim req e reg) := by
  have fresh := sim.settled.live hit
  have claims := claim_same held.registry req e
  apply sim.frame (sim.kept.claim hit unclaimed)
  · exact sim.mirror.claim fresh
  · intro evicted mem
    obtain ⟨idle,free⟩ := sim.settled evicted mem
    refine ⟨?_,?_⟩
    · rw [claims.2,OrderedMap.get?_delete,idle,ite_self]
    · rw [ToolInvocation.claim,remember_maps.2.1]
      change (held.registry.claimed.set _ _).get? _ = none
      rw [OrderedMap.get?_set_of_ne,free]
      intro same
      rw [same,hit] at idle
      cases idle
  · exact fun key tombstone buried => ⟨tombstone,remember_keeps buried⟩
  · exact claims.1.evicted
  · exact (claim_same reg req e).1.evicted

theorem Simulates.take (sim : Simulates hash held reg) (req : InvocationIdentity)
    (now : ℤ) : Simulates hash { held with registry := (take hash req now held.registry).1 }
        (take hash req now reg).1 ∧
      (Exact hash held reg req → TakeAgrees held.archived req
        (ToolInvocation.take hash req now held.registry).2
        (ToolInvocation.take hash req now reg).2) := by
  have expired := sim.expire now
  have views := sim.expire_views now
  rw [ToolInvocation.take,ToolInvocation.take]
  simp only
  rw [views.isRevoked,views.claimed,views.entries]
  split
  · exact ⟨expired,fun _ => .inl rfl⟩
  · split
    · exact ⟨expired,fun _ => .inl rfl⟩
    next unclaimed =>
      cases found : (ToolInvocation.expire now held.registry).entries.get? (identity req) with
      | some e =>
        simp only
        rw [claim_eq,claim_eq]
        rw [Bool.not_eq_true,OrderedMap.has_eq_false] at unclaimed
        exact ⟨expired.claim found unclaimed,fun _ => .inl rfl⟩
      | none =>
        simp only
        rw [views.tombs,views.unfiltered]
        cases archived : isArchived identity held.archived (identity req) with
        | true =>
          have mem := (sim.archived_iff req).mp archived
          obtain ⟨tombstone,stored⟩ := expired.buried req mem
          have hit : wasEvicted hash (ToolInvocation.expire now reg) req.runId
              (identity req) = true := expired.filtered req mem identity mem_cons_self
          simp only [if_true]
          rw [stored,hit]
          refine ⟨expired,fun _ => ?_⟩
          cases kind : tombstone.kind with
          | expired => exact .inr ⟨mem,rfl,by simp [TombstoneKind.taken,kind]⟩
          | replayed => exact .inl (by simp [TombstoneKind.taken,kind])
        | false =>
          simp only [Bool.false_eq_true,if_false]
          cases stored : (ToolInvocation.expire now held.registry).tombstones.get? (identity req) with
          | some tombstone => exact ⟨expired,fun _ => .inl rfl⟩
          | none =>
            refine ⟨expired,fun exact_hits => .inl ?_⟩
            have still : wasEvicted hash (ToolInvocation.expire now reg) req.runId
                (identity req) = false := by
              rw [(expire_same now reg).wasEvicted,← Bool.not_eq_true,
                sim.wasEvicted_iff exact_hits,← sim.archived_iff,archived]
              exact Bool.false_ne_true
            simp [still]

theorem Simulates.inspect (sim : Simulates hash held reg) (req : InvocationIdentity)
    (now : ℤ) (exact_hits : Exact hash held reg req) :
    InspectAgrees held.archived req (inspect hash req now held.registry).2
      (ToolInvocation.inspect hash req now reg).2 := by
  have expired := sim.expire now
  have views := sim.expire_views now
  have still : wasEvicted hash (ToolInvocation.expire now reg) req.runId
      (identity req) = isArchived identity held.archived (identity req) := by
    rw [(expire_same now reg).wasEvicted,Bool.eq_iff_iff,sim.wasEvicted_iff exact_hits,sim.archived_iff]
  rw [ToolInvocation.inspect,ToolInvocation.inspect]
  simp only
  rw [views.isRevoked,views.claimed,views.entries]
  split
  · exact .inl rfl
  · split
    · exact .inl rfl
    · rw [views.tombs,views.unfiltered,still]
      cases archived : isArchived identity held.archived (identity req) with
      | true =>
        have mem := (sim.archived_iff req).mp archived
        obtain ⟨tombstone,stored⟩ := expired.buried req mem
        simp only [if_true]
        rw [stored]
        cases receipt : tombstone.receipt with
        | none => exact .inl (by simp [receipt])
        | some t => exact .inr ⟨mem,rfl,t,by simp [receipt]⟩
      | false =>
        simp only [Bool.false_eq_true,if_false]
        cases (ToolInvocation.expire now held.registry).tombstones.get? (identity req) with
        | some tombstone => exact .inl rfl
        | none => exact .inl rfl

end Answers

section Steps

variable {hash : Text → UInt32 × UInt32} {held : HeldRegistry} {reg : Registry}
  {archived : List InvocationIdentity} {runId key : Text}

theorem Simulates.replaceClaimed (sim : Simulates hash held reg)
    {e : ClaimedEntry} (hit : held.registry.claimed.get? key = some e)
    (next : ClaimedEntry) (bytes : ℤ) (kept : Kept { held.registry with
      claimed := held.registry.claimed.set key next, totalBytes := bytes }) :
    Simulates hash { held with registry := { held.registry with
        claimed := held.registry.claimed.set key next, totalBytes := bytes } }
      { reg with claimed := reg.claimed.set key next, totalBytes := bytes } := by
  have mirror := sim.mirror
  apply sim.frame kept
  · refine { mirror with claimed := ?_, totalBytes := rfl }
    change reg.claimed.set _ _ = held.registry.claimed.set _ _
    rw [mirror.claimed]
  · intro evicted mem
    obtain ⟨idle,unclaimed⟩ := sim.settled evicted mem
    refine ⟨idle,?_⟩
    change (held.registry.claimed.set _ _).get? _ = none
    rw [OrderedMap.get?_set_of_ne,unclaimed]
    intro same
    rw [same,hit] at unclaimed
    cases unclaimed
  · exact fun key tombstone buried => ⟨tombstone,buried⟩
  · rfl
  · rfl

theorem Simulates.attachNativeRead (sim : Simulates hash held reg)
    (req : InvocationIdentity) (invocationId : Text) (now : ℤ)
    (kept : Kept (attachNativeRead req invocationId now held.registry).1) :
    Simulates hash
      { held with registry := (ToolInvocation.attachNativeRead req invocationId now held.registry).1 }
      (ToolInvocation.attachNativeRead req invocationId now reg).1 := by
  have expired := sim.expire now
  have views := sim.expire_views now
  rw [ToolInvocation.attachNativeRead] at kept
  rw [ToolInvocation.attachNativeRead,ToolInvocation.attachNativeRead]
  simp only at kept ⊢
  rw [views.claimed,views.disposed]
  cases found : (ToolInvocation.expire now held.registry).claimed.get? (identity req) with
  | none => exact expired
  | some e =>
    rw [found] at kept
    simp only at kept ⊢
    split
    · exact expired
    next attachable =>
      rw [if_neg attachable] at kept
      have replaced := expired.replaceClaimed found { e with nativeRead := some ⟨invocationId,.empty,0⟩ }
        (ToolInvocation.expire now held.registry).totalBytes kept
      rw [views.claimed,views.disposed] at replaced
      rw [views.totalBytes]
      exact replaced

theorem Simulates.nativeReadOwner (sim : Simulates hash held reg)
    (req : InvocationIdentity) (invocationId : Text) (now : ℤ) :
    (nativeReadOwner req invocationId now reg).2 =
      (ToolInvocation.nativeReadOwner req invocationId now held.registry).2 := by
  have views := sim.expire_views now
  rw [ToolInvocation.nativeReadOwner,ToolInvocation.nativeReadOwner,views.claimed,views.disposed]
  split
  · rfl
  · split <;> rfl

theorem Simulates.claimNativeReadOperation (sim : Simulates hash held reg)
    (req : InvocationIdentity) (invocationId : Text) (ordinal : Number) (digest : Text) (now : ℤ)
    (kept : Kept (claimNativeReadOperation req invocationId ordinal digest now held.registry).1) :
    Simulates hash { held with registry :=
        (ToolInvocation.claimNativeReadOperation req invocationId ordinal digest now held.registry).1 }
      (ToolInvocation.claimNativeReadOperation req invocationId ordinal digest now reg).1 := by
  have expired := sim.expire now
  have views := sim.expire_views now
  have owners := sim.nativeReadOwner req invocationId now
  have a := @nativeReadOwner_fst held.registry req invocationId now
  have b := @nativeReadOwner_fst reg req invocationId now
  rw [ToolInvocation.claimNativeReadOperation] at kept
  rw [ToolInvocation.claimNativeReadOperation,ToolInvocation.claimNativeReadOperation]
  generalize ToolInvocation.nativeReadOwner req invocationId now held.registry = reading at *
  generalize ToolInvocation.nativeReadOwner req invocationId now reg = other at *
  obtain ⟨cur,owner⟩ := reading
  obtain ⟨current',owner'⟩ := other
  simp only at owners a b
  subst owners a b
  cases owner' with
  | none => exact expired
  | some native =>
    simp only at kept ⊢
    rw [views.claimed]
    cases found : (ToolInvocation.expire now held.registry).claimed.get? (identity req) with
    | none => exact expired
    | some e =>
      rw [found] at kept
      simp only at kept ⊢
      split
      · exact expired
      next valid =>
        rw [if_neg valid] at kept
        cases previous : native.operations.get? ordinal with
        | some digest' => exact expired
        | none =>
          rw [previous] at kept
          simp only at kept ⊢
          rw [views.totalBytes]
          split
          next room =>
            rw [if_pos room] at kept
            have replaced := expired.replaceClaimed found _ _ kept
            rw [views.claimed] at replaced
            exact replaced
          · exact expired

theorem Simulates.settle (sim : Simulates hash held reg) (req : InvocationIdentity)
    (receipt : Receipt) (kept : Kept (settle req receipt held.registry).1) :
    Simulates hash { held with registry := (ToolInvocation.settle req receipt held.registry).1 }
      (ToolInvocation.settle req receipt reg).1 := by
  rw [ToolInvocation.settle] at kept
  rw [ToolInvocation.settle,ToolInvocation.settle]
  simp only at kept ⊢
  rw [sim.mirror.claimed]
  cases hit : held.registry.claimed.get? (identity req) with
  | none => exact sim
  | some e =>
    rw [hit] at kept
    simp only at kept ⊢
    split
    · exact sim
    next taken =>
      rw [if_neg taken] at kept
      have fresh := sim.settled.claimed hit
      have dropped : Simulates hash
          { held with registry := dropClaimed (identity req) e .replayed held.registry }
          (dropClaimed (identity req) e .replayed reg) := by
        apply sim.frame (sim.kept.dropClaimed hit) (sim.mirror.dropClaimed fresh)
        · intro evicted mem
          obtain ⟨idle,unclaimed⟩ := sim.settled evicted mem
          refine ⟨?_,?_⟩
          · rw [dropClaimed,remember_maps.1]
            exact idle
          · rw [dropClaimed,remember_maps.2.1]
            change (held.registry.claimed.delete _).get? _ = none
            rw [OrderedMap.get?_delete,unclaimed,ite_self]
        · exact fun key tombstone buried => ⟨tombstone,remember_keeps buried⟩
        · exact (@dropClaimed_same held.registry (identity req) .replayed e).evicted
        · exact (@dropClaimed_same reg (identity req) .replayed e).evicted
      have tombs := dropped.tombs (identity req)
      rw [fresh,if_neg Bool.false_ne_true] at tombs
      rw [tombs]
      simp only at kept ⊢
      cases buried : (dropClaimed (identity req) e .replayed held.registry).tombstones.get?
          (identity req) with
      | none => exact dropped
      | some tombstone =>
        rw [buried] at kept
        cases captured : receipt.captures with
        | none => exact dropped
        | some t =>
          rw [captured] at kept
          have mirror := dropped.mirror
          apply dropped.frame kept
          · refine { mirror with tombstones := ?_ }
            change (OrderedMap.set _ _ _) = (OrderedMap.set _ _ _).filter _
            rw [OrderedMap.filter_set (fun key => !isArchived identity held.archived key)
              (by rw [fresh]; rfl),mirror.tombstones]
          · exact dropped.settled
          · intro key other here
            by_cases own : key = identity req
            · rw [own]
              exact ⟨_,OrderedMap.get?_set_self _⟩
            · refine ⟨other,?_⟩
              change (OrderedMap.set _ _ _).get? key = _
              rw [OrderedMap.get?_set_of_ne _ own]
              exact here
          · rfl
          · rfl

theorem Mirror.rememberRevoked {held reg : Registry}
    (mirror : Mirror archived held reg) (runId : Text) :
    Mirror archived (rememberRevoked runId held) (rememberRevoked runId reg) := by
  rw [ToolInvocation.rememberRevoked,ToolInvocation.rememberRevoked,mirror.revoked]
  exact ⟨mirror.entries,mirror.claimed,rfl,mirror.totalBytes,mirror.disposed,mirror.tombstones,
    mirror.actionIndex,mirror.idempotencyIndex⟩

theorem mem_archiveWithout {evicted : InvocationIdentity} :
    evicted ∈ archiveWithout runId archived ↔ evicted ∈ archived ∧ evicted.runId ≠ runId := by
  rw [archiveWithout,mem_filter,bne_iff_ne]

theorem isArchived_without {name : InvocationIdentity → Text}
    (outside : ∀ evicted ∈ archived, name evicted = key → evicted.runId ≠ runId) :
    isArchived name (archiveWithout runId archived) key = isArchived name archived key := by
  rw [Bool.eq_iff_iff,isArchived_iff,isArchived_iff]
  constructor
  · intro ⟨evicted,mem,same⟩
    exact ⟨evicted,(mem_archiveWithout.mp mem).1,same⟩
  · intro ⟨evicted,mem,same⟩
    exact ⟨evicted,mem_archiveWithout.mpr ⟨mem,outside evicted mem same⟩,same⟩

theorem Mirror.clear {held reg : Registry} (mirror : Mirror archived held reg) (runId : Text)
    (indexed : ∀ evicted ∈ archived, held.actionIndex.get? (actionIdentity evicted) = some (identity evicted) ∧
        held.idempotencyIndex.get? (idempotencyIdentity evicted) = some (identity evicted)) :
    Mirror (archiveWithout runId archived) (clearRunIdentities runId held) (clearRunIdentities runId reg) := by
  have others {evicted : InvocationIdentity} {owner : Text} (own : identity evicted = owner)
      (outside : keyForRun owner runId = false) : evicted.runId ≠ runId := by
    intro same
    have owned := keyForRun_self evicted
    rw [same,own,outside] at owned
    cases owned
  -- Both filters commute, and behind the run's filter the archives do not differ.
  have cleared {α : Type} {name : InvocationIdentity → Text} {map map' : OrderedMap Text α} (owns : Text → α → Bool)
      (pre : map' = map.filter fun key _ => !isArchived name archived key)
      (outside : ∀ key v, map.get? key = some v → owns key v = false →
        ∀ evicted ∈ archived, name evicted = key → evicted.runId ≠ runId) :
      (map'.filter fun key v => !owns key v) = (map.filter fun key v => !owns key v).filter fun key _ =>
          !isArchived name (archiveWithout runId archived) key := by
    rw [pre,OrderedMap.filter_filter,OrderedMap.filter_filter]
    apply OrderedMap.filter_congr
    intro key v hit
    cases owned : owns key v with
    | true => simp
    | false => simp [isArchived_without (outside key v hit owned)]
  refine { mirror with tombstones := ?_, actionIndex := ?_, idempotencyIndex := ?_ }
  · apply cleared (fun key _ => keyForRun key runId) mirror.tombstones
    exact fun key _ _ outside evicted _ same => others same outside
  · apply cleared (fun _ owner => keyForRun owner runId) mirror.actionIndex
    intro key owner hit outside evicted mem same
    have own := (indexed evicted mem).1
    rw [same,hit] at own
    exact others (Option.some.inj own).symm outside
  · apply cleared (fun _ owner => keyForRun owner runId) mirror.idempotencyIndex
    intro key owner hit outside evicted mem same
    have own := (indexed evicted mem).2
    rw [same,hit] at own
    exact others (Option.some.inj own).symm outside

theorem Simulates.clear (sim : Simulates hash held reg) (run : nul ∉ runId)
    (live : ∀ key e, held.registry.entries.get? key = some e → keyForRun key runId = false)
    (claimed : ∀ key e, held.registry.claimed.get? key = some e → keyForRun key runId = false) :
    Simulates hash ⟨{ clearRunIdentities runId held.registry with evicted := held.registry.evicted.delete runId },
        archiveWithout runId held.archived⟩
      { clearRunIdentities runId reg with evicted := reg.evicted.delete runId } := by
  have kept := sim.kept.clear live claimed
  have mirror := sim.mirror.clear runId fun _ => sim.indexed
  refine ⟨{ kept with },{ mirror with },?_,?_,?_,?_,?_⟩
  · exact fun evicted mem => sim.settled evicted (mem_archiveWithout.mp mem).1
  · exact fun evicted mem => sim.plain evicted (mem_archiveWithout.mp mem).1
  · intro evicted mem
    obtain ⟨here,outside⟩ := mem_archiveWithout.mp mem
    obtain ⟨tombstone,hit⟩ := sim.buried evicted here
    refine ⟨tombstone,?_⟩
    have foreign : keyForRun (identity evicted) runId = false := by
      rw [← Bool.not_eq_true]
      exact fun owned => outside (keyForRun_identity (sim.plain evicted here) run owned)
    change (held.registry.tombstones.filter _).get? _ = _
    rw [OrderedMap.get?_filter,hit,Option.filter_some_pos]
    rw [foreign]
    rfl
  · change held.registry.evicted.delete runId = .empty
    rw [sim.unevicted]
    rfl
  · intro evicted mem name kind
    obtain ⟨here,outside⟩ := mem_archiveWithout.mp mem
    rw [wasEvicted]
    simp only
    rw [OrderedMap.get?_delete_of_ne outside]
    exact sim.filtered evicted here name kind

theorem Simulates.revokeRun (sim : Simulates hash held reg) (run : nul ∉ runId) : Simulates hash
      ⟨(revokeRun runId held.registry).1,if held.registry.revoked.contains runId then held.archived
        else archiveWithout runId held.archived⟩
      (ToolInvocation.revokeRun runId reg).1 := by
  rw [ToolInvocation.revokeRun,ToolInvocation.revokeRun,sim.mirror.revoked]
  cases known : held.registry.revoked.contains runId with
  | true =>
    simp only [if_true]
    exact sim
  | false =>
    simp only [Bool.false_eq_true,if_false]
    have revoking : Simulates hash { held with registry := rememberRevoked runId held.registry }
        (rememberRevoked runId reg) := by
      have kept : Kept (rememberRevoked runId held.registry) := by
        rw [rememberRevoked]
        exact sim.kept.withRevoked _
      apply sim.frame kept (sim.mirror.rememberRevoked runId)
      · rw [Settled,rememberRevoked]
        exact sim.settled
      · intro key tombstone hit
        rw [rememberRevoked]
        exact ⟨tombstone,hit⟩
      · rw [rememberRevoked]
      · rw [rememberRevoked]
    have dropped := revoking.drop (fun key _ => keyForRun key runId) (fun key _ => keyForRun key runId) .replayed
    have a := @dropEntries_dropped _ .replayed revoking.kept fun key _ => keyForRun key runId
    have b := a.trans (@dropClaims_dropped _ .replayed a.kept fun key _ => keyForRun key runId)
    exact dropped.clear run (fun key e hit => (b.live key e hit).2)
      fun key e hit => (b.claimed key e hit).2

theorem Simulates.dispose (sim : Simulates hash held reg) : Simulates hash
      ⟨dispose held.registry,if held.registry.disposed then held.archived else []⟩
      (ToolInvocation.dispose reg) := by
  have kept : Kept (ToolInvocation.dispose held.registry) :=
    @Kept.step hash held.registry ⟨0,.dispose⟩ sim.kept nofun
  rw [ToolInvocation.dispose] at kept
  rw [ToolInvocation.dispose,ToolInvocation.dispose,sim.mirror.disposed]
  cases known : held.registry.disposed with
  | true =>
    simp only [if_true]
    exact sim
  | false =>
    rw [known] at kept
    simp only [Bool.false_eq_true,if_false] at kept ⊢
    have disposing : Simulates hash { held with registry := { held.registry with disposed := true } }
        { reg with disposed := true } := by
      have cur := sim.kept
      have mirror := sim.mirror
      apply sim.frame
      · exact { cur with }
      · exact { mirror with disposed := rfl }
      · exact sim.settled
      · exact fun key tombstone hit => ⟨tombstone,hit⟩
      · rfl
      · rfl
    have mirror := (disposing.drop (fun _ _ => true) (fun _ _ => true) .replayed).mirror
    refine ⟨kept,{ mirror with tombstones := rfl, actionIndex := rfl, idempotencyIndex := rfl },?_,?_,?_,rfl,?_⟩
    · exact fun evicted mem => absurd mem not_mem_nil
    · exact fun evicted mem => absurd mem not_mem_nil
    · exact fun evicted mem => absurd mem not_mem_nil
    · exact fun evicted mem => absurd mem not_mem_nil

end Steps

section Runs

variable {sha256 : Text → UInt32 × UInt32} {held : HeldRegistry} {reg : Registry}

theorem Simulates.call (sim : Simulates sha256 held reg) {ev : Event}
    (asks : Asks held reg (Exact sha256) (.call ev)) :
    Simulates sha256 (heldCall sha256 held ev) (step sha256 reg ev) := by
  have kept : ev.Plain → Kept (step sha256 held.registry ev) := sim.kept.step
  obtain ⟨now,call⟩ := ev
  cases call with
  | stage req => exact (sim.stage asks now).1
  | take req => exact (sim.take req now).1
  | attachNativeRead req invocationId =>
    exact sim.attachNativeRead req invocationId now (kept nofun)
  | nativeReadOwner req invocationId =>
    change Simulates sha256 { held with
        registry := (ToolInvocation.nativeReadOwner req invocationId now held.registry).1 }
      (ToolInvocation.nativeReadOwner req invocationId now reg).1
    rw [nativeReadOwner_fst,nativeReadOwner_fst]
    exact sim.expire now
  | claimNativeReadOperation req invocationId ordinal digest =>
    exact sim.claimNativeReadOperation req invocationId ordinal digest now (kept nofun)
  | settle req receipt => exact sim.settle req receipt (kept nofun)
  | inspect req =>
    change Simulates sha256 { held with registry := (ToolInvocation.inspect sha256 req now held.registry).1 }
      (ToolInvocation.inspect sha256 req now reg).1
    rw [inspect_fst,inspect_fst]
    exact sim.expire now
  | tombstoneFor req => exact sim.expire now
  | revokeRun runId => exact sim.revokeRun asks
  | dispose => exact sim.dispose
  | timer => exact sim.expire now

theorem Simulates.move (sim : Simulates sha256 held reg) {move : Move} (asks : Asks held reg (Exact sha256) move) :
    Simulates sha256 (held.move sha256 move) (reg.move sha256 move) := by
  cases move with
  | call ev => exact sim.call asks
  | evict chosen runId now => exact sim.evict asks chosen.contains now

theorem Simulates.foldl (sim : Simulates sha256 held reg) {moves : List Move}
    (asking : Asking sha256 (Exact sha256) held reg moves) :
    Simulates sha256 (moves.foldl (HeldRegistry.move sha256) held) (moves.foldl (Registry.move sha256) reg) := by
  induction moves generalizing held reg with
  | nil => exact sim
  | cons move moves ih => exact ih (sim.move asking.1) asking.2

theorem Simulates.empty : Simulates sha256 .empty .empty := by
  refine ⟨⟨?_,?_,?_,rfl,?_,?_⟩,⟨rfl,rfl,rfl,rfl,rfl,rfl,rfl,rfl⟩,?_,?_,?_,rfl,?_⟩
  · intro key e hit
    cases hit
  · intro key e hit
    cases hit
  · intro key tombstone hit
    cases hit
  · exact Int.natCast_nonneg _
  · exact fun runId _ => Nat.zero_le _
  · exact fun evicted mem => absurd mem not_mem_nil
  · exact fun evicted mem => absurd mem not_mem_nil
  · exact fun evicted mem => absurd mem not_mem_nil
  · exact fun evicted mem => absurd mem not_mem_nil

theorem Simulates.heldStage_fresh (sim : Simulates sha256 held reg) {req : CodingToolInvocationStage} (now : ℤ)
    (action : held.registry.actionIndex.get? (actionIdentity req.toInvocationIdentity) = none)
    (key : held.registry.idempotencyIndex.get? (idempotencyIdentity req.toInvocationIdentity) = none) :
    (heldStage sha256 req now held).2 ≠ .conflict := by
  have expired := sim.expire now
  have same := expire_same now held.registry
  have gone (v : Text) : wasEvicted sha256 (ToolInvocation.expire now held.registry)
      req.runId v = false := expired.unfiltered req.runId v
  have free : collision sha256 req (ToolInvocation.expire now held.registry) = none := by
    rw [collision,same.actionIndex,same.idempotencyIndex,action,key]
    exact evictedCollision_none (gone _) (gone _) (gone _)
  rw [heldStage]
  simp only
  rw [free]
  split
  · simp
  · split
    · simp
    · simp only
      split <;> simp

/-- The answers of both registries at a time, where the filter finds nothing else of the request. -/
structure Agrees (sha256 : Text → UInt32 × UInt32) (held : HeldRegistry) (reg : Registry)
    (now : ℤ) : Prop where
  stage : ∀ request : CodingToolInvocationStage, Exact sha256 held reg request.toInvocationIdentity →
      StageAgrees held.archived request.toInvocationIdentity (heldStage sha256 request now held).2
        (ToolInvocation.stage sha256 request now reg).2
  fresh : ∀ request : CodingToolInvocationStage, Exact sha256 held reg request.toInvocationIdentity →
      held.registry.actionIndex.get? (actionIdentity request.toInvocationIdentity) = none →
        held.registry.idempotencyIndex.get? (idempotencyIdentity request.toInvocationIdentity) = none →
          (ToolInvocation.stage sha256 request now reg).2 ≠ .conflict
  take : ∀ request : InvocationIdentity, Exact sha256 held reg request →
    TakeAgrees held.archived request (ToolInvocation.take sha256 request now held.registry).2
      (ToolInvocation.take sha256 request now reg).2
  inspect : ∀ request : InvocationIdentity, Exact sha256 held reg request →
    InspectAgrees held.archived request (ToolInvocation.inspect sha256 request now held.registry).2
      (ToolInvocation.inspect sha256 request now reg).2

theorem Simulates.agrees (sim : Simulates sha256 held reg) (now : ℤ) : Agrees sha256 held reg now := by
  refine ⟨?_,?_,?_,?_⟩
  · exact fun req exact_hits => (sim.stage exact_hits now).2
  · intro req exact_hits action key
    have fresh := sim.heldStage_fresh now action key
    rcases (sim.stage exact_hits now).2 with same | ⟨_,_,conflict⟩
    · rw [same]
      exact fresh
    · exact absurd conflict fresh
  · exact fun req exact_hits => (sim.take req now).2 exact_hits
  · exact fun req exact_hits => sim.inspect req now exact_hits

theorem evictions_agree (sha256 : Text → UInt32 × UInt32) (moves : List Move)
    (asking : Asking sha256 (Exact sha256) .empty .empty moves) (now : ℤ) :
    Agrees sha256 (heldRun sha256 moves) (evictingRun sha256 moves) now :=
  (Simulates.empty.foldl asking).agrees now

def lengthHash (value : Text) : UInt32 × UInt32 := (UInt32.ofNat (100 * value.length),0)

def sampleMoves : List Move :=
  [.call ⟨0,.stage sampleStage⟩,.call ⟨60,.timer⟩,.evict [identity sampleStage.toInvocationIdentity] ['r'] 60]

def freshStage : CodingToolInvocationStage :=
  ⟨⟨['r'],['b','b'],['a']⟩,List.replicate 64 'f',some 90,[1,2,3],none⟩

theorem sampleMoves_asking (asked : HeldRegistry → Registry → InvocationIdentity → Prop)
    (fresh : asked .empty .empty sampleStage.toInvocationIdentity) :
    Asking lengthHash asked .empty .empty sampleMoves := by
  refine ⟨fresh,trivial,?_,trivial⟩
  intro mem
  rw [mem_singleton] at mem
  exact absurd mem (by decide)

/-- No key is found that was not evicted, and yet the answers differ: the evicted identity is replayed
where its tombstone tells that it expired, and a key that is new as such is refused for the action. -/
theorem evictions_visible :
    Asking lengthHash (NoFalsePositive lengthHash) .empty .empty sampleMoves ∧
      NoFalsePositive lengthHash (heldRun lengthHash sampleMoves) (evictingRun lengthHash sampleMoves)
        sampleStage.toInvocationIdentity ∧
      (take lengthHash sampleStage.toInvocationIdentity 70
        (heldRun lengthHash sampleMoves).registry).2 = .expired ∧
      (take lengthHash sampleStage.toInvocationIdentity 70
        (evictingRun lengthHash sampleMoves)).2 = .replayed ∧
      NoFalsePositive lengthHash (heldRun lengthHash sampleMoves) (evictingRun lengthHash sampleMoves)
        freshStage.toInvocationIdentity ∧
      (heldStage lengthHash freshStage 70 (heldRun lengthHash sampleMoves)).2 = .staged ∧
      (stage lengthHash freshStage 70 (evictingRun lengthHash sampleMoves)).2 = .conflict := by
  have archived : (heldRun lengthHash sampleMoves).archived = [sampleStage.toInvocationIdentity] := by
    decide +kernel
  refine ⟨sampleMoves_asking _ ?_,?_,by decide +kernel,by decide +kernel,?_,by decide +kernel,
    by decide +kernel⟩
  · intro name _ found
    cases found
  · intro name kind _
    rw [archived]
    exact ⟨_,mem_singleton_self _,rfl,name,kind,rfl⟩
  · intro name kind found
    rw [archived]
    refine ⟨_,mem_singleton_self _,rfl,actionIdentity,by simp,?_⟩
    simp only [mem_cons,not_mem_nil,or_false] at kind
    rcases kind with rfl | rfl | rfl
    · exact absurd found (by decide +kernel)
    · exact absurd found (by decide +kernel)
    · decide

theorem evictions_agree_sample :
    Agrees lengthHash (heldRun lengthHash sampleMoves) (evictingRun lengthHash sampleMoves) 70 := by
  apply evictions_agree
  apply sampleMoves_asking
  intro name _ found
  cases found

end Runs

end Keiko.ToolInvocation
