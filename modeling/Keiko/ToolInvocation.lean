import Keiko.Library.Bloom
import Keiko.Library.Machine
import Keiko.Library.OrderedMap
import Keiko.RuntimeEvent

/-! The registry of tool invocations. A call is staged with its payload, taken once by whoever runs it
and settled; its identity is remembered, first in the indexes and, when it is settled and expired
and the run needs room, in a filter. A call reads the clock once, what a text says as a date and what
the capture of a receipt comes to are part of the call, and the first two words of a digest are those
that `sha256` gives. -/
namespace Keiko.ToolInvocation
open Keiko.Library Keiko.Runtime

section Identity

structure InvocationIdentity where
  runId : Text
  actionId : Text
  idempotencyKey : Text
  deriving DecidableEq

structure CodingToolInvocationStage extends InvocationIdentity where
  digest : Text
  authorityExpiresAt : Option ℤ
  payload : List UInt8
  lifeMs : Option Number
  deriving DecidableEq

def nul : Char := Char.ofNat 0

def identity (request : InvocationIdentity) : Text :=
  request.runId ++ nul :: request.actionId ++ nul :: request.idempotencyKey

def actionIdentity (request : InvocationIdentity) : Text :=
  request.runId ++ nul :: request.actionId

def idempotencyIdentity (request : InvocationIdentity) : Text :=
  request.runId ++ nul :: request.idempotencyKey

def keyForRun (key runId : Text) : Bool := (runId ++ [nul]).isPrefixOf key

def maxLivePerRun : Nat := 8

def maxBytesPerEntry : Nat := 3 * (8 * 1048576) + 1048576

def maxAggregateBytes : Nat := 2 * maxBytesPerEntry + 2 * 1024 * 1024

def defaultTtlMs : ℤ := 30000

def maxIdentities : Nat := 2048

def maxRevokedRuns : Nat := 2048

def maxTimerDelayMs : Nat := 2147483647

def nonEmpty (value : Text) : Bool :=
  decide (0 < value.utf16Length) && decide (value.utf16Length ≤ 512) && !value.contains nul

/-- `/^[a-f0-9]{64}$/u`. -/
def isDigest (value : Text) : Bool :=
  value.length == 64 && value.all fun c => Text.isDigit c || ('a' ≤ c && c ≤ 'f')

def validLife : Option Number → Bool
  | none => true
  | some (.finite value) => isSafeIntegerFrom 1 (.finite value) && decide (value ≤ maxTimerDelayMs)
  | some _ => false

def validStage (request : CodingToolInvocationStage) : Bool :=
  nonEmpty request.runId && nonEmpty request.actionId && nonEmpty request.idempotencyKey &&
    isDigest request.digest && decide (request.payload.length ≤ maxBytesPerEntry) &&
    request.authorityExpiresAt.isSome && validLife request.lifeMs

def lifeOf : Option Number → ℤ
  | some (.finite value) => value.num
  | _ => defaultTtlMs

def expiryFor (request : CodingToolInvocationStage) (now : ℤ) : ℤ :=
  let end_of_life := now + lifeOf request.lifeMs
  match request.authorityExpiresAt with
  | none => end_of_life
  | some expiry => min expiry end_of_life

end Identity

section Filter

def replayFilterBits : Nat := 2 ^ 23

def hashCount : Nat := 6

variable (sha256 : Text → UInt32 × UInt32)

def indexes (value : Text) : List Nat :=
  let first := (sha256 value).1.toNat
  let second := (sha256 value).2.toNat ||| 1
  (List.range hashCount).map fun round => (first + round * second) % 2 ^ 32 % replayFilterBits

/-- The positions of the bits that are set. -/
structure CodingToolReplayFilter where
  bits : List Nat
  count : Nat
  deriving DecidableEq

namespace CodingToolReplayFilter

def empty : CodingToolReplayFilter := ⟨[],0⟩

def add (filter : CodingToolReplayFilter) (value : Text) : CodingToolReplayFilter :=
  ⟨Bloom.add (indexes sha256) filter.bits value,filter.count + 1⟩

def has (filter : CodingToolReplayFilter) (value : Text) : Bool :=
  Bloom.has (indexes sha256) filter.bits value

end CodingToolReplayFilter

end Filter

section State

structure Entry where
  digest : Text
  expiresAt : ℤ
  aborted : Bool
  payload : List UInt8
  deriving DecidableEq

structure NativeRead where
  invocationId : Text
  operations : OrderedMap Number Text
  bytes : Nat
  deriving DecidableEq

structure ClaimedEntry extends Entry where
  nativeRead : Option NativeRead
  deriving DecidableEq

inductive TombstoneKind where
  | expired
  | replayed
  deriving DecidableEq, Repr

structure Tombstone where
  digest : Text
  expiresAt : ℤ
  kind : TombstoneKind
  receipt : Option Text
  deriving DecidableEq

structure Registry where
  entries : OrderedMap Text Entry
  claimed : OrderedMap Text ClaimedEntry
  revoked : List Text
  tombstones : OrderedMap Text Tombstone
  actionIndex : OrderedMap Text Text
  idempotencyIndex : OrderedMap Text Text
  evicted : OrderedMap Text CodingToolReplayFilter
  totalBytes : ℤ
  disposed : Bool
  deriving DecidableEq

def Registry.empty : Registry := ⟨.empty,.empty,[],.empty,.empty,.empty,.empty,0,false⟩

def nativeBytes (entry : ClaimedEntry) : Nat := (entry.nativeRead.map (·.bytes)).getD 0

end State

section Drop

def remember (key digest : Text) (expiresAt : ℤ) (kind : TombstoneKind) (registry : Registry) :
    Registry :=
  if registry.tombstones.has key then registry
  else { registry with tombstones := registry.tombstones.set key ⟨digest,expiresAt,kind,none⟩ }

def removeLive (key : Text) (entry : Entry) (releaseBytes : Bool) (registry : Registry) : Registry :=
  { registry with
    entries := registry.entries.delete key
    totalBytes := if releaseBytes then registry.totalBytes - entry.payload.length else registry.totalBytes }

def dropLive (key : Text) (entry : Entry) (kind : TombstoneKind) (registry : Registry) : Registry :=
  remember key entry.digest entry.expiresAt kind (removeLive key entry true registry)

def dropClaimed (key : Text) (entry : ClaimedEntry) (kind : TombstoneKind) (registry : Registry) :
    Registry :=
  remember key entry.digest entry.expiresAt kind { registry with
      claimed := registry.claimed.delete key
      totalBytes := registry.totalBytes - (entry.payload.length + nativeBytes entry) }

def dropEntries (drops : Text → Entry → Bool) (kind : TombstoneKind) (registry : Registry) :
    Registry :=
  registry.entries.entries.foldl (fun registry item =>
    if drops item.1 item.2 then dropLive item.1 item.2 kind registry else registry) registry

def dropClaims (drops : Text → ClaimedEntry → Bool) (kind : TombstoneKind) (registry : Registry) :
    Registry :=
  registry.claimed.entries.foldl (fun registry item =>
    if drops item.1 item.2 then dropClaimed item.1 item.2 kind registry else registry) registry

def expire (now : ℤ) (registry : Registry) : Registry :=
  dropClaims (fun _ entry => decide (entry.expiresAt ≤ now)) .expired
    (dropEntries (fun _ entry => decide (entry.expiresAt ≤ now)) .expired registry)

end Drop

section Capacity

variable (sha256 : Text → UInt32 × UInt32)

/-- What an eviction carries through the tombstones: the registry, the filter and how many went. -/
abbrev Eviction := Registry × CodingToolReplayFilter × Nat

def evictTombstone (runId : Text) (now : ℤ) (eviction : Eviction) (item : Text × Tombstone) :
    Eviction :=
  let (registry,filter,evictedCount) := eviction
  let key := item.1
  if !keyForRun key runId || decide (now < item.2.expiresAt) then eviction
  else if registry.entries.has key || registry.claimed.has key then eviction
  else
    let split := key.splitOn nul
    let parts : InvocationIdentity := ⟨runId,split.getD 1 [],split.getD 2 []⟩
    ({ registry with
        actionIndex := registry.actionIndex.delete (actionIdentity parts)
        idempotencyIndex := registry.idempotencyIndex.delete (idempotencyIdentity parts)
        tombstones := registry.tombstones.delete key },
      ((filter.add sha256 key).add sha256 (actionIdentity parts)).add sha256
        (idempotencyIdentity parts),evictedCount + 1)

def evictSettled (runId : Text) (now : ℤ) (registry : Registry) : Registry :=
  let filter := (registry.evicted.get? runId).getD .empty
  let (registry,filter,evictedCount) :=
    registry.tombstones.entries.foldl (evictTombstone sha256 runId now) (registry,filter,0)
  if evictedCount = 0 then registry
  else { registry with evicted := registry.evicted.set runId filter }

def countForRun {α : Type} (runId : Text) (map : OrderedMap Text α) : Nat :=
  map.total fun key _ => if keyForRun key runId then 1 else 0

def runEntryCount (registry : Registry) (runId : Text) : Nat :=
  countForRun runId registry.entries + countForRun runId registry.claimed

def runIdentityCount (registry : Registry) (runId : Text) : Nat :=
  registry.actionIndex.total fun _ key => if keyForRun key runId then 1 else 0

def makeRoom (request : CodingToolInvocationStage) (now : ℤ) (registry : Registry) : Registry :=
  if maxIdentities ≤ runIdentityCount registry request.runId then evictSettled sha256 request.runId now registry
  else registry

def hasCapacity (request : CodingToolInvocationStage) (registry : Registry) : Bool :=
  decide (runEntryCount registry request.runId < maxLivePerRun) &&
    decide (runIdentityCount registry request.runId < maxIdentities) &&
    decide (registry.totalBytes + request.payload.length ≤ maxAggregateBytes)

end Capacity

section Calls

variable (sha256 : Text → UInt32 × UInt32)

inductive StageResult where
  | staged
  | duplicate
  | busy
  | invalid
  | conflict
  | replayed
  | revoked
  deriving DecidableEq, Repr

inductive TakeResult where
  | ready (payload : List UInt8)
  | expired
  | replayed
  | revoked
  | missing
  deriving DecidableEq, Repr

inductive Inspection where
  | missing
  | inFlight
  | revoked
  | terminal (receipt : Option Text)
  deriving DecidableEq, Repr

inductive CollisionOwnership where
  | none
  | same
  | conflict
  deriving DecidableEq, Repr

def collisionOwnership (actionOwner keyOwner : Option Text) (key : Text) : CollisionOwnership :=
  if actionOwner = none && keyOwner = none then .none
  else if actionOwner = some key && keyOwner = some key then .same
  else .conflict

variable (request : CodingToolInvocationStage)

def evictedCollision (key : Text) (registry : Registry) : Option StageResult :=
  match registry.evicted.get? request.runId with
  | none => none
  | some filter =>
    if filter.has sha256 key then some .replayed
    else if filter.has sha256 (actionIdentity request.toInvocationIdentity) ||
        filter.has sha256 (idempotencyIdentity request.toInvocationIdentity) then some .conflict
    else none

def wasEvicted (registry : Registry) (runId key : Text) : Bool :=
  (registry.evicted.get? runId).any (·.has sha256 key)

def collision (registry : Registry) : Option StageResult :=
  let key := identity request.toInvocationIdentity
  let actionOwner := registry.actionIndex.get? (actionIdentity request.toInvocationIdentity)
  let keyOwner := registry.idempotencyIndex.get? (idempotencyIdentity request.toInvocationIdentity)
  match collisionOwnership actionOwner keyOwner key with
  | .none => evictedCollision sha256 request key registry
  | .conflict => some .conflict
  | .same =>
    match registry.entries.get? key with
    | some live => some (if live.digest = request.digest then .duplicate else .conflict)
    | none =>
      let digest := ((registry.claimed.get? key).map (·.digest)).or ((registry.tombstones.get? key).map (·.digest))
      some (if digest = some request.digest then .replayed else .conflict)

def add (now : ℤ) (registry : Registry) : Registry :=
  let key := identity request.toInvocationIdentity
  { registry with
    entries := registry.entries.set key ⟨request.digest,expiryFor request now,false,request.payload⟩
    actionIndex := registry.actionIndex.set (actionIdentity request.toInvocationIdentity) key
    idempotencyIndex :=
      registry.idempotencyIndex.set (idempotencyIdentity request.toInvocationIdentity) key
    totalBytes := registry.totalBytes + request.payload.length }

def isRevoked (registry : Registry) (runId : Text) : Bool :=
  registry.disposed || registry.revoked.contains runId

def stage (now : ℤ) (registry : Registry) : Registry × StageResult :=
  let registry := expire now registry
  if isRevoked registry request.runId then (registry,.revoked)
  else if !validStage request then (registry,.invalid)
  else match collision sha256 request registry with
    | some refused => (registry,refused)
    | none =>
      let registry := makeRoom sha256 request now registry
      if hasCapacity request registry then (add request now registry,.staged) else (registry,.busy)

def TombstoneKind.taken : TombstoneKind → TakeResult
  | .expired => .expired
  | .replayed => .replayed

variable (request : InvocationIdentity)

def take (now : ℤ) (registry : Registry) : Registry × TakeResult :=
  let registry := expire now registry
  if isRevoked registry request.runId then (registry,.revoked)
  else
    let key := identity request
    if registry.claimed.has key then (registry,.replayed)
    else match registry.entries.get? key with
      | none =>
        match registry.tombstones.get? key with
        | some tombstone => (registry,tombstone.kind.taken)
        | none => (registry,if wasEvicted sha256 registry request.runId key then .replayed else .missing)
      | some entry =>
        let registry := remember key entry.digest entry.expiresAt .replayed (removeLive key entry false registry)
        ({ registry with claimed := registry.claimed.set key ⟨entry,none⟩ },.ready entry.payload)

def attachNativeRead (invocationId : Text) (now : ℤ)
    (registry : Registry) : Registry × Bool :=
  let registry := expire now registry
  match registry.claimed.get? (identity request) with
  | none => (registry,false)
  | some entry =>
    if registry.disposed || entry.nativeRead.isSome || entry.aborted then (registry,false)
    else
      let attached := { entry with nativeRead := some ⟨invocationId,.empty,0⟩ }
      ({ registry with claimed := registry.claimed.set (identity request) attached },true)

def nativeReadOwner (invocationId : Text) (now : ℤ)
    (registry : Registry) : Registry × Option NativeRead :=
  let registry := expire now registry
  match registry.claimed.get? (identity request) with
  | none => (registry,none)
  | some entry =>
    if registry.disposed || entry.aborted then (registry,none)
    else (registry,entry.nativeRead.filter (·.invocationId == invocationId))

inductive NativeReadClaim where
  | ready
  | duplicate
  | conflict
  | refused
  | busy
  deriving DecidableEq, Repr

def validNativeOperation (ordinal : Number) (digest : Text) : Bool :=
  isSafeIntegerFrom 1 ordinal && isDigest digest

def nativePacketCapacity (payloadBytes packetCount packetBytes bytes : Nat) (totalBytes : ℤ) : Bool :=
  decide (packetCount < maxIdentities) && decide (payloadBytes + packetBytes + bytes ≤ maxBytesPerEntry) &&
    decide (totalBytes + bytes ≤ maxAggregateBytes)

def claimNativeReadOperation (invocationId : Text) (ordinal : Number)
    (digest : Text) (now : ℤ) (registry : Registry) : Registry × NativeReadClaim :=
  let (registry,owner) := nativeReadOwner request invocationId now registry
  let key := identity request
  match owner, registry.claimed.get? key with
  | some native, some entry =>
    if !validNativeOperation ordinal digest then (registry,.refused)
    else match native.operations.get? ordinal with
      | some previous => (registry,if previous = digest then .duplicate else .conflict)
      | none =>
        let bytes := digest.byteLength + 8
        if nativePacketCapacity entry.payload.length native.operations.size native.bytes bytes registry.totalBytes then
          let claimed : NativeRead :=
            ⟨native.invocationId,native.operations.set ordinal digest,native.bytes + bytes⟩
          ({ registry with
              claimed := registry.claimed.set key { entry with nativeRead := some claimed }
              totalBytes := registry.totalBytes + bytes },.ready)
        else (registry,.busy)
  | _, _ => (registry,.refused)

inductive Receipt where
  | absent
  | captured (receipt : Text)
  | refused
  deriving DecidableEq

def Receipt.captures : Receipt → Option Text
  | .captured receipt => some receipt
  | _ => none

def settle (receipt : Receipt) (registry : Registry) : Registry × Bool :=
  let key := identity request
  match registry.claimed.get? key with
  | none => (registry,false)
  | some entry =>
    if receipt = .refused then (registry,false)
    else
      let registry := dropClaimed key entry .replayed registry
      match registry.tombstones.get? key, receipt.captures with
      | some tombstone, some captured =>
        ({ registry with
            tombstones := registry.tombstones.set key { tombstone with receipt := some captured } },true)
      | _, _ => (registry,true)

def inspect (now : ℤ) (registry : Registry) : Registry × Inspection :=
  let registry := expire now registry
  if isRevoked registry request.runId then (registry,.revoked)
  else
    let key := identity request
    if registry.entries.has key || registry.claimed.has key then (registry,.inFlight)
    else match registry.tombstones.get? key with
      | none =>
        (registry,if wasEvicted sha256 registry request.runId key then .terminal none else .missing)
      | some tombstone => (registry,.terminal tombstone.receipt)

def tombstoneFor (now : ℤ) (registry : Registry) : Registry × Bool :=
  let registry := expire now registry
  let key := identity request
  (registry,registry.tombstones.has key || wasEvicted sha256 registry request.runId key)

end Calls

section Revocation

def rememberRevoked (runId : Text) (registry : Registry) : Registry :=
  let revoked := registry.revoked ++ [runId]
  { registry with revoked := revoked.drop (revoked.length - maxRevokedRuns) }

def forgottenRuns (runId : Text) (registry : Registry) : List Text :=
  let revoked := registry.revoked ++ [runId]
  revoked.take (revoked.length - maxRevokedRuns)

def clearRunIdentities (runId : Text) (registry : Registry) : Registry :=
  { registry with
    actionIndex := registry.actionIndex.filter fun _ owner => !keyForRun owner runId
    idempotencyIndex := registry.idempotencyIndex.filter fun _ owner => !keyForRun owner runId
    tombstones := registry.tombstones.filter fun key _ => !keyForRun key runId }

def revokeRun (runId : Text) (registry : Registry) : Registry × Nat :=
  if registry.revoked.contains runId then (registry,0)
  else
    let count := runEntryCount registry runId
    let registry := rememberRevoked runId registry
    let registry := dropEntries (fun key _ => keyForRun key runId) .replayed registry
    let registry := dropClaims (fun key _ => keyForRun key runId) .replayed registry
    let registry := clearRunIdentities runId registry
    ({ registry with evicted := registry.evicted.delete runId },count)

def dispose (registry : Registry) : Registry :=
  if registry.disposed then registry
  else
    let registry := { registry with disposed := true }
    let registry := dropEntries (fun _ _ => true) .replayed registry
    let registry := dropClaims (fun _ _ => true) .replayed registry
    { registry with
      tombstones := .empty
      evicted := .empty
      actionIndex := .empty
      idempotencyIndex := .empty }

end Revocation

section Runs

variable (sha256 : Text → UInt32 × UInt32)

inductive Call where
  | stage (request : CodingToolInvocationStage)
  | take (request : InvocationIdentity)
  | attachNativeRead (request : InvocationIdentity) (invocationId : Text)
  | nativeReadOwner (request : InvocationIdentity) (invocationId : Text)
  | claimNativeReadOperation (request : InvocationIdentity) (invocationId : Text) (ordinal : Number)
      (digest : Text)
  | settle (request : InvocationIdentity) (receipt : Receipt)
  | inspect (request : InvocationIdentity)
  | tombstoneFor (request : InvocationIdentity)
  | revokeRun (runId : Text)
  | dispose
  | timer
  deriving DecidableEq

structure Event where
  now : ℤ
  call : Call
  deriving DecidableEq

inductive Note where
  | ready (identity : InvocationIdentity)
  | forgot (runId : Text)
  deriving DecidableEq

def step (registry : Registry) (event : Event) : Registry :=
  match event.call with
  | .stage request => (stage sha256 request event.now registry).1
  | .take request => (take sha256 request event.now registry).1
  | .attachNativeRead request invocationId =>
    (attachNativeRead request invocationId event.now registry).1
  | .nativeReadOwner request invocationId =>
    (nativeReadOwner request invocationId event.now registry).1
  | .claimNativeReadOperation request invocationId ordinal digest =>
    (claimNativeReadOperation request invocationId ordinal digest event.now registry).1
  | .settle request receipt => (settle request receipt registry).1
  | .inspect request => (inspect sha256 request event.now registry).1
  | .tombstoneFor request => (tombstoneFor sha256 request event.now registry).1
  | .revokeRun runId => (revokeRun runId registry).1
  | .dispose => dispose registry
  | .timer => expire event.now registry

def notes (registry : Registry) (event : Event) : List Note :=
  match event.call with
  | .take request =>
    match (take sha256 request event.now registry).2 with
    | .ready _ => [.ready request]
    | _ => []
  | .revokeRun runId =>
    if registry.revoked.contains runId then [] else (forgottenRuns runId registry).map .forgot
  | _ => []

def machine : Machine Registry Event Note where
  start := .empty
  step := step sha256
  notes := notes sha256

end Runs

end Keiko.ToolInvocation
