import Keiko.Library.Trace
import Keiko.ToolInvocation

/-! What the registry guarantees over a whole run: the bytes that it counts are those it holds, no
run holds more than its share, and an identity is handed out once. Each of the maps names an identity
by its own key, and an identity that was handed out stays in the index or in the filter of its run
until the run is revoked. -/
namespace Keiko.ToolInvocation
open Keiko.Library Keiko.Runtime List OrderedMap

section Keys

variable {req other : InvocationIdentity}

structure InvocationIdentity.Plain (req : InvocationIdentity) : Prop where
  runId : nul ∉ req.runId
  actionId : nul ∉ req.actionId
  idempotencyKey : nul ∉ req.idempotencyKey

theorem nonEmpty_plain {v : Text} (filled : nonEmpty v = true) : nul ∉ v := by
  simp only [nonEmpty,Bool.and_eq_true] at filled
  simpa using filled.2

theorem validStage_plain {req : CodingToolInvocationStage} (valid : validStage req = true) :
    req.toInvocationIdentity.Plain := by
  simp only [validStage,Bool.and_eq_true] at valid
  obtain ⟨⟨⟨⟨⟨⟨run,action⟩,key⟩,_⟩,_⟩,_⟩,_⟩ := valid
  exact ⟨nonEmpty_plain run,nonEmpty_plain action,nonEmpty_plain key⟩

theorem append_nul_inj {a b rest last : Text} (plain : nul ∉ a) (other : nul ∉ b)
    (same : a ++ nul :: rest = b ++ nul :: last) : a = b ∧ rest = last := by
  induction a generalizing b with
  | nil =>
    cases b with
    | nil => exact ⟨rfl,(cons.inj same).2⟩
    | cons c b =>
      have head : nul = c := (cons.inj same).1
      rw [← head] at other
      exact absurd mem_cons_self other
  | cons c a ih =>
    cases b with
    | nil =>
      have head : c = nul := (cons.inj same).1
      rw [head] at plain
      exact absurd mem_cons_self plain
    | cons d b =>
      obtain ⟨head,tail⟩ := cons.inj same
      rw [mem_cons,not_or] at plain other
      obtain ⟨rfl,rfl⟩ := ih plain.2 other.2 tail
      rw [head]
      exact ⟨rfl,rfl⟩

theorem count_identity (req : InvocationIdentity) : (identity req).count nul =
    req.runId.count nul + req.actionId.count nul + req.idempotencyKey.count nul + 2 := by
  rw [identity,append_assoc,count_append,cons_append,count_cons_self,count_append,count_cons_self]
  omega

theorem identity_inj (plain : req.Plain) (same : identity other = identity req) : other = req := by
  have counts := congrArg (count nul) same
  rw [count_identity,count_identity,count_eq_zero_of_not_mem plain.runId,count_eq_zero_of_not_mem plain.actionId,
    count_eq_zero_of_not_mem plain.idempotencyKey] at counts
  have run : nul ∉ other.runId := count_eq_zero.mp (by omega)
  have action : nul ∉ other.actionId := count_eq_zero.mp (by omega)
  rw [identity,identity,append_assoc,append_assoc] at same
  obtain ⟨runs,rest⟩ := append_nul_inj run plain.runId same
  obtain ⟨actions,keys⟩ := append_nul_inj action plain.actionId rest
  obtain ⟨_,_,_⟩ := other
  simp only at runs actions keys
  rw [runs,actions,keys]

theorem splitOn_identity (plain : req.Plain) :
    (identity req).splitOn nul = [req.runId,req.actionId,req.idempotencyKey] := by
  have parts : identity req = intercalate [nul] [req.runId,req.actionId,req.idempotencyKey] := by
    simp [identity,intercalate]
  rw [parts]
  apply splitOn_intercalate
  · intro part mem
    simp only [mem_cons,not_mem_nil,or_false] at mem
    obtain rfl | rfl | rfl := mem
    · exact plain.runId
    · exact plain.actionId
    · exact plain.idempotencyKey
  · exact cons_ne_nil _ _

theorem keyForRun_iff {key runId : Text} : keyForRun key runId = true ↔ ∃ rest, key = runId ++ nul :: rest := by
  rw [keyForRun,List.isPrefixOf_iff_prefix]
  constructor
  · intro ⟨rest,same⟩
    refine ⟨rest,?_⟩
    rw [← same,append_assoc]
    rfl
  · intro ⟨rest,same⟩
    refine ⟨rest,?_⟩
    rw [same,append_assoc]
    rfl

theorem keyForRun_self (req : InvocationIdentity) : keyForRun (identity req) req.runId = true := by
  rw [keyForRun_iff]
  refine ⟨req.actionId ++ nul :: req.idempotencyKey,?_⟩
  rw [identity,append_assoc]
  rfl

theorem keyForRun_identity (plain : req.Plain) {runId : Text} (run : nul ∉ runId)
    (owned : keyForRun (identity req) runId = true) : req.runId = runId := by
  obtain ⟨rest,same⟩ := keyForRun_iff.mp owned
  rw [identity,append_assoc] at same
  exact (append_nul_inj plain.runId run same).1

end Keys

section Invariant

def Indexed (reg : Registry) (key : Text) : Prop :=
  ∃ request : InvocationIdentity, request.Plain ∧ identity request = key ∧
    reg.actionIndex.get? (actionIdentity request) = some key ∧
      reg.idempotencyIndex.get? (idempotencyIdentity request) = some key

def payloadBytes (_ : Text) (entry : Entry) : ℤ := entry.payload.length

def claimedBytes (_ : Text) (entry : ClaimedEntry) : ℤ := entry.payload.length + nativeBytes entry

def heldBytes (reg : Registry) : ℤ :=
  reg.entries.total payloadBytes + reg.claimed.total claimedBytes

structure Kept (reg : Registry) : Prop where
  live : ∀ key entry, reg.entries.get? key = some entry → Indexed reg key
  claimed : ∀ key entry, reg.claimed.get? key = some entry → Indexed reg key ∧ reg.entries.get? key = none
  tombstones : ∀ key tombstone, reg.tombstones.get? key = some tombstone → Indexed reg key
  bytes : reg.totalBytes = heldBytes reg
  capped : reg.totalBytes ≤ maxAggregateBytes
  shares : ∀ runId, nul ∉ runId → runEntryCount reg runId ≤ maxLivePerRun

end Invariant

section Drops

variable {reg reg' : Registry} {key other : Text}

theorem Indexed.frame (indexed : Indexed reg key) (actions : reg'.actionIndex = reg.actionIndex)
    (keys : reg'.idempotencyIndex = reg.idempotencyIndex) : Indexed reg' key := by
  rw [Indexed,actions,keys]
  exact indexed

structure Same (reg reg' : Registry) : Prop where
  revoked : reg'.revoked = reg.revoked
  actionIndex : reg'.actionIndex = reg.actionIndex
  idempotencyIndex : reg'.idempotencyIndex = reg.idempotencyIndex
  evicted : reg'.evicted = reg.evicted
  disposed : reg'.disposed = reg.disposed

theorem Same.refl (reg : Registry) : Same reg reg := ⟨rfl,rfl,rfl,rfl,rfl⟩

theorem Same.trans {reg'' : Registry} (a : Same reg reg') (b : Same reg' reg'') : Same reg reg'' :=
  ⟨b.revoked.trans a.revoked,b.actionIndex.trans a.actionIndex,
    b.idempotencyIndex.trans a.idempotencyIndex,b.evicted.trans a.evicted,
    b.disposed.trans a.disposed⟩

theorem Same.indexed (same : Same reg reg') (indexed : Indexed reg key) :
    Indexed reg' key := indexed.frame same.actionIndex same.idempotencyIndex

variable {digest : Text} {expiresAt : ℤ} {kind : TombstoneKind}

theorem remember_same : Same reg (remember key digest expiresAt kind reg) := by
  rw [remember]
  split
  · exact Same.refl reg
  · exact ⟨rfl,rfl,rfl,rfl,rfl⟩

theorem remember_maps : (remember key digest expiresAt kind reg).entries = reg.entries ∧
      (remember key digest expiresAt kind reg).claimed = reg.claimed ∧
        (remember key digest expiresAt kind reg).totalBytes = reg.totalBytes := by
  rw [remember]
  split <;> exact ⟨rfl,rfl,rfl⟩

theorem remember_tombstones {tombstone : Tombstone}
    (hit : (remember key digest expiresAt kind reg).tombstones.get? other = some tombstone) :
    reg.tombstones.get? other = some tombstone ∨ other = key := by
  rw [remember] at hit
  split at hit
  · exact .inl hit
  · by_cases same : other = key
    · exact .inr same
    · rw [get?_set_of_ne _ same] at hit
      exact .inl hit

theorem remember_keeps {tombstone : Tombstone} (hit : reg.tombstones.get? other = some tombstone) :
    (remember key digest expiresAt kind reg).tombstones.get? other = some tombstone := by
  rw [remember]
  split
  · exact hit
  next gone =>
    rw [Bool.not_eq_true,has_eq_false] at gone
    change (OrderedMap.set _ _ _).get? other = some tombstone
    rw [get?_set_of_ne,hit]
    intro same
    rw [same,gone] at hit
    cases hit

theorem Kept.remember (kept : Kept reg) (indexed : Indexed reg key) :
    Kept (remember key digest expiresAt kind reg) := by
  have same := @remember_same reg key digest expiresAt kind
  obtain ⟨es,claimed,bytes⟩ := @remember_maps reg key digest expiresAt kind
  refine ⟨?_,?_,?_,?_,?_,?_⟩
  · rw [es]
    exact fun key e hit => same.indexed (kept.live key e hit)
  · rw [es,claimed]
    exact fun key e hit => (kept.claimed key e hit).imp_left same.indexed
  · intro key tombstone hit
    rcases remember_tombstones hit with before | rfl
    · exact same.indexed (kept.tombstones key tombstone before)
    · exact same.indexed indexed
  · rw [bytes,heldBytes,es,claimed]
    exact kept.bytes
  · rw [bytes]
    exact kept.capped
  · intro runId plain
    rw [runEntryCount,es,claimed]
    exact kept.shares runId plain

theorem payloadBytes_nonneg (map : OrderedMap Text Entry) : 0 ≤ map.total payloadBytes := by
  apply sum_nonneg
  intro bytes mem
  obtain ⟨e,_,rfl⟩ := mem_map.mp mem
  exact Int.natCast_nonneg _

theorem claimedBytes_nonneg (map : OrderedMap Text ClaimedEntry) : 0 ≤ map.total claimedBytes := by
  apply sum_nonneg
  intro bytes mem
  obtain ⟨e,_,rfl⟩ := mem_map.mp mem
  simp only [claimedBytes]
  omega

theorem countForRun_delete {α : Type} {map : OrderedMap Text α} {v : α}
    (hit : map.get? key = some v) (runId : Text) :
    countForRun runId map = (if keyForRun key runId then 1 else 0) + countForRun runId (map.delete key) :=
  total_delete_of_some _ hit

theorem removeLive_same {e : Entry} {releaseBytes : Bool} :
    Same reg (removeLive key e releaseBytes reg) := ⟨rfl,rfl,rfl,rfl,rfl⟩

theorem Kept.removeLive (kept : Kept reg) {e : Entry} (hit : reg.entries.get? key = some e) :
    Kept (removeLive key e true reg) := by
  have others {other : Text} {entry' : Entry} (found' : (reg.entries.delete key).get? other = some entry') :
      reg.entries.get? other = some entry' := by
    rw [get?_delete] at found'
    split at found'
    · cases found'
    · exact found'
  have bytes := total_delete_of_some payloadBytes hit
  have held := kept.bytes
  rw [heldBytes,bytes,payloadBytes] at held
  refine ⟨?_,?_,?_,?_,?_,?_⟩
  · exact fun other entry' found' => kept.live other entry' (others found')
  · intro other entry' found'
    obtain ⟨indexed,gone⟩ := kept.claimed other entry' found'
    refine ⟨indexed,?_⟩
    change (reg.entries.delete key).get? other = none
    rw [get?_delete,gone,ite_self]
  · exact kept.tombstones
  · change reg.totalBytes - e.payload.length =
      (reg.entries.delete key).total payloadBytes + reg.claimed.total claimedBytes
    omega
  · have capped := kept.capped
    change reg.totalBytes - e.payload.length ≤ maxAggregateBytes
    omega
  · intro runId plain
    have share := kept.shares runId plain
    rw [runEntryCount,countForRun_delete hit] at share
    change countForRun runId (reg.entries.delete key) + countForRun runId reg.claimed ≤ _
    omega

theorem dropLive_same {e : Entry} : Same reg (dropLive key e kind reg) :=
  removeLive_same.trans remember_same

theorem Kept.dropLive (kept : Kept reg) {e : Entry}
    (hit : reg.entries.get? key = some e) : Kept (dropLive key e kind reg) :=
  (kept.removeLive hit).remember ((kept.live key e hit).frame rfl rfl)

theorem Kept.removeClaimed (kept : Kept reg) {e : ClaimedEntry} (hit : reg.claimed.get? key = some e) :
    Kept { reg with
      claimed := reg.claimed.delete key
      totalBytes := reg.totalBytes - (e.payload.length + nativeBytes e) } := by
  have bytes := total_delete_of_some claimedBytes hit
  have held := kept.bytes
  rw [heldBytes,bytes,claimedBytes] at held
  refine ⟨kept.live,?_,kept.tombstones,?_,?_,?_⟩
  · intro other entry' found'
    refine kept.claimed other entry' ?_
    change (reg.claimed.delete key).get? other = some entry' at found'
    rw [get?_delete] at found'
    split at found'
    · cases found'
    · exact found'
  · change reg.totalBytes - (e.payload.length + nativeBytes e) =
      reg.entries.total payloadBytes + (reg.claimed.delete key).total claimedBytes
    omega
  · have capped := kept.capped
    change reg.totalBytes - (e.payload.length + nativeBytes e) ≤ maxAggregateBytes
    omega
  · intro runId plain
    have share := kept.shares runId plain
    rw [runEntryCount,countForRun_delete hit] at share
    change countForRun runId reg.entries + countForRun runId (reg.claimed.delete key) ≤ _
    omega

theorem dropClaimed_same {e : ClaimedEntry} : Same reg (dropClaimed key e kind reg) := by
  rw [dropClaimed]
  refine Same.trans ?_ remember_same
  exact ⟨rfl,rfl,rfl,rfl,rfl⟩

theorem Kept.dropClaimed (kept : Kept reg) {e : ClaimedEntry}
    (hit : reg.claimed.get? key = some e) : Kept (dropClaimed key e kind reg) :=
  (kept.removeClaimed hit).remember ((kept.claimed key e hit).1.frame rfl rfl)

/-- What a loop that drops entries leaves: fewer live and claimed entries, no dropped one, and every
tombstone. -/
structure Dropped (drops : Text → Entry → Bool) (claims : Text → ClaimedEntry → Bool)
    (reg reg' : Registry) : Prop where
  kept : Kept reg'
  same : Same reg reg'
  live : ∀ key entry, reg'.entries.get? key = some entry → reg.entries.get? key = some entry ∧ drops key entry = false
  claimed : ∀ key entry, reg'.claimed.get? key = some entry →
    reg.claimed.get? key = some entry ∧ claims key entry = false
  buried : ∀ key tombstone, reg.tombstones.get? key = some tombstone → reg'.tombstones.get? key = some tombstone

theorem dropEntries_dropped (kept : Kept reg) (drops : Text → Entry → Bool) :
    Dropped drops (fun _ _ => false) reg (dropEntries drops kind reg) := by
  obtain ⟨⟨kept,same,claimed,buried⟩,live⟩ := foldl_drop Registry.entries drops
    (fun cur item => dropLive item.1 item.2 kind cur)
    (fun cur => Kept cur ∧ Same reg cur ∧ cur.claimed = reg.claimed ∧
      ∀ key tombstone, reg.tombstones.get? key = some tombstone → cur.tombstones.get? key = some tombstone)
    ⟨kept,Same.refl reg,rfl,fun _ _ buried => buried⟩ (by
      intro cur item holds hit
      obtain ⟨kept,same,claimed,buried⟩ := holds
      have maps := @remember_maps (removeLive item.1 item.2 true cur) item.1 item.2.digest item.2.expiresAt kind
      exact ⟨⟨kept.dropLive hit,same.trans dropLive_same,maps.2.1.trans claimed,
        fun key tombstone before => remember_keeps (buried key tombstone before)⟩,maps.1⟩)
  refine ⟨kept,same,?_,?_,buried⟩
  · intro key e hit
    rw [dropEntries,live,Option.filter_eq_some_iff] at hit
    simpa using hit
  · rw [dropEntries,claimed]
    exact fun key e hit => ⟨hit,rfl⟩

theorem dropClaims_dropped (kept : Kept reg) (claims : Text → ClaimedEntry → Bool) :
    Dropped (fun _ _ => false) claims reg (dropClaims claims kind reg) := by
  obtain ⟨⟨kept,same,es,buried⟩,claimed⟩ := foldl_drop Registry.claimed claims
    (fun cur item => dropClaimed item.1 item.2 kind cur)
    (fun cur => Kept cur ∧ Same reg cur ∧ cur.entries = reg.entries ∧
      ∀ key tombstone, reg.tombstones.get? key = some tombstone → cur.tombstones.get? key = some tombstone)
    ⟨kept,Same.refl reg,rfl,fun _ _ buried => buried⟩ (by
      intro cur item holds hit
      obtain ⟨kept,same,es,buried⟩ := holds
      have maps := @remember_maps { cur with
          claimed := cur.claimed.delete item.1
          totalBytes := cur.totalBytes - (item.2.payload.length + nativeBytes item.2) }
        item.1 item.2.digest item.2.expiresAt kind
      exact ⟨⟨kept.dropClaimed hit,same.trans dropClaimed_same,maps.1.trans es,
        fun key tombstone before => remember_keeps (buried key tombstone before)⟩,maps.2.1⟩)
  refine ⟨kept,same,?_,?_,buried⟩
  · rw [dropClaims,es]
    exact fun key e hit => ⟨hit,rfl⟩
  · intro key e hit
    rw [dropClaims,claimed,Option.filter_eq_some_iff] at hit
    simpa using hit

theorem Dropped.trans {drops : Text → Entry → Bool} {claims : Text → ClaimedEntry → Bool}
    {reg'' : Registry} (a : Dropped drops (fun _ _ => false) reg reg')
    (b : Dropped (fun _ _ => false) claims reg' reg'') :
    Dropped drops claims reg reg'' := by
  refine ⟨b.kept,a.same.trans b.same,?_,?_,
    fun key tombstone before => b.buried key tombstone (a.buried key tombstone before)⟩
  · exact fun key e hit => a.live key e (b.live key e hit).1
  · intro key e hit
    obtain ⟨before,kept⟩ := b.claimed key e hit
    exact ⟨(a.claimed key e before).1,kept⟩

theorem expire_dropped (kept : Kept reg) (now : ℤ) : Dropped (fun _ e => decide (e.expiresAt ≤ now))
      (fun _ e => decide (e.expiresAt ≤ now)) reg (expire now reg) := by
  have a := @dropEntries_dropped reg .expired kept (fun _ e => decide (e.expiresAt ≤ now))
  exact a.trans (dropClaims_dropped a.kept _)

end Drops

section Eviction

variable {sha256 : Text → UInt32 × UInt32} {reg reg' : Registry} {key : Text} {req : InvocationIdentity}
  {filter : CodingToolReplayFilter} {item : Text × Tombstone} {runId : Text}

/-- An identity that the index or the filter of its run tells of. -/
def Known (sha256 : Text → UInt32 × UInt32) (reg : Registry) (req : InvocationIdentity) :
    Prop :=
  reg.actionIndex.get? (actionIdentity req) = some (identity req) ∨
    wasEvicted sha256 reg req.runId (identity req) = true

def forgetIdentity (req : InvocationIdentity) (reg : Registry) : Registry :=
  { reg with
    actionIndex := reg.actionIndex.delete (actionIdentity req)
    idempotencyIndex := reg.idempotencyIndex.delete (idempotencyIdentity req)
    tombstones := reg.tombstones.delete (identity req) }

def addIdentity (sha256 : Text → UInt32 × UInt32) (req : InvocationIdentity)
    (filter : CodingToolReplayFilter) : CodingToolReplayFilter :=
  ((filter.add sha256 (identity req)).add sha256 (actionIdentity req)).add sha256 (idempotencyIdentity req)

def evicts (runId : Text) (now : ℤ) (reg : Registry) (item : Text × Tombstone) : Bool :=
  keyForRun item.1 runId && decide (item.2.expiresAt ≤ now) && !reg.entries.has item.1 && !reg.claimed.has item.1

theorem evictTombstone_eq (run : nul ∉ runId) (now : ℤ)
    (filter : CodingToolReplayFilter) (count : Nat)
    (plain : req.Plain) (named : identity req = item.1) :
    evictTombstone sha256 runId now (reg,filter,count) item = if evicts runId now reg item then
        (forgetIdentity req reg,addIdentity sha256 req filter,count + 1)
      else (reg,filter,count) := by
  rw [evictTombstone,evicts]
  simp only
  cases owned : keyForRun item.1 runId with
  | false => simp
  | true =>
    by_cases due : item.2.expiresAt ≤ now
    · cases live : reg.entries.has item.1 with
      | true => simp
      | false =>
        cases claimed : reg.claimed.has item.1 with
        | true => simp
        | false =>
          rw [← named] at owned
          have same := keyForRun_identity plain run owned
          subst same
          rw [← named,splitOn_identity plain]
          simp only [decide_eq_true due,decide_eq_false (not_lt.mpr due),Bool.not_true,Bool.or_self,
            Bool.false_eq_true,if_false,Bool.not_false,Bool.and_self,if_true]
          rfl
    · simp [due,lt_of_not_ge due]

theorem evicts_iff {now : ℤ} :
    evicts runId now reg item = true ↔ keyForRun item.1 runId = true ∧ item.2.expiresAt ≤ now ∧
      reg.entries.get? item.1 = none ∧ reg.claimed.get? item.1 = none := by
  simp [evicts,has_eq_false,and_assoc]

theorem Indexed.forget (indexed : Indexed reg key)
    (actions : reg.actionIndex.get? (actionIdentity req) = some (identity req))
    (keys : reg.idempotencyIndex.get? (idempotencyIdentity req) = some (identity req))
    (differ : key ≠ identity req) : Indexed (forgetIdentity req reg) key := by
  obtain ⟨other,plain,rfl,action,idempotency⟩ := indexed
  refine ⟨other,plain,rfl,?_,?_⟩
  · change (reg.actionIndex.delete _).get? _ = _
    rw [get?_delete_of_ne,action]
    intro same
    rw [same,actions] at action
    exact differ (Option.some.inj action).symm
  · change (reg.idempotencyIndex.delete _).get? _ = _
    rw [get?_delete_of_ne,idempotency]
    intro same
    rw [same,keys] at idempotency
    exact differ (Option.some.inj idempotency).symm

theorem Kept.forget (kept : Kept reg) (indexed : Indexed reg (identity req))
    (plain : req.Plain) (idle : reg.entries.get? (identity req) = none)
    (settled : reg.claimed.get? (identity req) = none) :
    Kept (forgetIdentity req reg) := by
  obtain ⟨other,_,same,actions,keys⟩ := indexed
  rw [identity_inj plain same] at actions keys
  refine ⟨?_,?_,?_,kept.bytes,kept.capped,kept.shares⟩
  · intro key e hit
    apply (kept.live key e hit).forget actions keys
    intro same
    change reg.entries.get? key = some e at hit
    rw [same,idle] at hit
    cases hit
  · intro key e hit
    obtain ⟨indexed,gone⟩ := kept.claimed key e hit
    refine ⟨indexed.forget actions keys ?_,gone⟩
    intro same
    change reg.claimed.get? key = some e at hit
    rw [same,settled] at hit
    cases hit
  · intro key tombstone hit
    change (reg.tombstones.delete _).get? key = some tombstone at hit
    rw [get?_delete] at hit
    split at hit
    · cases hit
    next differ => exact (kept.tombstones key tombstone hit).forget actions keys differ

theorem addIdentity_has {v : Text}
    (held : filter.has sha256 v = true) : (addIdentity sha256 req filter).has sha256 v = true :=
  Bloom.has_add (Bloom.has_add (Bloom.has_add held))

theorem addIdentity_self :
    (addIdentity sha256 req filter).has sha256 (identity req) = true :=
  Bloom.has_add (Bloom.has_add Bloom.has_add_self)

structure Evicts (sha256 : Text → UInt32 × UInt32) (reg reg' : Registry) : Prop where
  kept : Kept reg'
  entries : reg'.entries = reg.entries
  claimed : reg'.claimed = reg.claimed
  revoked : reg'.revoked = reg.revoked
  disposed : reg'.disposed = reg.disposed
  totalBytes : reg'.totalBytes = reg.totalBytes
  freeAction : ∀ key, reg.actionIndex.get? key = none → reg'.actionIndex.get? key = none
  freeKey : ∀ key, reg.idempotencyIndex.get? key = none → reg'.idempotencyIndex.get? key = none
  known : ∀ req : InvocationIdentity, req.Plain → Known sha256 reg req → Known sha256 reg' req

structure Evicting (sha256 : Text → UInt32 × UInt32) (runId : Text) (reg : Registry)
    (eviction : Eviction) : Prop where
  kept : Kept eviction.1
  entries : eviction.1.entries = reg.entries
  claimed : eviction.1.claimed = reg.claimed
  revoked : eviction.1.revoked = reg.revoked
  disposed : eviction.1.disposed = reg.disposed
  totalBytes : eviction.1.totalBytes = reg.totalBytes
  evicted : eviction.1.evicted = reg.evicted
  freeAction : ∀ key, reg.actionIndex.get? key = none → eviction.1.actionIndex.get? key = none
  freeKey : ∀ key, reg.idempotencyIndex.get? key = none → eviction.1.idempotencyIndex.get? key = none
  grows : ∀ value, ((reg.evicted.get? runId).getD .empty).has sha256 value = true → eviction.2.1.has sha256 value = true
  indexed : ∀ req : InvocationIdentity, req.Plain →
    reg.actionIndex.get? (actionIdentity req) = some (identity req) →
      eviction.1.actionIndex.get? (actionIdentity req) = some (identity req) ∨
        req.runId = runId ∧ eviction.2.1.has sha256 (identity req) = true
  untouched : eviction.2.2 = 0 → eviction.1 = reg

theorem evictSettled_evicts (kept : Kept reg) (run : nul ∉ runId) (now : ℤ) :
    Evicts sha256 reg (evictSettled sha256 runId now reg) := by
  have loop : Evicting sha256 runId reg (reg.tombstones.entries.foldl
      (evictTombstone sha256 runId now) (reg,(reg.evicted.get? runId).getD .empty,0)) ∧
        ∀ item ∈ ([] : List (Text × Tombstone)), (reg.tombstones.entries.foldl (evictTombstone sha256 runId now)
            (reg,(reg.evicted.get? runId).getD .empty,0)).1.tombstones.get? item.1 = some item.2 := by
    apply @OrderedMap.foldl_entries _ _ _ _ reg.tombstones _
      (fun (xs : List (Text × Tombstone)) (eviction : Eviction) =>
        Evicting sha256 runId reg eviction ∧ ∀ item ∈ xs, eviction.1.tombstones.get? item.1 = some item.2)
    · refine ⟨⟨kept,rfl,rfl,rfl,rfl,rfl,rfl,fun _ free => free,fun _ free => free,
        fun _ held => held,fun _ _ owned => .inl owned,fun _ => rfl⟩,fun item mem => mem_entries.mp mem⟩
    · intro item xs eviction fresh holds
      obtain ⟨cur,filter,count⟩ := eviction
      obtain ⟨evicting,still⟩ := holds
      have indexed := evicting.kept.tombstones _ _ (still item mem_cons_self)
      have ⟨req,plain,named,_⟩ := indexed
      rw [evictTombstone_eq run now filter count plain named]
      split
      next due =>
        obtain ⟨owned,_,idle,settled⟩ := evicts_iff.mp due
        rw [← named] at idle settled indexed owned
        have own := keyForRun_identity plain run owned
        refine ⟨{ evicting with
          kept := evicting.kept.forget indexed plain idle settled, freeAction := ?_, freeKey := ?_,
          grows := ?_, indexed := ?_, untouched := ?_ },?_⟩
        · intro key free
          change (cur.actionIndex.delete _).get? key = none
          rw [get?_delete,evicting.freeAction key free,ite_self]
        · intro key free
          change (cur.idempotencyIndex.delete _).get? key = none
          rw [get?_delete,evicting.freeKey key free,ite_self]
        · exact fun v held => addIdentity_has (evicting.grows v held)
        · intro other whole owned
          rcases evicting.indexed other whole owned with i | ⟨same,held⟩
          · by_cases same : actionIdentity other = actionIdentity req
            · obtain ⟨owner,_,identical,actions,_⟩ := indexed
              rw [identity_inj plain identical] at actions
              rw [same,actions,Option.some_inj] at i
              rw [← identity_inj whole i]
              exact .inr ⟨own,addIdentity_self⟩
            · refine .inl ?_
              change (cur.actionIndex.delete _).get? _ = _
              rw [get?_delete_of_ne same,i]
          · exact .inr ⟨same,addIdentity_has held⟩
        · intro none_evicted
          cases none_evicted
        · intro other mem
          change (cur.tombstones.delete _).get? _ = _
          rw [get?_delete_of_ne,still other (mem_cons_of_mem _ mem)]
          intro same
          rw [named] at same
          exact fresh (mem_map.mpr ⟨other,mem,same⟩)
      next => exact ⟨evicting,fun other mem => still other (mem_cons_of_mem _ mem)⟩
  rw [evictSettled]
  simp only
  generalize reg.tombstones.entries.foldl (evictTombstone sha256 runId now)
    (reg,(reg.evicted.get? runId).getD .empty,0) = eviction at loop
  obtain ⟨evicting,_⟩ := loop
  obtain ⟨cur,filter,count⟩ := eviction
  simp only
  split
  next none_evicted =>
    have same : cur = reg := evicting.untouched none_evicted
    rw [same]
    exact ⟨kept,rfl,rfl,rfl,rfl,rfl,fun _ free => free,fun _ free => free,fun _ _ known => known⟩
  next =>
    have kept := evicting.kept
    refine { evicting with kept := { kept with }, known := ?_ }
    intro req plain known
    have filtered (held : filter.has sha256 (identity req) = true) (own : req.runId = runId) :
        wasEvicted sha256 { cur with evicted := cur.evicted.set runId filter }
          req.runId (identity req) = true := by
      rw [wasEvicted,own,get?_set_self]
      exact held
    rcases known with owned | evicted
    · rcases evicting.indexed req plain owned with i | ⟨own,held⟩
      · exact .inl i
      · exact .inr (filtered held own)
    · by_cases own : req.runId = runId
      · refine .inr (filtered (evicting.grows _ ?_) own)
        rw [wasEvicted,own] at evicted
        cases found : reg.evicted.get? runId with
        | none =>
          rw [found] at evicted
          cases evicted
        | some before =>
          rw [found] at evicted
          exact evicted
      · refine .inr ?_
        rw [wasEvicted] at evicted ⊢
        simp only
        rw [get?_set_of_ne _ own,evicting.evicted]
        exact evicted

end Eviction

section Law

variable (before : List Note)

def Spent (request : InvocationIdentity) : Prop :=
  ∃ front back, before = front ++ .ready request :: back ∧ .forgot request.runId ∉ back

def Allowed : Note → Prop
  | .ready request => ¬ Spent before request
  | .forgot _ => True

/-- An identity that was handed out is not live, and its run is revoked or tells of it. -/
def Remembered (sha256 : Text → UInt32 × UInt32) (reg : Registry) (notes : List Note) : Prop :=
  ∀ request, Spent notes request → request.Plain ∧ reg.entries.get? (identity request) = none ∧
    (isRevoked reg request.runId = true ∨ Known sha256 reg request)

structure Traced (sha256 : Text → UInt32 × UInt32) (reg : Registry) (notes : List Note) :
    Prop where
  kept : Kept reg
  lawful : Lawful Allowed notes
  remembered : Remembered sha256 reg notes

end Law

section Calls

variable {sha256 : Text → UInt32 × UInt32} {reg reg' : Registry} {notes : List Note}

theorem Remembered.frame (remembered : Remembered sha256 reg notes)
    (live : ∀ key e, reg'.entries.get? key = some e → ∃ before, reg.entries.get? key = some before)
    (revoked : ∀ runId, isRevoked reg runId = true → isRevoked reg' runId = true)
    (known : ∀ request : InvocationIdentity, request.Plain → Known sha256 reg request →
      Known sha256 reg' request) : Remembered sha256 reg' notes := by
  intro request spent
  obtain ⟨plain,idle,either⟩ := remembered request spent
  refine ⟨plain,?_,either.imp (revoked _) (known request plain)⟩
  cases found : reg'.entries.get? (identity request) with
  | none => rfl
  | some e =>
    obtain ⟨before,here⟩ := live _ e found
    rw [idle] at here
    cases here

theorem Same.isRevoked (same : Same reg reg') (runId : Text) : isRevoked reg' runId = isRevoked reg runId := by
  rw [ToolInvocation.isRevoked,ToolInvocation.isRevoked,same.disposed,same.revoked]

theorem Same.known (same : Same reg reg') {request : InvocationIdentity}
    (known : Known sha256 reg request) : Known sha256 reg' request := by
  rw [Known,wasEvicted,same.actionIndex,same.evicted]
  exact known

theorem Remembered.same (remembered : Remembered sha256 reg notes) (same : Same reg reg')
    (live : ∀ key e, reg'.entries.get? key = some e →
      ∃ before, reg.entries.get? key = some before) : Remembered sha256 reg' notes :=
  remembered.frame live (fun runId revoked => (same.isRevoked runId).trans revoked) fun _ _ known => same.known known

theorem Traced.expire (traced : Traced sha256 reg notes) (now : ℤ) : Traced sha256 (expire now reg) notes := by
  have dropped := expire_dropped traced.kept now
  refine ⟨dropped.kept,traced.lawful,traced.remembered.same dropped.same ?_⟩
  exact fun key e hit => ⟨e,(dropped.live key e hit).1⟩

theorem Kept.replaceClaimed (kept : Kept reg) {key : Text} {e next : ClaimedEntry}
    (hit : reg.claimed.get? key = some e) {more : ℤ}
    (bytes : claimedBytes key next = claimedBytes key e + more)
    (capped : reg.totalBytes + more ≤ maxAggregateBytes) :
    Kept { reg with
      claimed := reg.claimed.set key next, totalBytes := reg.totalBytes + more } := by
  have held := kept.bytes
  have weighed := total_set_of_some claimedBytes hit next
  rw [heldBytes] at held
  refine ⟨kept.live,?_,kept.tombstones,?_,capped,?_⟩
  · intro other entry' here
    change (reg.claimed.set key next).get? other = some entry' at here
    rw [get?_set] at here
    split at here
    next same =>
      rw [same]
      exact kept.claimed key e hit
    next => exact kept.claimed other entry' here
  · change reg.totalBytes + more = reg.entries.total payloadBytes + (reg.claimed.set key next).total claimedBytes
    omega
  · intro runId plain
    have share := kept.shares runId plain
    have counted : countForRun runId (reg.claimed.set key next) + (if keyForRun key runId then 1 else 0) =
        countForRun runId reg.claimed + (if keyForRun key runId then 1 else 0) :=
      total_set_of_some _ hit next
    rw [runEntryCount] at share ⊢
    change countForRun runId reg.entries + countForRun runId (reg.claimed.set key next) ≤ _
    omega

theorem collision_eq_none {request : CodingToolInvocationStage} (fresh : collision sha256 request reg = none) :
    reg.actionIndex.get? (actionIdentity request.toInvocationIdentity) = none ∧
      reg.idempotencyIndex.get? (idempotencyIdentity request.toInvocationIdentity) = none ∧
        wasEvicted sha256 reg request.runId (identity request.toInvocationIdentity) = false := by
  rw [collision] at fresh
  simp only at fresh
  split at fresh
  next unowned =>
    rw [collisionOwnership] at unowned
    split at unowned
    next free =>
      simp only [Bool.and_eq_true,decide_eq_true_eq] at free
      refine ⟨free.1,free.2,?_⟩
      rw [evictedCollision] at fresh
      rw [wasEvicted]
      cases found : reg.evicted.get? request.runId with
      | none => rfl
      | some filter =>
        rw [found] at fresh
        simp only at fresh
        split at fresh
        · cases fresh
        next gone => simpa using gone
    · split at unowned <;> cases unowned
  · cases fresh
  · split at fresh <;> cases fresh

theorem Kept.add (kept : Kept reg) {request : CodingToolInvocationStage} (now : ℤ)
    (plain : request.toInvocationIdentity.Plain)
    (freeAction : reg.actionIndex.get? (actionIdentity request.toInvocationIdentity) = none)
    (freeKey : reg.idempotencyIndex.get? (idempotencyIdentity request.toInvocationIdentity) = none)
    (share : runEntryCount reg request.runId < maxLivePerRun)
    (capped : reg.totalBytes + request.payload.length ≤ maxAggregateBytes) :
    Kept (add request now reg) := by
  have fresh {key : Text} (indexed : Indexed reg key) : key ≠ identity request.toInvocationIdentity ∧
        Indexed (ToolInvocation.add request now reg) key := by
    obtain ⟨other,whole,rfl,actions,keys⟩ := indexed
    refine ⟨?_,other,whole,rfl,?_,?_⟩
    · intro same
      rw [identity_inj plain same,freeAction] at actions
      cases actions
    · change (reg.actionIndex.set _ _).get? _ = _
      rw [get?_set_of_ne,actions]
      intro same
      rw [same,freeAction] at actions
      cases actions
    · change (reg.idempotencyIndex.set _ _).get? _ = _
      rw [get?_set_of_ne,keys]
      intro same
      rw [same,freeKey] at keys
      cases keys
  have own : Indexed (ToolInvocation.add request now reg) (identity request.toInvocationIdentity) :=
    ⟨request.toInvocationIdentity,plain,rfl,get?_set_self _,get?_set_self _⟩
  have idle : reg.entries.get? (identity request.toInvocationIdentity) = none := by
    cases hit : reg.entries.get? (identity request.toInvocationIdentity) with
    | none => rfl
    | some e => exact absurd rfl (fresh (kept.live _ e hit)).1
  have held := kept.bytes
  rw [heldBytes] at held
  refine ⟨?_,?_,?_,?_,capped,?_⟩
  · intro key e hit
    change (reg.entries.set _ _).get? key = some e at hit
    rw [get?_set] at hit
    split at hit
    next same =>
      rw [same]
      exact own
    next => exact (fresh (kept.live key e hit)).2
  · intro key e hit
    obtain ⟨indexed,gone⟩ := kept.claimed key e hit
    obtain ⟨differ,stays⟩ := fresh indexed
    refine ⟨stays,?_⟩
    change (reg.entries.set _ _).get? key = none
    rw [get?_set_of_ne _ differ,gone]
  · exact fun key tombstone hit => (fresh (kept.tombstones key tombstone hit)).2
  · have weighed := total_set_of_none payloadBytes idle
      ⟨request.digest,expiryFor request now,false,request.payload⟩
    rw [payloadBytes] at weighed
    rw [heldBytes]
    change reg.totalBytes + request.payload.length =
      (reg.entries.set _ _).total payloadBytes + reg.claimed.total claimedBytes
    rw [weighed]
    simp only
    omega
  · intro runId run
    have before := kept.shares runId run
    have counted : countForRun runId (reg.entries.set (identity request.toInvocationIdentity)
        ⟨request.digest,expiryFor request now,false,request.payload⟩) =
        countForRun runId reg.entries + (if keyForRun (identity request.toInvocationIdentity) runId then 1 else 0) :=
      total_set_of_none _ idle _
    change countForRun runId (reg.entries.set _ _) + countForRun runId reg.claimed ≤ _
    rw [counted]
    rw [runEntryCount] at before
    split
    next owned =>
      have same := keyForRun_identity plain run owned
      rw [← same] at before ⊢
      rw [runEntryCount] at share
      omega
    next => exact before

theorem Traced.stage (traced : Traced sha256 reg notes) (request : CodingToolInvocationStage)
    (now : ℤ) : Traced sha256 (stage sha256 request now reg).1 notes := by
  have expired := traced.expire now
  rw [ToolInvocation.stage]
  simp only
  split
  · exact expired
  next unrevoked =>
    split
    · exact expired
    next valid =>
      have plain := validStage_plain (by simpa using valid)
      split
      · exact expired
      next fresh =>
        obtain ⟨freeAction,freeKey,unevicted⟩ := collision_eq_none fresh
        have roomy : Evicts sha256 (ToolInvocation.expire now reg)
            (makeRoom sha256 request now (ToolInvocation.expire now reg)) := by
          rw [makeRoom]
          split
          · exact evictSettled_evicts expired.kept plain.runId now
          · exact ⟨expired.kept,rfl,rfl,rfl,rfl,rfl,fun _ free => free,fun _ free => free,fun _ _ known => known⟩
        have revokes (runId : Text) : isRevoked (makeRoom sha256 request now (ToolInvocation.expire now reg)) runId =
              isRevoked (ToolInvocation.expire now reg) runId := by
          rw [isRevoked,isRevoked,roomy.revoked,roomy.disposed]
        have remembered : Remembered sha256 (makeRoom sha256 request now (ToolInvocation.expire now reg)) notes := by
          apply expired.remembered.frame
          · rw [roomy.entries]
            exact fun key e hit => ⟨e,hit⟩
          · exact fun runId revoked => (revokes runId).trans revoked
          · exact roomy.known
        split
        next room =>
          simp only [hasCapacity,Bool.and_eq_true,decide_eq_true_eq] at room
          refine ⟨roomy.kept.add now plain (roomy.freeAction _ freeAction)
            (roomy.freeKey _ freeKey) room.1.1 room.2,traced.lawful,?_⟩
          intro other spent
          obtain ⟨whole,idle,either⟩ := remembered other spent
          have differ : identity other ≠ identity request.toInvocationIdentity := by
            intro same
            obtain rfl := identity_inj plain same
            obtain ⟨_,_,revoked | known⟩ := expired.remembered _ spent
            · exact unrevoked revoked
            · rcases known with owned | evicted
              · rw [freeAction] at owned
                cases owned
              · rw [unevicted] at evicted
                cases evicted
          refine ⟨whole,?_,?_⟩
          · change (OrderedMap.set _ _ _).get? _ = none
            rw [get?_set_of_ne _ differ,idle]
          · refine either.imp_right ?_
            intro known
            rcases known with owned | evicted
            · refine .inl ?_
              change (OrderedMap.set _ _ _).get? _ = _
              rw [get?_set_of_ne,owned]
              intro same
              rw [same,roomy.freeAction _ freeAction] at owned
              cases owned
            · exact .inr evicted
        next => exact ⟨roomy.kept,traced.lawful,remembered⟩

variable (request : InvocationIdentity)

def claim (entry : Entry) (reg : Registry) : Registry :=
  remember (identity request) entry.digest entry.expiresAt .replayed { reg with
      entries := reg.entries.delete (identity request)
      claimed := reg.claimed.set (identity request) ⟨entry,none⟩ }

theorem remember_claimed {key digest : Text} {expiresAt : ℤ} {kind : TombstoneKind}
    (claimed : OrderedMap Text ClaimedEntry) :
    { remember key digest expiresAt kind reg with claimed } =
      remember key digest expiresAt kind { reg with claimed } := by
  rw [remember,remember]
  split <;> rfl

theorem claim_eq (e : Entry) (reg : Registry) :
    { remember (identity request) e.digest e.expiresAt .replayed
        (removeLive (identity request) e false reg) with
      claimed := (remember (identity request) e.digest e.expiresAt .replayed
        (removeLive (identity request) e false reg)).claimed.set (identity request)
          ⟨e,none⟩ } = claim request e reg := by
  rw [remember_claimed,remember_maps.2.1]
  rfl

theorem take_cases (now : ℤ) (reg : Registry) :
    (∃ e, isRevoked (expire now reg) request.runId = false ∧
        (expire now reg).claimed.get? (identity request) = none ∧
        (expire now reg).entries.get? (identity request) = some e ∧
        take sha256 request now reg = (claim request e (expire now reg),.ready e.payload)) ∨
      ∃ res, take sha256 request now reg = (expire now reg,res) ∧ ∀ payload, res ≠ .ready payload := by
  rw [take]
  simp only
  split
  · exact .inr ⟨_,rfl,by simp⟩
  next unrevoked =>
    split
    · exact .inr ⟨_,rfl,by simp⟩
    next unclaimed =>
      rw [Bool.not_eq_true,has_eq_false] at unclaimed
      split
      · split
        next tombstone _ =>
          refine .inr ⟨_,rfl,?_⟩
          intro payload
          cases tombstone.kind <;> simp [TombstoneKind.taken]
        · refine .inr ⟨_,rfl,?_⟩
          intro payload
          split <;> simp
      next e hit =>
        exact .inl ⟨e,by simpa using unrevoked,unclaimed,hit,by rw [claim_eq]⟩

theorem Kept.claim (kept : Kept reg) {request : InvocationIdentity} {e : Entry}
    (hit : reg.entries.get? (identity request) = some e)
    (unclaimed : reg.claimed.get? (identity request) = none) :
    Kept (claim request e reg) := by
  have indexed := kept.live _ e hit
  have payload := total_delete_of_some payloadBytes hit
  have handed := total_set_of_none claimedBytes unclaimed (⟨e,none⟩ : ClaimedEntry)
  have held := kept.bytes
  rw [heldBytes] at held
  rw [payloadBytes] at payload
  rw [claimedBytes] at handed
  apply Kept.remember
  · refine ⟨?_,?_,kept.tombstones,?_,kept.capped,?_⟩
    · intro key entry' here
      change (reg.entries.delete _).get? key = some entry' at here
      rw [get?_delete] at here
      split at here
      · cases here
      · exact kept.live key entry' here
    · intro key entry' here
      change (reg.claimed.set _ _).get? key = some entry' at here
      change _ ∧ (reg.entries.delete _).get? key = none
      rw [get?_set] at here
      split at here
      next same =>
        subst same
        exact ⟨indexed,get?_delete_self⟩
      next differ =>
        obtain ⟨indexed',gone⟩ := kept.claimed key entry' here
        rw [get?_delete_of_ne differ]
        exact ⟨indexed',gone⟩
    · change reg.totalBytes = (reg.entries.delete _).total payloadBytes + (reg.claimed.set _ _).total claimedBytes
      rw [handed,held,payload]
      simp only [nativeBytes,Option.map_none,Option.getD_none]
      omega
    · intro runId plain
      have share := kept.shares runId plain
      have counted : countForRun runId (reg.claimed.set (identity request) ⟨e,none⟩) =
          countForRun runId reg.claimed + (if keyForRun (identity request) runId then 1 else 0) :=
        total_set_of_none _ unclaimed _
      rw [runEntryCount,countForRun_delete hit] at share
      change countForRun runId (reg.entries.delete _) + countForRun runId (reg.claimed.set _ _) ≤ _
      rw [counted]
      omega
  · exact indexed.frame rfl rfl

theorem claim_same (reg : Registry) (request : InvocationIdentity) (e : Entry) :
    Same reg (claim request e reg) ∧ (claim request e reg).entries = reg.entries.delete (identity request) := by
  refine ⟨Same.trans ?_ remember_same,remember_maps.1⟩
  exact ⟨rfl,rfl,rfl,rfl,rfl⟩

theorem spent_snoc {request other : InvocationIdentity} (spent : Spent (notes ++ [.ready other]) request) :
    request = other ∨ Spent notes request := by
  obtain ⟨front,back,same,kept⟩ := spent
  rcases eq_nil_or_concat back with rfl | ⟨rest,last,rfl⟩
  · obtain ⟨_,own⟩ := append_inj' same rfl
    cases own
    exact .inl rfl
  · rw [concat_eq_append,← cons_append,← append_assoc] at same
    obtain ⟨rfl,_⟩ := append_inj' same rfl
    refine .inr ⟨front,rest,rfl,?_⟩
    intro forgot
    apply kept
    rw [concat_eq_append]
    exact mem_append_left _ forgot

theorem Traced.take (traced : Traced sha256 reg notes) (request : InvocationIdentity) (now : ℤ) :
    Traced sha256 (take sha256 request now reg).1 (notes ++ ToolInvocation.notes sha256 reg ⟨now,.take request⟩) := by
  have expired := traced.expire now
  rw [ToolInvocation.notes]
  simp only
  rcases take_cases request now reg with ⟨e,_,unclaimed,found,taken⟩ | ⟨res,taken,unready⟩
  · rw [taken]
    obtain ⟨other,plain,same,actions,_⟩ := expired.kept.live _ e found
    obtain rfl := identity_inj plain same.symm
    have unspent : ¬ Spent notes request := by
      intro spent
      obtain ⟨_,idle,_⟩ := expired.remembered request spent
      rw [idle] at found
      cases found
    have claims := claim_same (ToolInvocation.expire now reg) request e
    refine ⟨expired.kept.claim found unclaimed,traced.lawful.snoc unspent,?_⟩
    intro other spent
    rcases spent_snoc spent with rfl | before
    · refine ⟨plain,?_,.inr (claims.1.known (.inl actions))⟩
      rw [claims.2]
      exact get?_delete_self
    · obtain ⟨whole,idle,either⟩ := expired.remembered other before
      refine ⟨whole,?_,either.imp (claims.1.isRevoked _).trans claims.1.known⟩
      rw [claims.2,get?_delete,idle,ite_self]
  · rw [taken]
    cases res with
    | ready payload => exact absurd rfl (unready payload)
    | expired => simpa using expired
    | replayed => simpa using expired
    | revoked => simpa using expired
    | missing => simpa using expired

theorem Traced.attachNativeRead (traced : Traced sha256 reg notes)
    (request : InvocationIdentity) (invocationId : Text) (now : ℤ) :
    Traced sha256 (attachNativeRead request invocationId now reg).1 notes := by
  have expired := traced.expire now
  rw [ToolInvocation.attachNativeRead]
  simp only
  split
  · exact expired
  next e hit =>
    split
    · exact expired
    next attachable =>
      simp only [Bool.or_eq_true,not_or,Bool.not_eq_true,Option.isSome_eq_false_iff,
        Option.isNone_iff_eq_none] at attachable
      have bytes : claimedBytes (identity request) { e with nativeRead := some ⟨invocationId,.empty,0⟩ } =
            claimedBytes (identity request) e + 0 := by
        simp [claimedBytes,nativeBytes,attachable.1.2]
      have kept := expired.kept.replaceClaimed hit bytes (by simpa using expired.kept.capped)
      rw [Int.add_zero] at kept
      exact ⟨kept,traced.lawful,expired.remembered.same ⟨rfl,rfl,rfl,rfl,rfl⟩ fun key e here => ⟨e,here⟩⟩

theorem nativeReadOwner_fst (invocationId : Text) (now : ℤ) :
    (nativeReadOwner request invocationId now reg).1 = expire now reg := by
  rw [nativeReadOwner]
  split
  · rfl
  · split <;> rfl

theorem nativeReadOwner_snd {request : InvocationIdentity} {invocationId : Text} {now : ℤ}
    {native : NativeRead} {e : ClaimedEntry}
    (owner : (nativeReadOwner request invocationId now reg).2 = some native)
    (hit : (expire now reg).claimed.get? (identity request) = some e) :
    e.nativeRead = some native := by
  rw [nativeReadOwner,hit] at owner
  simp only at owner
  split at owner
  · cases owner
  · exact (Option.filter_eq_some_iff.mp owner).1

theorem Traced.claimNativeReadOperation (traced : Traced sha256 reg notes)
    (request : InvocationIdentity) (invocationId : Text) (ordinal : Number) (digest : Text) (now : ℤ) :
    Traced sha256 (claimNativeReadOperation request invocationId ordinal digest now reg).1
      notes := by
  have expired := traced.expire now
  rw [ToolInvocation.claimNativeReadOperation]
  have first := @nativeReadOwner_fst reg request invocationId now
  have b := @nativeReadOwner_snd reg request invocationId now
  generalize nativeReadOwner request invocationId now reg = reading at first b
  obtain ⟨cur,owner⟩ := reading
  simp only at first b
  subst first
  cases owner with
  | none => exact expired
  | some native =>
    simp only
    cases hit : (ToolInvocation.expire now reg).claimed.get? (identity request) with
    | none => exact expired
    | some e =>
      have attached := b rfl hit
      simp only
      split
      · exact expired
      · split
        · exact expired
        · split
          next room =>
            simp only [nativePacketCapacity,Bool.and_eq_true,decide_eq_true_eq] at room
            have bytes : claimedBytes (identity request) (⟨e.toEntry,some
                ⟨native.invocationId,native.operations.set ordinal digest,
                  native.bytes + (digest.byteLength + 8)⟩⟩ : ClaimedEntry) =
                claimedBytes (identity request) e + (digest.byteLength + 8 : Nat) := by
              simp only [claimedBytes,nativeBytes,attached,Option.map_some,Option.getD_some]
              omega
            exact ⟨expired.kept.replaceClaimed hit bytes room.2,traced.lawful,
              expired.remembered.same ⟨rfl,rfl,rfl,rfl,rfl⟩ fun key e here => ⟨e,here⟩⟩
          · exact expired

theorem Traced.settle (traced : Traced sha256 reg notes) (request : InvocationIdentity)
    (receipt : Receipt) : Traced sha256 (settle request receipt reg).1 notes := by
  rw [ToolInvocation.settle]
  simp only
  split
  · exact traced
  next e hit =>
    split
    · exact traced
    · have kept := @Kept.dropClaimed reg (identity request) .replayed traced.kept e hit
      have maps := @remember_maps { reg with
          claimed := reg.claimed.delete (identity request)
          totalBytes := reg.totalBytes - (e.payload.length + nativeBytes e) }
        (identity request) e.digest e.expiresAt .replayed
      have remembered : Remembered sha256 (dropClaimed (identity request) e .replayed reg)
          notes := by
        apply traced.remembered.same dropClaimed_same
        intro key e here
        rw [dropClaimed,maps.1] at here
        exact ⟨e,here⟩
      split
      next tombstone captured buried _ =>
        refine ⟨{ kept with tombstones := ?_ },traced.lawful,
          remembered.same ⟨rfl,rfl,rfl,rfl,rfl⟩ fun key e here => ⟨e,here⟩⟩
        intro key other here
        change (OrderedMap.set _ _ _).get? key = some other at here
        rw [get?_set] at here
        split at here
        next same =>
          rw [same]
          exact kept.tombstones _ tombstone buried
        next => exact kept.tombstones key other here
      · exact ⟨kept,traced.lawful,remembered⟩

theorem inspect_fst (now : ℤ) : (inspect sha256 request now reg).1 = expire now reg := by
  rw [inspect]
  simp only
  split
  · rfl
  · split
    · rfl
    · split <;> rfl

end Calls

section Revocation

variable {sha256 : Text → UInt32 × UInt32} {reg reg' : Registry} {notes : List Note} {runId : Text}

theorem Indexed.clear {key : Text} (indexed : Indexed reg key)
    (outside : keyForRun key runId = false) : Indexed (clearRunIdentities runId reg) key := by
  obtain ⟨request,plain,rfl,actions,keys⟩ := indexed
  refine ⟨request,plain,rfl,?_,?_⟩
  · change (reg.actionIndex.filter _).get? _ = _
    rw [get?_filter,actions,Option.filter_some_pos]
    rw [outside]
    rfl
  · change (reg.idempotencyIndex.filter _).get? _ = _
    rw [get?_filter,keys,Option.filter_some_pos]
    rw [outside]
    rfl

theorem Kept.clear (kept : Kept reg)
    (live : ∀ key e, reg.entries.get? key = some e → keyForRun key runId = false)
    (claimed : ∀ key e, reg.claimed.get? key = some e → keyForRun key runId = false) :
    Kept (clearRunIdentities runId reg) := by
  refine ⟨?_,?_,?_,kept.bytes,kept.capped,kept.shares⟩
  · exact fun key e hit => (kept.live key e hit).clear (live key e hit)
  · intro key e hit
    obtain ⟨indexed,gone⟩ := kept.claimed key e hit
    exact ⟨indexed.clear (claimed key e hit),gone⟩
  · intro key tombstone hit
    change (reg.tombstones.filter _).get? key = some tombstone at hit
    rw [get?_filter,Option.filter_eq_some_iff] at hit
    exact (kept.tombstones key tombstone hit.1).clear (by simpa using hit.2)

theorem Spent.of_append {request : InvocationIdentity} {more : List Note}
    (spent : Spent (notes ++ more) request) (quiet : ∀ other, .ready other ∉ more) :
    Spent notes request ∧ .forgot request.runId ∉ more := by
  obtain ⟨front,back,same,kept⟩ := spent
  rcases append_eq_append_iff.mp same with ⟨rest,rfl,post⟩ | ⟨rest,rfl,post⟩
  · refine absurd ?_ (quiet request)
    rw [post]
    exact mem_append_right _ mem_cons_self
  · cases rest with
    | nil =>
      refine absurd ?_ (quiet request)
      rw [nil_append] at post
      rw [← post]
      exact mem_cons_self
    | cons a rest =>
      rw [cons_append,cons.injEq] at post
      obtain ⟨rfl,rfl⟩ := post
      rw [mem_append,not_or] at kept
      exact ⟨⟨front,rest,rfl,kept.1⟩,kept.2⟩

theorem rememberRevoked_mem (runId : Text) (reg : Registry) : runId ∈ (rememberRevoked runId reg).revoked := by
  have shorter : (reg.revoked ++ [runId]).length - maxRevokedRuns ≤ reg.revoked.length := by
    rw [length_append,length_singleton,maxRevokedRuns]
    omega
  rw [rememberRevoked]
  simp only
  rw [drop_append_of_le_length shorter]
  exact mem_append_right _ mem_cons_self

theorem mem_revoked_or_forgotten {other : Text} (mem : other ∈ reg.revoked) :
    other ∈ (rememberRevoked runId reg).revoked ∨ other ∈ forgottenRuns runId reg := by
  rw [rememberRevoked,forgottenRuns]
  simp only
  generalize (reg.revoked ++ [runId]).length - maxRevokedRuns = gone
  have inside : other ∈ (reg.revoked ++ [runId]).take gone ++ (reg.revoked ++ [runId]).drop gone := by
    rw [take_append_drop]
    exact mem_append_left _ mem
  rw [mem_append] at inside
  exact inside.symm

theorem Kept.withRevoked (kept : Kept reg) (revoked : List Text) : Kept { reg with revoked } :=
  { kept with }

structure Revokes (runId : Text) (reg reg' : Registry) : Prop where
  kept : Kept reg'
  live : ∀ key entry, reg'.entries.get? key = some entry → reg.entries.get? key = some entry
  revoked : reg'.revoked = (rememberRevoked runId reg).revoked
  disposed : reg'.disposed = reg.disposed
  actionIndex : reg'.actionIndex = reg.actionIndex.filter fun _ owner => !keyForRun owner runId
  evicted : reg'.evicted = reg.evicted.delete runId

theorem revokeRun_revokes (kept : Kept reg) (fresh : reg.revoked.contains runId = false) :
    Revokes runId reg (revokeRun runId reg).1 := by
  have revoking : Kept (rememberRevoked runId reg) := by
    rw [rememberRevoked]
    exact kept.withRevoked _
  have es : (rememberRevoked runId reg).entries = reg.entries := by
    rw [rememberRevoked]
  have disposed : (rememberRevoked runId reg).disposed = reg.disposed := by
    rw [rememberRevoked]
  have actions : (rememberRevoked runId reg).actionIndex = reg.actionIndex := by
    rw [rememberRevoked]
  have filters : (rememberRevoked runId reg).evicted = reg.evicted := by
    rw [rememberRevoked]
  have a := @dropEntries_dropped _ .replayed revoking fun key _ => keyForRun key runId
  have b := a.trans (@dropClaims_dropped _ .replayed a.kept fun key _ => keyForRun key runId)
  have cleared := b.kept.clear (fun key e hit => (b.live key e hit).2)
    fun key e hit => (b.claimed key e hit).2
  rw [revokeRun,fresh,if_neg Bool.false_ne_true]
  refine ⟨{ cleared with },?_,b.same.revoked,b.same.disposed.trans disposed,?_,?_⟩
  · intro key e hit
    have here := (b.live key e hit).1
    rw [es] at here
    exact here
  · have same := b.same.actionIndex
    rw [actions] at same
    rw [← same]
    rfl
  · have same := b.same.evicted
    rw [filters] at same
    rw [← same]
    rfl

theorem Traced.revokeRun (traced : Traced sha256 reg notes) (run : nul ∉ runId) :
    Traced sha256 (revokeRun runId reg).1 (notes ++ (if reg.revoked.contains runId then []
        else (forgottenRuns runId reg).map .forgot)) := by
  cases fresh : reg.revoked.contains runId with
  | true =>
    rw [if_pos rfl,append_nil,ToolInvocation.revokeRun,fresh,if_pos rfl]
    exact traced
  | false =>
    rw [if_neg Bool.false_ne_true]
    have revokes := revokeRun_revokes traced.kept fresh
    refine ⟨revokes.kept,?_,?_⟩
    · apply traced.lawful.append
      intro front note back same
      have mem : note ∈ (forgottenRuns runId reg).map Note.forgot := by
        rw [same]
        exact mem_append_right _ mem_cons_self
      obtain ⟨other,_,rfl⟩ := mem_map.mp mem
      trivial
    · intro request spent
      obtain ⟨before,unforgotten⟩ := spent.of_append (by simp)
      obtain ⟨plain,idle,either⟩ := traced.remembered request before
      refine ⟨plain,?_,?_⟩
      · rw [← not_mem_keys,OrderedMap.mem_keys]
        intro ⟨e,hit⟩
        rw [revokes.live _ e hit] at idle
        cases idle
      · rw [isRevoked,Bool.or_eq_true,revokes.disposed,revokes.revoked,contains_iff_mem]
        by_cases own : request.runId = runId
        · rw [own]
          exact .inl (.inr (rememberRevoked_mem runId reg))
        · rcases either with revoked | known
          · rw [isRevoked,Bool.or_eq_true,contains_iff_mem] at revoked
            refine .inl (revoked.imp_right fun mem => ?_)
            rcases mem_revoked_or_forgotten mem with still | gone
            · exact still
            · exact absurd (mem_map.mpr ⟨_,gone,rfl⟩) unforgotten
          · refine .inr ?_
            have outside : keyForRun (identity request) runId = false := by
              rw [← Bool.not_eq_true]
              exact fun owned => own (keyForRun_identity plain run owned)
            rw [Known,wasEvicted,revokes.actionIndex,revokes.evicted,
              get?_delete_of_ne own,get?_filter]
            refine known.imp_left fun owned => ?_
            rw [owned,Option.filter_some_pos]
            rw [outside]
            rfl

theorem Traced.dispose (traced : Traced sha256 reg notes) : Traced sha256 (dispose reg) notes := by
  rw [ToolInvocation.dispose]
  split
  · exact traced
  · have kept := traced.kept
    have disposing : Kept { reg with disposed := true } :=
      { kept with }
    have a := @dropEntries_dropped _ .replayed disposing fun _ _ => true
    have b := a.trans (@dropClaims_dropped _ .replayed a.kept fun _ _ => true)
    have disposed := b.kept
    refine ⟨⟨?_,?_,?_,disposed.bytes,disposed.capped,disposed.shares⟩,traced.lawful,?_⟩
    · intro key e hit
      cases (b.live key e hit).2
    · intro key e hit
      cases (b.claimed key e hit).2
    · intro key tombstone hit
      cases hit
    · intro request spent
      obtain ⟨plain,idle,_⟩ := traced.remembered request spent
      refine ⟨plain,?_,.inl ?_⟩
      · cases hit : (ToolInvocation.dropClaims (fun _ _ => true) .replayed
            (ToolInvocation.dropEntries (fun _ _ => true) .replayed
              { reg with disposed := true })).entries.get? (identity request) with
        | none => rfl
        | some e => cases (b.live _ e hit).2
      · change (_ || _) = true
        rw [b.same.disposed]
        rfl

end Revocation

section Runs

variable {sha256 : Text → UInt32 × UInt32} {reg : Registry} {ev : Event}

/-- A run id that the environment revokes holds no separator, as no run id that is staged does. -/
def Event.Plain (event : Event) : Prop :=
  ∀ runId, event.call = .revokeRun runId → nul ∉ runId

theorem Traced.step {notes : List Note} (traced : Traced sha256 reg notes) (plain : ev.Plain) :
    Traced sha256 (step sha256 reg ev) (notes ++ ToolInvocation.notes sha256 reg ev) := by
  obtain ⟨now,call⟩ := ev
  have quiet {reg' : Registry} (same : Traced sha256 reg' notes) : Traced sha256 reg' (notes ++ []) := by
    rw [append_nil]
    exact same
  cases call with
  | stage request => exact quiet (traced.stage request now)
  | take request => exact traced.take request now
  | attachNativeRead request invocationId =>
    exact quiet (traced.attachNativeRead request invocationId now)
  | nativeReadOwner request invocationId =>
    apply quiet
    change Traced sha256 (nativeReadOwner request invocationId now reg).1 notes
    rw [nativeReadOwner_fst]
    exact traced.expire now
  | claimNativeReadOperation request invocationId ordinal digest =>
    exact quiet (traced.claimNativeReadOperation request invocationId ordinal digest now)
  | settle request receipt => exact quiet (traced.settle request receipt)
  | inspect request =>
    apply quiet
    change Traced sha256 (inspect sha256 request now reg).1 notes
    rw [inspect_fst]
    exact traced.expire now
  | tombstoneFor request => exact quiet (traced.expire now)
  | revokeRun runId => exact traced.revokeRun (plain runId rfl)
  | dispose => exact quiet traced.dispose
  | timer => exact quiet (traced.expire now)

theorem Kept.step (kept : Kept reg) (plain : ev.Plain) : Kept (step sha256 reg ev) := by
  have unspent : Remembered sha256 reg [] := by
    intro request spent
    obtain ⟨front,back,same,_⟩ := spent
    simp at same
  have traced : Traced sha256 reg [] := ⟨kept,Lawful.nil,unspent⟩
  exact (traced.step plain).kept

theorem machine_traced (evs : List Event) (plain : ∀ ev ∈ evs, ev.Plain) :
    Traced sha256 ((machine sha256).run evs) ((machine sha256).noted evs) := by
  apply Machine.holds_of_promised Event.Plain (Traced sha256)
  · refine ⟨⟨?_,?_,?_,rfl,?_,?_⟩,Lawful.nil,?_⟩
    · intro key e hit
      cases hit
    · intro key e hit
      cases hit
    · intro key tombstone hit
      cases hit
    · exact Int.natCast_nonneg _
    · exact fun runId _ => Nat.zero_le _
    · intro request spent
      obtain ⟨front,back,same,_⟩ := spent
      simp at same
  · exact fun reg notes ev promised traced => traced.step promised
  · exact plain

theorem runEntryCount_le (reg : Registry)
    (shares : ∀ runId, nul ∉ runId → runEntryCount reg runId ≤ maxLivePerRun) (runId : Text) :
    runEntryCount reg runId ≤ maxLivePerRun := by
  by_cases plain : nul ∉ runId
  · exact shares runId plain
  · rw [not_not] at plain
    obtain ⟨a,rest,rfl,unseparated⟩ := eq_append_cons_of_mem plain
    refine le_trans ?_ (shares a unseparated)
    have weaker (key : Text) : (if keyForRun key (a ++ nul :: rest) then 1 else 0) ≤
        (if keyForRun key a then 1 else 0) := by
      split
      next owned =>
        obtain ⟨tail,rfl⟩ := keyForRun_iff.mp owned
        rw [if_pos]
        rw [keyForRun_iff]
        exact ⟨rest ++ nul :: tail,by simp⟩
      next => exact Nat.zero_le _
    exact add_le_add (sum_le_sum fun e _ => weaker e.1) (sum_le_sum fun e _ => weaker e.1)

/-- In every run an identity is handed out once until its run is forgotten, the counter counts the
bytes that are held and stays within its cap, no run holds more than its share, and no key is both
live and claimed. -/
theorem machine_invocations (events : List Event) (plain : ∀ event ∈ events, event.Plain) :
    Lawful Allowed ((machine sha256).noted events) ∧
      ((machine sha256).run events).totalBytes = heldBytes ((machine sha256).run events) ∧
      0 ≤ ((machine sha256).run events).totalBytes ∧
      ((machine sha256).run events).totalBytes ≤ maxAggregateBytes ∧
      (∀ runId, runEntryCount ((machine sha256).run events) runId ≤ maxLivePerRun) ∧
      ∀ key, ((machine sha256).run events).entries.has key = false ∨
        ((machine sha256).run events).claimed.has key = false := by
  obtain ⟨kept,lawful,_⟩ := @machine_traced sha256 events plain
  refine ⟨lawful,kept.bytes,?_,kept.capped,runEntryCount_le _ kept.shares,?_⟩
  · rw [kept.bytes]
    exact Int.add_nonneg (payloadBytes_nonneg _) (claimedBytes_nonneg _)
  · intro key
    rw [has_eq_false,has_eq_false]
    cases found : ((machine sha256).run events).claimed.get? key with
    | none => exact .inr rfl
    | some entry => exact .inl (kept.claimed key entry found).2

def sampleStage : CodingToolInvocationStage :=
  ⟨⟨['r'],['a'],['k']⟩,List.replicate 64 'f',some 50,[1,2,3],none⟩

def sampleEvents : List Event :=
  [⟨0,.stage sampleStage⟩,⟨1,.take sampleStage.toInvocationIdentity⟩,
    ⟨2,.take sampleStage.toInvocationIdentity⟩,⟨3,.revokeRun ['r']⟩]

theorem machine_invocations_once :
    (machine fun _ => (0,0)).noted sampleEvents = [.ready ⟨['r'],['a'],['k']⟩] ∧
      Lawful Allowed ((machine fun _ => (0,0)).noted sampleEvents) := by
  refine ⟨by decide,(machine_invocations sampleEvents ?_).1⟩
  intro event member runId revokes
  simp only [sampleEvents,mem_cons,not_mem_nil,or_false] at member
  obtain rfl | rfl | rfl | rfl := member
  · cases revokes
  · cases revokes
  · cases revokes
  · cases revokes
    decide

end Runs

end Keiko.ToolInvocation
