import Keiko.HotExitStore
import Mathlib.Data.List.Perm.Basic

/-! What runs of the hot-exit store keep. An index that is built tells of every readable snapshot
in the vault, in the order of the vault, so that what a write evicts and what a read finds follow
from the vault alone, and another process goes on as this one would have. -/
namespace Keiko.HotExitStore
open Keiko.Library List

section Vaults

def openedSnapshot : Envelope → Option EditorHotExitStoredSnapshot
  | .unopenable => none
  | .sealed raw => parseStoredSnapshot raw

def snapshotAt (vault : Vault) (ref : Text) : Option EditorHotExitStoredSnapshot :=
  (vault.get? ref).bind openedSnapshot

def heldEntry (entry : Text × Envelope) : Option (Text × HotExitMeta) :=
  if isSnapshotRef entry.1 then (openedSnapshot entry.2).map fun snapshot => (entry.1,metaOf snapshot)
  else none

def held (vault : Vault) : List (Text × HotExitMeta) := vault.entries.filterMap heldEntry

def damaged (vault : Vault) : List Text :=
  vault.keys.filter fun ref => isSnapshotRef ref && (snapshotAt vault ref).isNone

variable {vault : Vault} {ref key : Text}

theorem readStoredSnapshot_eq (vault : Vault) (ref : Text) : readStoredSnapshot vault ref = (snapshotAt vault ref,
      if (snapshotAt vault ref).isNone then vault.delete ref else vault) := by
  unfold readStoredSnapshot snapshotAt
  split
  next gone => simp [gone,OrderedMap.delete_of_none gone]
  next hit => simp [hit,openedSnapshot]
  next raw hit =>
    rw [hit,Option.bind_some,openedSnapshot]
    cases parseStoredSnapshot raw with
    | none => rfl
    | some snapshot => rfl

theorem snapshotAt_without (gone : List Text) :
    snapshotAt (vault.without gone) ref = if ref ∈ gone then none else snapshotAt vault ref := by
  rw [snapshotAt,OrderedMap.get?_without]
  split
  · rfl
  · rfl

theorem snapshotAt_of_mem {envelope : Envelope} (mem : (ref,envelope) ∈ vault.entries) :
    snapshotAt vault ref = openedSnapshot envelope := by
  rw [snapshotAt,OrderedMap.mem_entries.mp mem,Option.bind_some]

theorem damaged_eq_nil : damaged vault = [] ↔ ∀ key envelope, vault.get? key = some envelope →
    isSnapshotRef key = true → ∃ snapshot, openedSnapshot envelope = some snapshot := by
  simp only [damaged,filter_eq_nil_iff,OrderedMap.mem_keys,snapshotAt]
  constructor
  · intro clean key envelope hit isRef
    have readable := clean key ⟨envelope,hit⟩
    simpa [hit,isRef,Option.ne_none_iff_exists'] using readable
  · rintro clean key ⟨envelope,hit⟩
    by_cases isRef : isSnapshotRef key = true
    · obtain ⟨snapshot,opened⟩ := clean key envelope hit isRef
      simp [hit,opened]
    · simp [isRef]

theorem mem_held {held_meta : HotExitMeta} : (ref,held_meta) ∈ held vault ↔
    isSnapshotRef ref = true ∧ ∃ snapshot, snapshotAt vault ref = some snapshot ∧ metaOf snapshot = held_meta := by
  rw [held,mem_filterMap]
  constructor
  · intro ⟨e,mem,same⟩
    unfold heldEntry at same
    split at same
    next isRef =>
      obtain ⟨snapshot,opened,same⟩ := Option.map_eq_some_iff.mp same
      cases same
      exact ⟨isRef,snapshot,(snapshotAt_of_mem mem).trans opened,rfl⟩
    · cases same
  · intro ⟨isRef,snapshot,hit,same⟩
    obtain ⟨envelope,inside,opened⟩ := Option.bind_eq_some_iff.mp hit
    refine ⟨(ref,envelope),OrderedMap.mem_entries.mpr inside,?_⟩
    rw [heldEntry,if_pos isRef,opened,← same]
    rfl

theorem heldEntry_key {e : Text × Envelope} {item : Text × HotExitMeta}
    (same : heldEntry e = some item) : item.1 = e.1 := by
  unfold heldEntry at same
  split at same
  · obtain ⟨snapshot,_,rfl⟩ := Option.map_eq_some_iff.mp same
    rfl
  · cases same

theorem held_without (gone : List Text) :
    held (vault.without gone) = (held vault).filter fun item => decide (item.1 ∉ gone) := by
  change (vault.entries.filter _).filterMap heldEntry = _
  rw [held,filter_filterMap,filterMap_filter]
  apply filterMap_congr
  intro e _
  cases found : heldEntry e with
  | none => simp
  | some item =>
    rw [← heldEntry_key found]
    by_cases dropped : item.1 ∈ gone
    · rw [if_neg (by simpa using dropped),Option.filter_some_neg (by simpa using dropped)]
    · rw [if_pos (by simpa using dropped),Option.filter_some_pos (by simpa using dropped)]

theorem nodup_held (vault : Vault) : ((held vault).map Prod.fst).Nodup := by
  have mem : ((held vault).map Prod.fst).Sublist (vault.entries.map Prod.fst) := by
    unfold held
    induction vault.entries with
    | nil => exact List.Sublist.refl _
    | cons e es ih =>
      cases hit : heldEntry e with
      | none => simpa [hit] using ih.cons e.1
      | some item => simpa [hit,heldEntry_key hit] using ih
  exact vault.distinct.sublist mem

theorem held_set {i : MetaIndex} (same : i.entries = held vault)
    (clean : damaged vault = []) (isRef : isSnapshotRef ref = true)
    {payload : EditorHotExitStoredSnapshot} (valid : isStoredSnapshot payload = true) :
    held (vault.set ref (.sealed (some payload))) = (i.set ref (metaOf payload)).entries := by
  have opened : heldEntry (ref,.sealed (some payload)) = some (ref,metaOf payload) := by
    rw [heldEntry,if_pos isRef,openedSnapshot,parseStoredSnapshot,Option.filter_some_pos valid]
    rfl
  have present : ref ∈ i.keys ↔ ref ∈ vault.keys := by
    constructor
    · intro mem
      obtain ⟨item,inside,rfl⟩ := mem_map.mp mem
      rw [same] at inside
      obtain ⟨_,snapshot,hit,_⟩ := mem_held.mp inside
      obtain ⟨envelope,known,_⟩ := Option.bind_eq_some_iff.mp hit
      exact OrderedMap.mem_keys.mpr ⟨envelope,known⟩
    · intro mem
      obtain ⟨envelope,known⟩ := OrderedMap.mem_keys.mp mem
      obtain ⟨snapshot,readable⟩ := damaged_eq_nil.mp clean ref envelope known isRef
      rw [OrderedMap.keys,same]
      refine mem_map.mpr ⟨(ref,metaOf snapshot),mem_held.mpr ⟨isRef,snapshot,?_,rfl⟩,rfl⟩
      rw [snapshotAt,known,Option.bind_some,readable]
  by_cases inVault : ref ∈ vault.keys
  · rw [OrderedMap.entries_set_of_mem (present.mpr inVault),held,
      OrderedMap.entries_set_of_mem inVault,same,held,filterMap_map,map_filterMap]
    apply filterMap_congr
    intro e mem
    rw [Function.comp_apply,OrderedMap.replaceEntry]
    split
    next here =>
      obtain ⟨other,envelope⟩ := e
      subst here
      obtain ⟨snapshot,readable⟩ := damaged_eq_nil.mp clean other envelope (OrderedMap.mem_entries.mp mem) isRef
      rw [opened,heldEntry,if_pos isRef,readable]
      simp [OrderedMap.replaceEntry]
    next elsewhere =>
      cases hit : heldEntry e with
      | none => rfl
      | some item =>
        rw [Option.map_some,OrderedMap.replaceEntry,if_neg]
        rw [heldEntry_key hit]
        exact elsewhere
  · rw [OrderedMap.entries_set_of_not_mem (mt present.mp inVault),held,
      OrderedMap.entries_set_of_not_mem inVault,same,filterMap_append,filterMap_cons,opened]
    rfl

end Vaults

section Index

variable {vault : Vault}

theorem listFrom_eq (vault : Vault) (refs : List Text) (nodup : refs.Nodup) : listFrom vault refs =
      (refs.filterMap (fun ref => if isSnapshotRef ref then
          (snapshotAt vault ref).map fun snapshot => (ref,snapshot) else none),
        vault.without (refs.filter fun ref => isSnapshotRef ref && (snapshotAt vault ref).isNone)) := by
  induction refs generalizing vault with
  | nil => simp [listFrom]
  | cons ref refs ih =>
    obtain ⟨fresh,nodup⟩ := nodup_cons.mp nodup
    rw [listFrom]
    by_cases isRef : isSnapshotRef ref = true
    · rw [if_pos isRef,readStoredSnapshot_eq,filterMap_cons,if_pos isRef,filter_cons,isRef,Bool.true_and]
      simp only
      cases found : snapshotAt vault ref with
      | some snapshot => simp [ih vault nodup]
      | none =>
        have post : ∀ other ∈ refs, snapshotAt (vault.without [ref]) other = snapshotAt vault other := by
          intro other mem
          rw [snapshotAt_without,if_neg]
          intro same
          rw [mem_singleton.mp same] at mem
          exact fresh mem
        have items : refs.filterMap (fun other => if isSnapshotRef other then
              (snapshotAt (vault.without [ref]) other).map fun snapshot => (other,snapshot) else none) =
            refs.filterMap (fun other => if isSnapshotRef other then
              (snapshotAt vault other).map fun snapshot => (other,snapshot) else none) := by
          apply filterMap_congr
          intro other mem
          rw [post other mem]
        have gone : (refs.filter fun other =>
              isSnapshotRef other && (snapshotAt (vault.without [ref]) other).isNone) =
            refs.filter fun other => isSnapshotRef other && (snapshotAt vault other).isNone := by
          apply filter_congr
          intro other mem
          rw [post other mem]
        rw [if_pos Option.isNone_none,if_pos Option.isNone_none,OrderedMap.delete_eq_without,
          ih (vault.without [ref]) nodup,items,gone,OrderedMap.without_without]
        rfl
    · rw [if_neg isRef,ih vault nodup,filterMap_cons,if_neg isRef,filter_cons]
      simp [isRef]

theorem held_eq (vault : Vault) : held vault = (vault.keys.filterMap fun ref =>
    if isSnapshotRef ref then (snapshotAt vault ref).map fun snapshot => (ref,snapshot)
    else none).map fun item => (item.1,metaOf item.2) := by
  rw [held,OrderedMap.keys,filterMap_map,map_filterMap]
  apply filterMap_congr
  intro e mem
  rw [Function.comp_apply,heldEntry,snapshotAt_of_mem mem]
  split
  · rw [Option.map_map]
    rfl
  · rfl

/-- An index that is built tells of what the vault holds, and nothing in the vault is damaged. -/
def Agrees (store : Store) : Prop := ∀ index, store.metaIndex = some index →
  index.entries = held store.vault ∧ damaged store.vault = []

variable {store : Store} {ref : Text}

theorem held_undamaged (vault : Vault) : held (vault.without (damaged vault)) = held vault := by
  rw [held_without,filter_eq_self]
  intro item mem
  rw [decide_eq_true_iff]
  intro gone
  obtain ⟨_,snapshot,hit,_⟩ := mem_held.mp mem
  have unreadable := (mem_filter.mp gone).2
  simp [hit] at unreadable

theorem damaged_without (vault : Vault) (gone : List Text) (covered : damaged vault ⊆ gone) :
    damaged (vault.without gone) = [] := by
  rw [damaged_eq_nil]
  intro key envelope hit isRef
  rw [OrderedMap.get?_without] at hit
  split at hit
  · cases hit
  next kept =>
    by_contra unreadable
    apply kept
    apply covered
    refine mem_filter.mpr ⟨OrderedMap.mem_keys.mpr ⟨envelope,hit⟩,?_⟩
    rw [snapshotAt,hit,Option.bind_some,isRef,Bool.true_and,Option.isNone_iff_eq_none]
    exact Option.eq_none_iff_forall_ne_some.mpr fun snapshot opened => unreadable ⟨snapshot,opened⟩

theorem damaged_without_of_clean (clean : damaged vault = []) (gone : List Text) :
    damaged (vault.without gone) = [] := damaged_without vault gone (by simp [clean])

theorem getMetaIndex_spec (agrees : Agrees store) : (getMetaIndex store).1 = store.vault.without (damaged store.vault) ∧
      (getMetaIndex store).2.entries = held store.vault := by
  unfold getMetaIndex
  split
  next i built =>
    obtain ⟨same,clean⟩ := agrees i built
    exact ⟨by rw [clean,OrderedMap.without_nil],same⟩
  next =>
    rw [listHotExitItems,listFrom_eq store.vault store.vault.keys store.vault.distinct]
    refine ⟨rfl,?_⟩
    rw [OrderedMap.entries_foldl_set,held_eq]
    · rfl
    · have nodup := nodup_held store.vault
      rw [held_eq,map_map] at nodup
      exact nodup

theorem getMetaIndex_restart (agrees : Agrees store) : getMetaIndex store = getMetaIndex (restart store) := by
  have fresh : Agrees (restart store) := fun i built => by cases built
  obtain ⟨vault,i⟩ := getMetaIndex_spec agrees
  obtain ⟨vault',index'⟩ := getMetaIndex_spec fresh
  apply Prod.ext
  · rw [vault,vault']
    rfl
  · apply OrderedMap.ext
    rw [i,index']
    rfl

theorem Agrees.restart : Agrees (restart store) := fun i built => by cases built

theorem Agrees.delete (agrees : Agrees store) (ref : Text) :
    Agrees ⟨store.vault.delete ref,store.metaIndex.map (·.delete ref)⟩ := by
  intro i built
  obtain ⟨pre,known,rfl⟩ := Option.map_eq_some_iff.mp built
  obtain ⟨same,clean⟩ := agrees pre known
  simp only [OrderedMap.delete_eq_without]
  refine ⟨?_,damaged_without_of_clean clean [ref]⟩
  rw [held_without,← same,OrderedMap.entries_without]

end Index

section Pruning

variable {nowMs : ℚ} {ref : Text}

def unexpired (items : List (Text × HotExitMeta)) (ref : Text) (nowMs : ℚ) : List (Text × HotExitMeta) :=
  items.filter fun item => decide (item.1 ≠ ref) && !expired item.2.updatedAt nowMs

def overdue (items : List (Text × HotExitMeta)) (ref : Text) (nowMs : ℚ) : List (Text × HotExitMeta) :=
  items.filter fun item => decide (item.1 ≠ ref) && expired item.2.updatedAt nowMs

def Pruned.without (pruned : Pruned) (gone : List Text) : Pruned :=
  { pruned with vault := pruned.vault.without gone, index := pruned.index.without gone }

theorem Pruned.drop_eq (pruned : Pruned) : pruned.drop ref = pruned.without [ref] := by
  rw [Pruned.drop,Pruned.without,OrderedMap.delete_eq_without,OrderedMap.delete_eq_without]

theorem Pruned.without_without (pruned : Pruned) (a b : List Text) :
    (pruned.without a).without b = pruned.without (a ++ b) := by
  simp only [Pruned.without,OrderedMap.without_without]

theorem foldl_pruneExpired (nowMs : ℚ) (ref : Text) (items : List (Text × HotExitMeta))
    (pruned : Pruned) : items.foldl (pruneExpired nowMs ref) pruned =
      { pruned.without ((overdue items ref nowMs).map Prod.fst) with
        retained := pruned.retained ++ unexpired items ref nowMs } := by
  induction items generalizing pruned with
  | nil => simp [overdue,unexpired,Pruned.without]
  | cons item items ih =>
    rw [foldl_cons,ih,pruneExpired]
    by_cases incoming : item.1 = ref
    · simp [incoming,overdue,unexpired]
    · cases late : expired item.2.updatedAt nowMs with
      | true =>
        simp only [if_neg incoming,if_true,Pruned.drop_eq,Pruned.without_without]
        simp [incoming,late,overdue,unexpired,Pruned.without]
      | false => simp [incoming,late,overdue,unexpired,Pruned.without]

@[simp] theorem totalSize_nil : totalSize [] = 0 := rfl

@[simp] theorem totalSize_cons (item : Text × HotExitMeta) (items : List (Text × HotExitMeta)) :
    totalSize (item :: items) = item.2.contentSizeBytes + totalSize items := by simp [totalSize]

theorem totalSize_perm {a b : List (Text × HotExitMeta)} (perm : a.Perm b) :
    totalSize a = totalSize b := (perm.map _).sum_eq

structure Evicts (size : Nat) (items evicted kept : List (Text × HotExitMeta)) : Prop where
  split : items = evicted ++ kept
  fits : size + totalSize kept ≤ maxTotalBytes
  needed : ∀ front rest, evicted = front ++ rest → rest ≠ [] → maxTotalBytes < size + totalSize (rest ++ kept)

theorem pruneOldest_evicts {size : Nat} (small : size ≤ maxTotalBytes)
    (items : List (Text × HotExitMeta)) (pruned : Pruned) : ∃ evicted kept,
      pruneOldest pruned (size + totalSize items) items = pruned.without (evicted.map Prod.fst) ∧
        Evicts size items evicted kept := by
  have nothing (items : List (Text × HotExitMeta)) (fits : size + totalSize items ≤ maxTotalBytes) :
      Evicts size items [] items := by
    refine ⟨rfl,fits,?_⟩
    intro front rest same some_rest
    exact absurd (append_eq_nil_iff.mp same.symm).2 some_rest
  induction items generalizing pruned with
  | nil => exact ⟨[],[],by simp [pruneOldest,Pruned.without],nothing [] small⟩
  | cons item items ih =>
    rw [pruneOldest]
    split
    next fits => exact ⟨[],item :: items,by simp [Pruned.without],nothing _ fits⟩
    next tooMuch =>
      have left : size + totalSize (item :: items) - item.2.contentSizeBytes = size + totalSize items := by
        rw [totalSize_cons]
        omega
      rw [left]
      obtain ⟨evicted,kept,same,split,fits,needed⟩ := ih (pruned.drop item.1)
      refine ⟨item :: evicted,kept,?_,by rw [split]; rfl,fits,?_⟩
      · rw [same,Pruned.drop_eq,Pruned.without_without]
        rfl
      · intro front rest whole some_rest
        cases front with
        | nil =>
          rw [nil_append] at whole
          rw [← whole,cons_append,← split]
          omega
        | cons a front =>
          rw [cons_append,cons_eq_cons] at whole
          exact needed front rest whole.2 some_rest

theorem prune_spec (vault : Vault) (nowMs : ℚ) {i : MetaIndex} {incoming : HotExitMeta}
    (hit : i.get? ref = some incoming) (small : incoming.contentSizeBytes ≤ maxTotalBytes) :
    ∃ evicted kept, prune vault i nowMs ref =
        (vault.without ((overdue i.entries ref nowMs ++ evicted).map Prod.fst),
          i.without ((overdue i.entries ref nowMs ++ evicted).map Prod.fst)) ∧
      Evicts incoming.contentSizeBytes (oldestFirst (unexpired i.entries ref nowMs)) evicted kept := by
  have kept_incoming : ref ∉ (overdue i.entries ref nowMs).map Prod.fst := by
    intro mem
    obtain ⟨item,inside,same⟩ := mem_map.mp mem
    have other := (mem_filter.mp inside).2
    simp [same] at other
  have sorted : (oldestFirst (unexpired i.entries ref nowMs)).Perm
      (unexpired i.entries ref nowMs) := mergeSort_perm _ _
  have expires := foldl_pruneExpired nowMs ref i.entries ⟨vault,i,[]⟩
  unfold prune
  rw [expires]
  generalize same : ({ (Pruned.without ⟨vault,i,[]⟩ ((overdue i.entries ref nowMs).map Prod.fst))
    with retained := [] ++ unexpired i.entries ref nowMs } : Pruned) = pruned
  have retained : pruned.retained = unexpired i.entries ref nowMs := by rw [← same]; rfl
  have start : ((pruned.index.get? ref).map HotExitMeta.contentSizeBytes).getD 0 =
      incoming.contentSizeBytes := by
    rw [← same]
    simp only [Pruned.without]
    rw [OrderedMap.get?_without,if_neg kept_incoming,hit]
    rfl
  simp only [start,retained,← totalSize_perm sorted]
  split
  next fits =>
    refine ⟨[],oldestFirst (unexpired i.entries ref nowMs),?_,rfl,fits,?_⟩
    · rw [← same,append_nil]
      rfl
    · intro front rest empty some_rest
      exact absurd (append_eq_nil_iff.mp empty.symm).2 some_rest
  next =>
    obtain ⟨evicted,kept,drops,evicts⟩ := pruneOldest_evicts small
      (oldestFirst (unexpired i.entries ref nowMs)) pruned
    refine ⟨evicted,kept,?_,evicts⟩
    rw [drops,← same]
    simp only [Pruned.without,OrderedMap.without_without,map_append]

end Pruning

section Operations

variable {store : Store} {snapshot : EditorHotExitSnapshotV1} {ref key : Text} {receivedAt nowMs : ℚ}

structure Accepted (snapshot : EditorHotExitSnapshotV1) (ref : Text) (receivedAt : ℚ) : Prop where
  valid : isEditorHotExitSnapshotV1 snapshot = true
  isRef : isSnapshotRef ref = true
  clock : 0 ≤ receivedAt
  fits : Text.byteLength snapshot.content ≤ maxTotalBytes

theorem isStoredSnapshot_payloadFor (accepted : Accepted snapshot ref receivedAt) :
    isStoredSnapshot (payloadFor snapshot receivedAt) = true := by
  have valid := accepted.valid
  have clock := accepted.clock
  simp only [isEditorHotExitSnapshotV1,Bool.and_eq_true,decide_eq_true_iff] at valid
  simp [isStoredSnapshot,payloadFor,clock,valid]

/-- What a write does to the vault: the entry is there, what is stored fits, and of the others
those are gone that were late and then as few of the oldest as it takes. -/
structure Written (before after : Vault) (payload : EditorHotExitStoredSnapshot) (ref : Text)
    (nowMs : ℚ) : Prop where
  stored : snapshotAt after ref = some payload
  within : totalSize (held after) ≤ maxTotalBytes
  evicts : ∃ evicted kept, Evicts payload.contentSizeBytes
      (oldestFirst (unexpired (held before) ref nowMs)) evicted kept ∧
    ∀ key, key ≠ ref → isSnapshotRef key = true →
      after.get? key = if key ∈ kept.map Prod.fst then before.get? key else none
  others : ∀ key, isSnapshotRef key = false → after.get? key = before.get? key

section Shares

variable {xs evicted kept : List (Text × HotExitMeta)} {size : Nat} {item : Text × HotExitMeta}

theorem eq_of_key (nodup : (xs.map Prod.fst).Nodup) {a b : Text × HotExitMeta}
    (one : a ∈ xs) (two : b ∈ xs) (same : a.1 = b.1) : a = b :=
  inj_on_of_nodup_map nodup one two same

theorem mem_kept_iff (nodup : (xs.map Prod.fst).Nodup)
    (evicts : Evicts size (oldestFirst (unexpired xs ref nowMs)) evicted kept) (mem : item ∈ xs) (other : item.1 ≠ ref) :
    item ∈ kept ↔ item.1 ∉ (overdue xs ref nowMs ++ evicted).map Prod.fst := by
  have perm : (evicted ++ kept).Perm (unexpired xs ref nowMs) := by
    rw [← evicts.split]
    exact mergeSort_perm _ _
  have inside (near : Text × HotExitMeta) (among : near ∈ evicted ∨ near ∈ kept) :
      near ∈ xs ∧ expired near.2.updatedAt nowMs = false := by
    obtain ⟨mem,early⟩ := mem_filter.mp (perm.mem_iff.mp (mem_append.mpr among))
    rw [Bool.and_eq_true,Bool.not_eq_true'] at early
    exact ⟨mem,early.2⟩
  have apart : (evicted ++ kept).Nodup := by
    rw [perm.nodup_iff]
    exact (List.Nodup.of_map Prod.fst nodup).filter _
  constructor
  · intro stays dropped
    obtain ⟨near,among,same⟩ := mem_map.mp dropped
    rcases mem_append.mp among with late | gone
    · have late := mem_filter.mp late
      rw [eq_of_key nodup late.1 mem same,(inside item (.inr stays)).2] at late
      simp at late
    · rw [eq_of_key nodup (inside near (.inl gone)).1 mem same] at gone
      exact (disjoint_of_nodup_append apart) gone stays
  · intro notDropped
    rw [map_append,mem_append,not_or] at notDropped
    have early : item ∈ unexpired xs ref nowMs := by
      refine mem_filter.mpr ⟨mem,?_⟩
      cases late : expired item.2.updatedAt nowMs with
      | false => simp [other]
      | true =>
        have among : item ∈ overdue xs ref nowMs := mem_filter.mpr ⟨mem,by simp [other,late]⟩
        exact absurd (mem_map_of_mem among) notDropped.1
    rcases mem_append.mp (perm.mem_iff.mpr early) with gone | stays
    · exact absurd (mem_map_of_mem gone) notDropped.2
    · exact stays

theorem kept_inside (evicts : Evicts size (oldestFirst (unexpired xs ref nowMs)) evicted kept) (stays : item ∈ kept) : item ∈ xs ∧ item.1 ≠ ref := by
  have sorted : item ∈ oldestFirst (unexpired xs ref nowMs) := by
    rw [evicts.split]
    exact mem_append_right _ stays
  obtain ⟨mem,early⟩ := mem_filter.mp (mem_mergeSort.mp sorted)
  rw [Bool.and_eq_true,decide_eq_true_iff] at early
  exact ⟨mem,early.1⟩

theorem kept_perm (nodup : (xs.map Prod.fst).Nodup)
    (evicts : Evicts size (oldestFirst (unexpired xs ref nowMs)) evicted kept) :
    (xs.filter fun item => decide (item.1 ∉
      (overdue xs ref nowMs ++ evicted).map Prod.fst ++ [ref])).Perm kept := by
  have plain := List.Nodup.of_map Prod.fst nodup
  have keptPlain : kept.Nodup := by
    have sorted : (evicted ++ kept).Nodup := by
      rw [← evicts.split]
      exact (mergeSort_perm _ _).nodup_iff.mpr (plain.filter _)
    exact (nodup_append.mp sorted).2.1
  rw [perm_ext_iff_of_nodup (plain.filter _) keptPlain]
  intro item
  simp only [mem_filter,decide_eq_true_iff,mem_append,not_or,mem_singleton]
  constructor
  · intro ⟨mem,notDropped,other⟩
    exact (mem_kept_iff nodup evicts mem other).mpr notDropped
  · intro stays
    obtain ⟨mem,other⟩ := kept_inside evicts stays
    exact ⟨mem,(mem_kept_iff nodup evicts mem other).mp stays,other⟩

end Shares

theorem write_eq (agrees : Agrees store) (accepted : Accepted snapshot ref receivedAt) :
    ∃ (i : MetaIndex) (evicted kept : List (Text × HotExitMeta)),
      i.get? ref = some (metaOf (payloadFor snapshot receivedAt)) ∧
      i.entries = held ((store.vault.without (damaged store.vault)).set ref
        (.sealed (some (payloadFor snapshot receivedAt)))) ∧
      overdue i.entries ref receivedAt = overdue (held store.vault) ref receivedAt ∧
      unexpired i.entries ref receivedAt = unexpired (held store.vault) ref receivedAt ∧
      ref ∉ (overdue i.entries ref receivedAt ++ evicted).map Prod.fst ∧
      Evicts (payloadFor snapshot receivedAt).contentSizeBytes
        (oldestFirst (unexpired i.entries ref receivedAt)) evicted kept ∧
      (write store snapshot ref receivedAt).1 = ⟨((store.vault.without (damaged store.vault)).set ref
            (.sealed (some (payloadFor snapshot receivedAt)))).without
              ((overdue i.entries ref receivedAt ++ evicted).map Prod.fst),
          some (i.without ((overdue i.entries ref receivedAt ++ evicted).map Prod.fst))⟩ := by
  obtain ⟨vaultSame,indexSame⟩ := getMetaIndex_spec agrees
  have valid := isStoredSnapshot_payloadFor accepted
  obtain ⟨clean,cleanSame⟩ : ∃ clean, store.vault.without (damaged store.vault) = clean := ⟨_,rfl⟩
  have undamaged : damaged clean = [] := by
    rw [← cleanSame]
    exact damaged_without store.vault _ (List.Subset.refl _)
  have heldSame : held clean = held store.vault := by
    rw [← cleanSame]
    exact held_undamaged store.vault
  obtain ⟨built,builtSame⟩ : ∃ built, (getMetaIndex store).2 = built := ⟨_,rfl⟩
  rw [builtSame] at indexSame
  obtain ⟨i,setSame⟩ : ∃ i, built.set ref (metaOf (payloadFor snapshot receivedAt)) = i :=
    ⟨_,rfl⟩
  have hit : i.get? ref = some (metaOf (payloadFor snapshot receivedAt)) := by
    rw [← setSame,OrderedMap.get?_set_self]
  obtain ⟨evicted,kept,pruned,evicts⟩ :=
    prune_spec clean receivedAt hit (by exact accepted.fits)
  have differ : ref ∉ (overdue i.entries ref receivedAt ++ evicted).map Prod.fst := by
    intro dropped
    obtain ⟨item,among,same⟩ := mem_map.mp dropped
    rcases mem_append.mp among with late | gone
    · have other := (mem_filter.mp late).2
      simp [same] at other
    · have sorted : item ∈ oldestFirst (unexpired i.entries ref receivedAt) := by
        rw [evicts.split]
        exact mem_append_left _ gone
      have other := (mem_filter.mp (mem_mergeSort.mp sorted)).2
      simp [same] at other
  rw [cleanSame]
  refine ⟨i,evicted,kept,hit,?_,?_,?_,differ,evicts,?_⟩
  · rw [← setSame]
    exact (held_set (indexSame.trans heldSame.symm) undamaged accepted.isRef valid).symm
  · rw [overdue,overdue,← setSame,OrderedMap.filter_entries_set (by simp),indexSame]
  · rw [unexpired,unexpired,← setSame,OrderedMap.filter_entries_set (by simp),indexSame]
  · have still : (i.without ((overdue i.entries ref receivedAt ++ evicted).map Prod.fst)).has ref = true := by
      rw [OrderedMap.has_iff]
      exact ⟨_,by rw [OrderedMap.get?_without,if_neg differ,hit]⟩
    unfold write
    simp only [vaultSame,cleanSame,builtSame]
    rw [show (⟨(payloadFor snapshot receivedAt).contentSizeBytes,receivedAt⟩ : HotExitMeta) =
      metaOf (payloadFor snapshot receivedAt) from rfl,setSame,pruned]
    simp only [still,if_true,OrderedMap.without_set differ]

theorem write_agrees (agrees : Agrees store) (accepted : Accepted snapshot ref receivedAt) :
    Agrees (write store snapshot ref receivedAt).1 := by
  obtain ⟨i,evicted,kept,_,same,_,_,_,_,written⟩ := write_eq agrees accepted
  rw [written]
  intro built some_index
  obtain rfl := Option.some.inj some_index
  refine ⟨?_,?_⟩
  · rw [held_without,OrderedMap.entries_without,same]
  · apply damaged_without_of_clean
    rw [damaged_eq_nil]
    intro key envelope hit isRef
    rw [OrderedMap.get?_set] at hit
    split at hit
    · cases hit
      exact ⟨_,Option.filter_some_pos (isStoredSnapshot_payloadFor accepted)⟩
    · exact damaged_eq_nil.mp (damaged_without store.vault _ (List.Subset.refl _)) key envelope hit isRef

theorem write_written (agrees : Agrees store) (accepted : Accepted snapshot ref receivedAt) :
    Written store.vault (write store snapshot ref receivedAt).1.vault
      (payloadFor snapshot receivedAt) ref receivedAt := by
  obtain ⟨i,evicted,kept,hit,same,late,early,differ,evicts,written⟩ :=
    write_eq agrees accepted
  rw [written]
  have nodup := nodup_held store.vault
  obtain ⟨gone,goneSame⟩ : ∃ gone, (overdue i.entries ref receivedAt ++ evicted).map Prod.fst = gone := ⟨_,rfl⟩
  have after (key : Text) (other : key ≠ ref) : (((store.vault.without (damaged store.vault)).set ref
        (.sealed (some (payloadFor snapshot receivedAt)))).without gone).get? key =
        if key ∈ gone ∨ key ∈ damaged store.vault then none else store.vault.get? key := by
    rw [OrderedMap.get?_without,OrderedMap.get?_set_of_ne _ other,OrderedMap.get?_without]
    by_cases dropped : key ∈ gone
    · simp [dropped]
    · simp [dropped]
  rw [goneSame] at differ ⊢
  refine ⟨?_,?_,⟨evicted,kept,early ▸ evicts,?_⟩,?_⟩
  · rw [snapshotAt_without,if_neg differ,snapshotAt,OrderedMap.get?_set_self,Option.bind_some]
    exact Option.filter_some_pos (isStoredSnapshot_payloadFor accepted)
  · have left : (i.without gone).get? ref = some (metaOf (payloadFor snapshot receivedAt)) := by
      rw [OrderedMap.get?_without,if_neg differ,hit]
    have rest : totalSize ((i.without gone).delete ref).entries = totalSize kept := by
      rw [OrderedMap.delete_eq_without,OrderedMap.without_without,OrderedMap.entries_without,← goneSame]
      exact totalSize_perm (kept_perm i.distinct evicts)
    have whole := OrderedMap.total_delete_of_some (fun _ (item : HotExitMeta) => item.contentSizeBytes) left
    change totalSize (i.without gone).entries = _ + totalSize _ at whole
    rw [held_without,← same,← OrderedMap.entries_without,whole,rest]
    exact evicts.fits
  · intro key other isRef
    rw [after key other]
    rw [late] at goneSame
    rw [early] at evicts
    split
    next dropped =>
      rw [if_neg]
      intro stays
      obtain ⟨item,inside,rfl⟩ := mem_map.mp stays
      obtain ⟨mem,_⟩ := kept_inside evicts inside
      rcases dropped with dropped | broken
      · rw [← goneSame] at dropped
        exact (mem_kept_iff nodup evicts mem other).mp inside dropped
      · obtain ⟨_,readable,opened,_⟩ := mem_held.mp mem
        have unreadable := (mem_filter.mp broken).2
        simp [opened] at unreadable
    next stays =>
      rw [not_or] at stays
      split
      · rfl
      next absent =>
        cases known : store.vault.get? key with
        | none => rfl
        | some envelope =>
          exfalso
          cases opened : snapshotAt store.vault key with
          | none =>
            apply stays.2
            refine mem_filter.mpr ⟨OrderedMap.mem_keys.mpr ⟨envelope,known⟩,?_⟩
            simp [isRef,opened]
          | some readable =>
            have mem : (key,metaOf readable) ∈ held store.vault :=
              mem_held.mpr ⟨isRef,readable,opened,rfl⟩
            apply absent
            refine mem_map.mpr ⟨_,(mem_kept_iff nodup evicts mem other).mpr ?_,rfl⟩
            rw [goneSame]
            exact stays.1
  · intro key notRef
    have other : key ≠ ref := by
      intro same_key
      rw [same_key,accepted.isRef] at notRef
      cases notRef
    rw [after key other,if_neg]
    rintro (dropped | broken)
    · rw [← goneSame] at dropped
      obtain ⟨item,among,rfl⟩ := mem_map.mp dropped
      have mem : item ∈ i.entries := by
        rcases mem_append.mp among with lateItem | evictedItem
        · exact (mem_filter.mp lateItem).1
        · have sorted : item ∈ oldestFirst (unexpired i.entries ref receivedAt) := by
            rw [evicts.split]
            exact mem_append_left _ evictedItem
          exact (mem_filter.mp (mem_mergeSort.mp sorted)).1
      rw [same] at mem
      obtain ⟨isRef,_⟩ := mem_held.mp mem
      rw [isRef] at notRef
      cases notRef
    · have isRef := (mem_filter.mp broken).2
      simp [notRef] at isRef

theorem read_eq (agrees : Agrees store) (ref : Text) (nowMs : ℚ) : read store ref nowMs = if isSnapshotRef ref then
      match (snapshotAt store.vault ref).filter fun hit => !expired (metaOf hit).updatedAt nowMs with
      | some hit => (store,some hit)
      | none => (⟨store.vault.delete ref,store.metaIndex.map (·.delete ref)⟩,none)
    else (store,none) := by
  unfold read
  split
  next isRef =>
    rw [readStoredSnapshot_eq]
    cases opened : snapshotAt store.vault ref with
    | none => rfl
    | some hit =>
      have basis : ttlBasisFor (store.metaIndex.bind (·.get? ref)) hit.serverReceivedAt
          hit.updatedAt = (metaOf hit).updatedAt ∧
            store.metaIndex.map (·.set ref ⟨hit.contentSizeBytes,(metaOf hit).updatedAt⟩) =
              store.metaIndex := by
        cases built : store.metaIndex with
        | none => exact ⟨rfl,rfl⟩
        | some i =>
          have known : i.get? ref = some (metaOf hit) := by
            rw [← OrderedMap.mem_entries,(agrees i built).1]
            exact mem_held.mpr ⟨isRef,hit,opened,rfl⟩
          refine ⟨?_,?_⟩
          · rw [Option.bind_some,known]
            rfl
          · rw [Option.map_some]
            exact congrArg some (OrderedMap.set_of_some known)
      simp only [basis.1,basis.2]
      cases late : expired (metaOf hit).updatedAt nowMs with
      | true =>
        rw [Option.filter_some_neg (by simp [late])]
        rfl
      | false =>
        rw [Option.filter_some_pos (by simp [late])]
        rfl
  next => rfl

theorem read_agrees (agrees : Agrees store) (ref : Text) (nowMs : ℚ) : Agrees (read store ref nowMs).1 := by
  rw [read_eq agrees]
  split
  · split
    · exact agrees
    · exact agrees.delete ref
  · exact agrees

theorem delete_agrees (agrees : Agrees store) (ref : Text) : Agrees (delete store ref) := by
  unfold delete
  split
  · exact agrees.delete ref
  · exact agrees

theorem write_restart (agrees : Agrees store) :
    write store snapshot ref receivedAt = write (restart store) snapshot ref receivedAt := by
  unfold write
  rw [getMetaIndex_restart agrees]

end Operations

section Runs

def Event.Promised : Event → Prop
  | .write snapshot ref receivedAt => Accepted snapshot ref receivedAt
  | _ => True

variable {store other : Store} {event : Event}

theorem step_agrees (vault : Vault) (promised : event.Promised) (agrees : Agrees store) :
    Agrees ((hotExitStore vault).step store event) := by
  cases event with
  | write snapshot ref receivedAt => exact write_agrees agrees promised
  | read ref nowMs => exact read_agrees agrees ref nowMs
  | delete ref => exact delete_agrees agrees ref
  | restart => exact Agrees.restart

theorem step_alike (vault : Vault) (event : Event) (agrees : Agrees store) (agreesOther : Agrees other)
    (same : store.vault = other.vault) :
    ((hotExitStore vault).step store event).vault = ((hotExitStore vault).step other event).vault ∧
      (hotExitStore vault).notes store event = (hotExitStore vault).notes other event := by
  cases event with
  | write snapshot ref receivedAt =>
    have restarted : restart store = restart other := congrArg (fun vault => Store.mk vault none) same
    simp only [hotExitStore,write_restart agrees,write_restart agreesOther,restarted,and_self]
  | read ref nowMs =>
    simp only [hotExitStore,read_eq agrees,read_eq agreesOther,same]
    split
    · split
      · exact ⟨same,rfl⟩
      · exact ⟨rfl,rfl⟩
    · exact ⟨same,rfl⟩
  | delete ref =>
    refine ⟨?_,rfl⟩
    simp only [hotExitStore,delete,same]
    split
    · rfl
    · exact same
  | restart => exact ⟨same,rfl⟩

theorem run_agrees (vault : Vault) (evs : List Event) (promised : ∀ event ∈ evs, event.Promised) :
    Agrees ((hotExitStore vault).run evs) := by
  refine Machine.holds_of_promised Event.Promised (fun store _ => Agrees store) ?_ ?_ evs promised
  · exact fun i built => by cases built
  · exact fun store _ event kept agrees => step_agrees vault kept agrees

theorem later_alike (vault : Vault) (post : List Event) (promised : ∀ event ∈ post, event.Promised)
    (agrees : Agrees store) (agreesOther : Agrees other) (same : store.vault = other.vault) :
    (hotExitStore vault).notesFrom store post = (hotExitStore vault).notesFrom other post ∧
      (post.foldl (hotExitStore vault).step store).vault = (post.foldl (hotExitStore vault).step other).vault := by
  induction post generalizing store other with
  | nil => exact ⟨rfl,same⟩
  | cons event post ih =>
    have now : event.Promised := promised event mem_cons_self
    obtain ⟨sameVault,sameNotes⟩ := step_alike vault event agrees agreesOther same
    obtain ⟨notes,vaults⟩ := ih (fun event mem => promised event (mem_cons_of_mem _ mem))
      (step_agrees vault now agrees) (step_agrees vault now agreesOther) sameVault
    refine ⟨?_,vaults⟩
    rw [Machine.notesFrom,Machine.notesFrom,sameNotes,notes]

/-- Whatever came before, from whatever vault: the index agrees with the vault, a write stores its
entry and drops what is late and as few of the oldest as it takes, and a restart changes neither
what is answered later nor what is stored. -/
theorem hotExitStore_keeps (vault : Vault) (events : List Event)
    (promised : ∀ event ∈ events, event.Promised) :
    (∀ index, ((hotExitStore vault).run events).metaIndex = some index →
      index.entries = held ((hotExitStore vault).run events).vault) ∧
    (∀ snapshot ref receivedAt, Accepted snapshot ref receivedAt →
      Written ((hotExitStore vault).run events).vault
        ((hotExitStore vault).run (events ++ [.write snapshot ref receivedAt])).vault
        (payloadFor snapshot receivedAt) ref receivedAt) ∧
    ∀ later : List Event, (∀ event ∈ later, event.Promised) →
      (hotExitStore vault).noted (events ++ later) = (hotExitStore vault).noted (events ++ .restart :: later) ∧
      ((hotExitStore vault).run (events ++ later)).vault =
        ((hotExitStore vault).run (events ++ .restart :: later)).vault := by
  have agrees := run_agrees vault events promised
  refine ⟨fun index built => (agrees index built).1,?_,?_⟩
  · intro snapshot ref receivedAt accepted
    rw [Machine.run_snoc]
    exact write_written agrees accepted
  · intro later promisedLater
    have restarted : Agrees (restart ((hotExitStore vault).run events)) := Agrees.restart
    obtain ⟨notes,vaults⟩ := later_alike vault later promisedLater agrees restarted rfl
    refine ⟨?_,?_⟩
    · rw [Machine.noted_append,notes,Machine.noted_append]
      rfl
    · rw [Machine.run_append,vaults,Machine.run_append]
      rfl

def sampleSnapshot : EditorHotExitSnapshotV1 where
  content := "a".toList
  baseVersion := none
  contentHash := List.replicate 64 'a'
  savedContentHash := none
  updatedAt := 0
  paneId := "pane".toList
  windowId := "window".toList

def sampleRef (c : Char) : Text := hotExitRefPrefix ++ List.replicate 64 c

/-- An entry that another process has written is there behind a second write. -/
theorem hotExitStore_keeps_sample :
    Written ((hotExitStore OrderedMap.empty).run [.write sampleSnapshot (sampleRef 'a') 5,.restart]).vault
      ((hotExitStore OrderedMap.empty).run
        ([.write sampleSnapshot (sampleRef 'a') 5,.restart] ++ [.write sampleSnapshot (sampleRef 'b') 6])).vault
      (payloadFor sampleSnapshot 6) (sampleRef 'b') 6 := by
  have accepted (c : Char) (known : c = 'a' ∨ c = 'b') (receivedAt : ℚ) (clock : 0 ≤ receivedAt) :
      Accepted sampleSnapshot (sampleRef c) receivedAt := by
    refine ⟨by decide,?_,clock,by decide⟩
    obtain rfl | rfl := known
    · decide
    · decide
  refine (hotExitStore_keeps OrderedMap.empty
    [.write sampleSnapshot (sampleRef 'a') 5,.restart] ?_).2.1 _ _ _ (accepted 'b' (.inr rfl) 6 (by decide))
  intro event member
  rcases mem_cons.mp member with rfl | rest
  · exact accepted 'a' (.inl rfl) 5 (by decide)
  · rw [mem_singleton.mp rest]
    trivial

end Runs

end Keiko.HotExitStore
