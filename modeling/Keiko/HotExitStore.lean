import Keiko.Library.OrderedMap
import Keiko.Library.Machine
import Keiko.Library.Text
import Mathlib.Algebra.Order.Field.Rat

/-! The store of editor snapshots that outlive their process. The vault keeps sealed snapshots; an
index of their sizes and receipt times is built from the vault when it is first needed and decides
which of them a write evicts. Times are milliseconds, sizes are bytes. -/
namespace Keiko.HotExitStore
open Keiko.Library

section Snapshots

def hotExitRefPrefix : Text := "hot-exit:".toList

def maxTotalBytes : Nat := 8 * 1024 * 1024

def editorHotExitTtlMs : ℚ := 24 * 60 * 60 * 1000

structure EditorDocumentVersion where
  sizeBytes : ℚ
  modifiedAt : ℚ
  contentHash : Text
  deriving DecidableEq

structure EditorHotExitSnapshotV1 where
  content : Text
  baseVersion : Option EditorDocumentVersion
  contentHash : Text
  savedContentHash : Option Text
  updatedAt : ℚ
  paneId : Text
  windowId : Text
  deriving DecidableEq

/-- A record from before receipt times were stored has none. -/
structure EditorHotExitStoredSnapshot where
  content : Text
  baseVersion : Option EditorDocumentVersion
  contentHash : Text
  savedContentHash : Option Text
  contentSizeBytes : Nat
  updatedAt : ℚ
  serverReceivedAt : Option ℚ
  paneId : Text
  windowId : Text
  deriving DecidableEq

structure HotExitMeta where
  contentSizeBytes : Nat
  updatedAt : ℚ
  deriving DecidableEq

/-- What the vault holds under a reference: a text that it cannot open any more, or a text that is
a record of the right shape or not. -/
inductive Envelope where
  | unopenable
  | sealed (raw : Option EditorHotExitStoredSnapshot)
  deriving DecidableEq

abbrev Vault := OrderedMap Text Envelope

abbrev MetaIndex := OrderedMap Text HotExitMeta

def isLowerHex (c : Char) : Bool := c.isDigit || ('a' ≤ c && c ≤ 'f')

def isSnapshotRef (value : Text) : Bool :=
  hotExitRefPrefix.isPrefixOf value && value.length == hotExitRefPrefix.length + 64 &&
    (value.drop hotExitRefPrefix.length).all isLowerHex

/-- The tests of a stored record that its types leave. -/
def isStoredSnapshot (record : EditorHotExitStoredSnapshot) : Bool :=
  decide (0 ≤ record.updatedAt) && record.serverReceivedAt.all (fun at_ => decide (0 ≤ at_)) &&
    !record.paneId.isEmpty && !record.windowId.isEmpty

def isEditorHotExitSnapshotV1 (value : EditorHotExitSnapshotV1) : Bool :=
  decide (0 ≤ value.updatedAt) && !value.paneId.isEmpty && !value.windowId.isEmpty

def parseStoredSnapshot (raw : Option EditorHotExitStoredSnapshot) :
    Option EditorHotExitStoredSnapshot := raw.filter isStoredSnapshot

def readStoredSnapshot (vault : Vault) (ref : Text) : Option EditorHotExitStoredSnapshot × Vault :=
  match vault.get? ref with
  | none => (none,vault)
  | some .unopenable => (none,vault.delete ref)
  | some (.sealed raw) =>
    match parseStoredSnapshot raw with
    | some snapshot => (some snapshot,vault)
    | none => (none,vault.delete ref)

def expired (ttlBasisUpdatedAt nowMs : ℚ) : Bool := decide (ttlBasisUpdatedAt + editorHotExitTtlMs < nowMs)

def ttlBasisFor (held : Option HotExitMeta) (persistedServerReceivedAt : Option ℚ) (legacyFallbackUpdatedAt : ℚ) : ℚ :=
  (held.map HotExitMeta.updatedAt).getD (persistedServerReceivedAt.getD legacyFallbackUpdatedAt)

def payloadFor (snapshot : EditorHotExitSnapshotV1) (serverReceivedAt : ℚ) : EditorHotExitStoredSnapshot where
  content := snapshot.content
  baseVersion := snapshot.baseVersion
  contentHash := snapshot.contentHash
  savedContentHash := snapshot.savedContentHash
  contentSizeBytes := Text.byteLength snapshot.content
  updatedAt := snapshot.updatedAt
  serverReceivedAt := some serverReceivedAt
  paneId := snapshot.paneId
  windowId := snapshot.windowId

end Snapshots

section Index

def metaOf (snapshot : EditorHotExitStoredSnapshot) : HotExitMeta :=
  ⟨snapshot.contentSizeBytes,snapshot.serverReceivedAt.getD snapshot.updatedAt⟩

def listFrom (vault : Vault) : List Text → List (Text × EditorHotExitStoredSnapshot) × Vault
  | [] => ([],vault)
  | ref :: refs =>
    if isSnapshotRef ref then
      let (snapshot,vault) := readStoredSnapshot vault ref
      let (items,vault) := listFrom vault refs
      ((snapshot.map fun snapshot => (ref,snapshot)).toList ++ items,vault)
    else listFrom vault refs

def listHotExitItems (vault : Vault) : List (Text × EditorHotExitStoredSnapshot) × Vault :=
  listFrom vault vault.keys

structure Store where
  vault : Vault
  metaIndex : Option MetaIndex

def getMetaIndex (store : Store) : Vault × MetaIndex :=
  match store.metaIndex with
  | some index => (store.vault,index)
  | none =>
    let (items,vault) := listHotExitItems store.vault
    (vault,items.foldl (fun index item => index.set item.1 (metaOf item.2)) OrderedMap.empty)

end Index

section Pruning

structure Pruned where
  vault : Vault
  index : MetaIndex
  retained : List (Text × HotExitMeta)

def Pruned.drop (pruned : Pruned) (ref : Text) : Pruned :=
  { pruned with vault := pruned.vault.delete ref, index := pruned.index.delete ref }

def pruneExpired (nowMs : ℚ) (incomingRef : Text) (pruned : Pruned) (item : Text × HotExitMeta) :
    Pruned :=
  if item.1 = incomingRef then pruned
  else if expired item.2.updatedAt nowMs then pruned.drop item.1
  else { pruned with retained := pruned.retained ++ [item] }

def pruneOldest (pruned : Pruned) (total : Nat) : List (Text × HotExitMeta) → Pruned
  | [] => pruned
  | item :: items =>
    if total ≤ maxTotalBytes then pruned
    else pruneOldest (pruned.drop item.1) (total - item.2.contentSizeBytes) items

def totalSize (items : List (Text × HotExitMeta)) : Nat :=
  (items.map fun item => item.2.contentSizeBytes).sum

def oldestFirst (items : List (Text × HotExitMeta)) : List (Text × HotExitMeta) :=
  items.mergeSort fun left right => decide (left.2.updatedAt ≤ right.2.updatedAt)

def prune (vault : Vault) (index : MetaIndex) (nowMs : ℚ) (incomingRef : Text) : Vault × MetaIndex :=
  let pruned := index.entries.foldl (pruneExpired nowMs incomingRef) ⟨vault,index,[]⟩
  let incomingSize := ((pruned.index.get? incomingRef).map HotExitMeta.contentSizeBytes).getD 0
  let total := incomingSize + totalSize pruned.retained
  if total ≤ maxTotalBytes then (pruned.vault,pruned.index)
  else
    let pruned := pruneOldest pruned total (oldestFirst pruned.retained)
    (pruned.vault,pruned.index)

end Pruning

section Operations

structure EditorHotExitWriteResult where
  snapshotRef : Text
  contentSizeBytes : Nat
  serverReceivedAt : ℚ
  deriving DecidableEq

def write (store : Store) (snapshot : EditorHotExitSnapshotV1) (ref : Text) (receivedAt : ℚ) :
    Store × EditorHotExitWriteResult :=
  let (vault,index) := getMetaIndex store
  let payload := payloadFor snapshot receivedAt
  let index := index.set ref ⟨payload.contentSizeBytes,receivedAt⟩
  let (vault,index) := prune vault index receivedAt ref
  let vault := if index.has ref then vault.set ref (.sealed (some payload)) else vault
  (⟨vault,some index⟩,⟨ref,payload.contentSizeBytes,receivedAt⟩)

def read (store : Store) (snapshotRef : Text) (nowMs : ℚ) : Store × Option EditorHotExitStoredSnapshot :=
  if isSnapshotRef snapshotRef then match readStoredSnapshot store.vault snapshotRef with
    | (none,vault) => (⟨vault,store.metaIndex.map (·.delete snapshotRef)⟩,none)
    | (some snapshot,vault) =>
      let ttlBasisUpdatedAt := ttlBasisFor (store.metaIndex.bind (·.get? snapshotRef))
        snapshot.serverReceivedAt snapshot.updatedAt
      if expired ttlBasisUpdatedAt nowMs then
        (⟨vault.delete snapshotRef,store.metaIndex.map (·.delete snapshotRef)⟩,none)
      else (⟨vault,store.metaIndex.map (·.set snapshotRef ⟨snapshot.contentSizeBytes,ttlBasisUpdatedAt⟩)⟩,some snapshot)
  else (store,none)

def delete (store : Store) (snapshotRef : Text) : Store :=
  if isSnapshotRef snapshotRef then ⟨store.vault.delete snapshotRef,store.metaIndex.map (·.delete snapshotRef)⟩
  else store

def restart (store : Store) : Store := ⟨store.vault,none⟩

inductive Event where
  | write (snapshot : EditorHotExitSnapshotV1) (ref : Text) (receivedAt : ℚ)
  | read (ref : Text) (nowMs : ℚ)
  | delete (ref : Text)
  | restart

inductive Answer where
  | written (result : EditorHotExitWriteResult)
  | found (snapshot : Option EditorHotExitStoredSnapshot)
  deriving DecidableEq

def hotExitStore (vault : Vault) : Machine Store Event Answer where
  start := ⟨vault,none⟩
  step := fun store event => match event with
    | .write snapshot ref receivedAt => (write store snapshot ref receivedAt).1
    | .read ref nowMs => (read store ref nowMs).1
    | .delete ref => delete store ref
    | .restart => restart store
  notes := fun store event => match event with
    | .write snapshot ref receivedAt => [.written (write store snapshot ref receivedAt).2]
    | .read ref nowMs => [.found (read store ref nowMs).2]
    | .delete _ => []
    | .restart => []

end Operations

end Keiko.HotExitStore
