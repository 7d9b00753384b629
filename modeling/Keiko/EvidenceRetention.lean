import Keiko.Library.Comparator
import Keiko.Library.Distinct
import Keiko.Library.JsonRoundTrip

/-! Retention of evidence manifests. Four criteria walk the readable runs from the newest on, each by
itself, and what any of them rejects is deleted. -/
namespace Keiko.EvidenceRetention
open Keiko.Library Comparator

inductive EvidenceRetentionPartition where
  | chatRag
  | regulated
  deriving DecidableEq

def retentionPartitions : List EvidenceRetentionPartition := [.chatRag,.regulated]

def retentionPartitionByTaskType : List (Text × EvidenceRetentionPartition) :=
  [("generate-unit-tests".toList,.regulated),("investigate-bug".toList,.regulated),
    ("explain-plan".toList,.regulated),("verify".toList,.regulated),
    ("editor-agent-turn".toList,.regulated),("browser-capture".toList,.regulated),
    ("terminal-execution".toList,.regulated),("command-run".toList,.regulated),
    ("container-run".toList,.regulated),("connected-context".toList,.chatRag),
    ("editor-verification-run".toList,.regulated)]

structure RetentionPolicy where
  maxRuns : Option Number
  maxRunsByPartition : EvidenceRetentionPartition → Option Number
  maxAgeMs : Option Number
  maxTotalBytes : Option Number
  disabled : Bool

structure EvidenceStore where
  list : List Text
  get : Text → Option Text
  distinct : list.Nodup

def EvidenceStore.delete (store : EvidenceStore) (runId : Text) : EvidenceStore where
  list := store.list.filter (· ≠ runId)
  get other := if other = runId then none else store.get other
  distinct := store.distinct.filter _

structure Header where
  finishedAt : ℚ
  bytes : ℕ
  partition : EvidenceRetentionPartition

structure Candidate extends Header where
  runId : Text

def retentionPartition (taskType : Option Json) : Option EvidenceRetentionPartition := do
  let name ← Json.text? taskType
  let entry ← retentionPartitionByTaskType.find? (·.1 = name)
  some entry.2

def readHeader (json : Text) : Option Header :=
  match Json.parse json with
  | some (.object parsed) =>
    match Json.field parsed "run".toList with
    | some (.object run) =>
      match Json.field run "finishedAt".toList,retentionPartition (Json.field run "taskType".toList) with
      | some (.number (.finite finishedAt)),some partition =>
        some ⟨finishedAt,Text.byteLength json,partition⟩
      | _,_ => none
    | _ => none
  | _ => none

def candidate (store : EvidenceStore) (runId : Text) : Option Candidate := do
  let json ← store.get runId
  let header ← readHeader json
  some { header with runId }

section Criteria

variable (localeCompare : Text → Text → ℤ)

def newestFirst : Candidate → Candidate → ℤ :=
  Comparator.andThen (fun a b => Comparator.ordered b.finishedAt a.finishedAt)
    (Comparator.mapped (·.runId) localeCompare)

def collectCandidates (store : EvidenceStore) : List Candidate :=
  Comparator.sort (newestFirst localeCompare) (store.list.filterMap (candidate store))

variable (sorted : List Candidate)

def beyondMaxRuns (maxRuns : Number) : List Text :=
  (sorted.drop (Number.sliceIndex sorted.length (Number.max maxRuns 0))).map (·.runId)

def beyondPartitionMaxRuns (policy : RetentionPolicy) : List Text :=
  retentionPartitions.flatMap fun partition =>
    match policy.maxRunsByPartition partition with
    | none => []
    | some maxRuns => beyondMaxRuns (sorted.filter (·.partition = partition)) maxRuns

def cutoff (newest : ℚ) (maxAgeMs : Number) : Number := (Number.finite newest).add maxAgeMs.neg

def olderThanAge (maxAgeMs : Number) : List Text :=
  match sorted with
  | [] => []
  | newest :: _ => (sorted.filter fun run =>
      (Number.finite run.finishedAt).Less (cutoff newest.finishedAt maxAgeMs)).map (·.runId)

def overFrom (maxTotalBytes : Number) (running : ℕ) : List Candidate → List Text
  | [] => []
  | run :: runs =>
    if maxTotalBytes.Less (Number.ofNat (running + run.bytes)) then
      run.runId :: overFrom maxTotalBytes (running + run.bytes) runs
    else overFrom maxTotalBytes (running + run.bytes) runs

def overByteCap (maxTotalBytes : Number) : List Text :=
  match sorted with
  | [] => []
  | newest :: runs => overFrom maxTotalBytes newest.bytes runs

def computeDeleteSet (policy : RetentionPolicy) : List Text :=
  Distinct.collect (fun _ => true) []
    (policy.maxRuns.elim [] (beyondMaxRuns sorted) ++ beyondPartitionMaxRuns sorted policy ++
      policy.maxAgeMs.elim [] (olderThanAge sorted) ++ policy.maxTotalBytes.elim [] (overByteCap sorted))

def applyRetention (store : EvidenceStore)
    (policy : RetentionPolicy) : EvidenceStore × ℕ :=
  if policy.disabled then (store,0)
  else
    let deleteSet := computeDeleteSet (collectCandidates localeCompare store) policy
    (deleteSet.foldl EvidenceStore.delete store,deleteSet.length)

end Criteria

section Limits

variable {limit : Number} {m n : ℕ}

theorem atMost_mono (le : m ≤ n) (within : (Number.ofNat n).LessEq limit) : (Number.ofNat m).LessEq limit := by
  cases limit with
  | finite v => exact (Nat.cast_le.mpr le).trans (show (n : ℚ) ≤ v from within)
  | infinity => trivial
  | negInfinity => cases within
  | nan => cases within

theorem exceeds_mono (le : m ≤ n) (excess : limit.Less (Number.ofNat m)) : limit.Less (Number.ofNat n) := by
  cases limit with
  | finite v => exact (show v < (m : ℚ) from excess).trans_le (Nat.cast_le.mpr le)
  | infinity => cases excess
  | negInfinity => trivial
  | nan => cases excess

end Limits

section Doomed

variable {policy : RetentionPolicy} {front back sorted : List Candidate} {run : Candidate}

def Doomed (policy : RetentionPolicy) (newest : ℚ) (front : List Candidate) (run : Candidate) : Prop :=
  (∃ limit, policy.maxRuns = some limit ∧ ¬ (Number.ofNat (front.length + 1)).LessEq limit) ∨
  (∃ limit, policy.maxRunsByPartition run.partition = some limit ∧
    ¬ (Number.ofNat ((front.filter (·.partition = run.partition)).length + 1)).LessEq limit) ∨
  (∃ limit, policy.maxAgeMs = some limit ∧ (Number.finite run.finishedAt).Less (cutoff newest limit)) ∨
  ∃ limit, policy.maxTotalBytes = some limit ∧ front ≠ [] ∧
    limit.Less (Number.ofNat ((front.map (·.bytes)).sum + run.bytes))

/-- Limits on the number of runs are at least one, and the limit on their age is not negative. -/
structure Sound (policy : RetentionPolicy) : Prop where
  runs : ∀ limit, policy.maxRuns = some limit → Number.LessEq 1 limit
  partitions : ∀ partition limit, policy.maxRunsByPartition partition = some limit → Number.LessEq 1 limit
  age : ∀ limit, policy.maxAgeMs = some limit → ¬ limit.Less 0

theorem Doomed.later {newest : ℚ} {other : Candidate} {between : List Candidate}
    (doomed : Doomed policy newest front run) (same : run.partition = other.partition)
    (older : other.finishedAt ≤ run.finishedAt) :
    Doomed policy newest (front ++ run :: between) other := by
  rcases doomed with ⟨limit,set,excess⟩ | ⟨limit,set,excess⟩ | ⟨limit,set,pre⟩ | ⟨limit,set,_,excess⟩
  · refine .inl ⟨limit,set,fun within => excess (atMost_mono ?_ within)⟩
    rw [List.length_append,List.length_cons]
    omega
  · rw [same] at set excess
    refine .inr (.inl ⟨limit,set,fun within => excess (atMost_mono ?_ within)⟩)
    rw [List.filter_append,List.length_append]
    omega
  · refine .inr (.inr (.inl ⟨limit,set,?_⟩))
    cases final : cutoff newest limit with
    | finite v =>
      rw [final] at pre
      exact older.trans_lt (show run.finishedAt < v from pre)
    | infinity => trivial
    | negInfinity =>
      rw [final] at pre
      cases pre
    | nan =>
      rw [final] at pre
      cases pre
  · refine .inr (.inr (.inr ⟨limit,set,by simp,exceeds_mono ?_ excess⟩))
    rw [List.map_append,List.sum_append,List.map_cons,List.sum_cons]
    omega

end Doomed

section Membership

variable {policy : RetentionPolicy} {front back sorted : List Candidate} {run : Candidate} {limit : Number}
  {runId : Text}

end Membership

section Survivors

variable {policy : RetentionPolicy} {sorted others : List Candidate} {newest : Candidate}

structure Within (policy : RetentionPolicy) (newest : ℚ) (runs : List Candidate) : Prop where
  total : ∀ limit, policy.maxRuns = some limit → (Number.ofNat runs.length).LessEq limit
  partitions : ∀ partition limit, policy.maxRunsByPartition partition = some limit →
    (Number.ofNat (runs.filter (·.partition = partition)).length).LessEq limit
  age : ∀ limit, policy.maxAgeMs = some limit → ∀ run ∈ runs,
    ¬ (Number.finite run.finishedAt).Less (cutoff newest limit)
  bytes : ∀ limit, policy.maxTotalBytes = some limit → 1 < runs.length →
    ¬ limit.Less (Number.ofNat (runs.map (·.bytes)).sum)

theorem Within.perm {time : ℚ} (within : Within policy time sorted) (same : sorted.Perm others) :
    Within policy time others where
  total limit set := same.length_eq ▸ within.total limit set
  partitions partition limit set := (same.filter _).length_eq ▸ within.partitions partition limit set
  age limit set run mem := within.age limit set run (same.mem_iff.mpr mem)
  bytes limit set several := by
    rw [← (same.map _).sum_eq]
    exact within.bytes limit set (same.length_eq ▸ several)

end Survivors

section Applying

variable {localeCompare : Text → Text → ℤ} {store : EvidenceStore} {policy : RetentionPolicy}

/-- The promises of one pass: only readable runs go, the newest readable one stays, the runs that
are left keep to every bound, no run goes before an older one of its partition, and a second pass
has nothing to do. -/
structure Retained (localeCompare : Text → Text → ℤ) (store : EvidenceStore) (policy : RetentionPolicy)
    (after : EvidenceStore) : Prop where
  rest : ∀ runId ∈ after.list, runId ∈ store.list ∧ after.get runId = store.get runId
  readable : ∀ runId ∈ store.list, runId ∉ after.list → ∃ json, store.get runId = some json ∧ (readHeader json).isSome
  newest : ∀ newest, (collectCandidates localeCompare store).head? = some newest → newest.runId ∈ after.list ∧
      (∀ run ∈ collectCandidates localeCompare store, run.finishedAt ≤ newest.finishedAt) ∧
      Within policy newest.finishedAt (collectCandidates localeCompare after)
  older : ∀ a ∈ collectCandidates localeCompare store, ∀ b ∈ collectCandidates localeCompare store,
    a.partition = b.partition → b.finishedAt < a.finishedAt → a.runId ∉ after.list → b.runId ∉ after.list
  stable : applyRetention localeCompare after policy = (after,0)

end Applying

end Keiko.EvidenceRetention
