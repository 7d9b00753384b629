import Mathlib.Logic.Function.Basic
import Mathlib.Data.List.Induction
import Mathlib.Data.List.Nodup

/-! Stores as functions from keys to values that are changed one key at a time. A list of
writes leaves at a key what was written there last, and a run whose steps read and write
one key each falls apart into the runs of the keys. -/
namespace Keiko.Library.Store
open List Option

universe u v w
variable {κ : Type u} {α : Type v} {σ : Type w} [DecidableEq κ] {key : σ → κ} {k : κ}

section Write

variable {value : σ → α} {store : κ → α} {writes : List σ}

def writeAll (key : σ → κ) (value : σ → α) (store : κ → α) (writes : List σ) : κ → α :=
  writes.foldl (fun store write => Function.update store (key write) (value write)) store

theorem writeAll_append (a b : List σ) : writeAll key value store (a ++ b) =
      writeAll key value (writeAll key value store a) b := by
  simp [writeAll]

theorem writeAll_snoc (write : σ) : writeAll key value store (writes ++ [write]) =
      Function.update (writeAll key value store writes) (key write) (value write) := by
  rw [writeAll_append]
  rfl

theorem writeAll_apply : writeAll key value store writes k =
    ((writes.filter fun write => key write = k).getLast?.map value).getD (store k) := by
  induction writes using reverseRecOn with
  | nil => rfl
  | append_singleton writes write ih =>
    rw [writeAll_snoc,filter_append]
    by_cases same : key write = k
    · subst same
      simp
    · rw [Function.update_of_ne (Ne.symm same),ih]
      simp [same]

theorem writeAll_of_not_mem (untouched : ∀ write ∈ writes, key write ≠ k) :
    writeAll key value store writes k = store k := by
  have none_left : (writes.filter fun write => key write = k) = [] := by
    simpa [filter_eq_nil_iff] using untouched
  rw [writeAll_apply,none_left]
  rfl

theorem writeAll_of_agree {write : σ} (mem : write ∈ writes)
    (agree : ∀ other ∈ writes, key other = key write → value other = value write) :
    writeAll key value store writes (key write) = value write := by
  have some_left : (writes.filter fun other => key other = key write) ≠ [] :=
    ne_nil_of_mem (mem_filter.mpr ⟨mem,by simp⟩)
  have inside := getLast_mem some_left
  obtain ⟨written,same⟩ := mem_filter.mp inside
  rw [writeAll_apply,getLast?_eq_some_getLast some_left]
  exact agree _ written (by simpa using same)

theorem writeAll_eq_some_iff {content : σ → α} (nodup : (writes.map key).Nodup) {v : α} :
    writeAll key (fun write => some (content write)) (fun _ => none) writes k = some v ↔
      ∃ write ∈ writes, key write = k ∧ content write = v := by
  constructor
  · intro read
    by_cases touched : ∃ write ∈ writes, key write = k
    · obtain ⟨write,mem,rfl⟩ := touched
      rw [writeAll_of_agree mem] at read
      · cases read
        exact ⟨write,mem,rfl,rfl⟩
      · intro other inside same
        rw [inj_on_of_nodup_map nodup inside mem same]
    · push Not at touched
      rw [writeAll_of_not_mem touched] at read
      cases read
  · intro ⟨write,mem,same,written⟩
    subst same written
    rw [writeAll_of_agree mem]
    intro other inside same
    rw [inj_on_of_nodup_map nodup inside mem same]

theorem writeAll_or {content : σ → α} {store : κ → Option α} :
    writeAll key (fun write => some (content write)) store writes k =
      (writeAll key (fun write => some (content write)) (fun _ => none) writes k).or (store k) := by
  rw [writeAll_apply,writeAll_apply]
  cases (writes.filter fun write => key write = k).getLast? with
  | none => rfl
  | some write => rfl

theorem writeAll_restore {pre : σ → α} (held : ∀ write ∈ writes, pre write = store (key write)) :
    writeAll key pre (writeAll key value store writes) writes = store := by
  funext k
  by_cases touched : ∃ write ∈ writes, key write = k
  · obtain ⟨write,mem,rfl⟩ := touched
    rw [writeAll_of_agree mem,held write mem]
    intro other inside same
    rw [held other inside,held write mem,same]
  · push Not at touched
    rw [writeAll_of_not_mem touched,writeAll_of_not_mem touched]

end Write

section Run

variable {step : σ → α → Option α} {store store' : κ → α} {steps : List σ}

def runStep (key : σ → κ) (step : σ → α → Option α) (store : κ → α) (s : σ) : Option (κ → α) :=
  (step s (store (key s))).map (Function.update store (key s))

def runAll (key : σ → κ) (step : σ → α → Option α) (store : κ → α) (steps : List σ) :
    Option (κ → α) := steps.foldlM (runStep key step) store

def runAt (key : σ → κ) (step : σ → α → Option α) (k : κ) (value : α) (steps : List σ) :
    Option α := (steps.filter fun s => key s = k).foldlM (fun value s => step s value) value

theorem runAll_eq_some : runAll key step store steps = some store' ↔
      ∀ k, runAt key step k (store k) steps = some (store' k) := by
  induction steps generalizing store with
  | nil =>
    change some store = some store' ↔ ∀ k, some (store k) = some (store' k)
    simp [funext_iff]
  | cons s steps ih =>
    have run : runAll key step store (s :: steps) =
        (runStep key step store s).bind fun next => runAll key step next steps :=
      foldlM_cons ..
    have at_key : ∀ value, runAt key step (key s) value (s :: steps) =
        (step s value).bind fun next => runAt key step (key s) next steps := by
      intro value
      simp [runAt]
    have at_other : ∀ k value, key s ≠ k → runAt key step k value (s :: steps) = runAt key step k value steps := by
      intro k value other
      simp [runAt,other]
    rw [run,runStep]
    cases stepped : step s (store (key s)) with
    | none =>
      constructor
      · intro none_run
        simp at none_run
      · intro all
        have refused := all (key s)
        rw [at_key,stepped] at refused
        simp at refused
    | some value =>
      rw [map_some,bind_some,ih]
      apply forall_congr'
      intro k
      by_cases same : key s = k
      · subst same
        rw [Function.update_self,at_key,stepped,bind_some]
      · rw [Function.update_of_ne (Ne.symm same),at_other k _ same]

end Run

end Keiko.Library.Store
