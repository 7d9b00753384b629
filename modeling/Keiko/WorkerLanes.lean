import Keiko.Library.Number
import Keiko.Library.Trace

/-! The worker pool of the server's source reads. Its lanes share one cursor over the items, one
failure and one list of results. Between two events a lane waits for its worker or for the turn of
the reaction to a promise; workers and turns come in any order. -/
namespace Keiko.WorkerLanes
open Keiko.Library

section Machine

variable {α ε ρ : Type*}

inductive Lane (ε ρ : Type*) where
  | starting
  | running (index : ℕ)
  | returned (index : ℕ) (result : ρ)
  | ranOut
  | threw (error : ε)
  | resolved (failure : Option ε)
  | fulfilled
  | rejected (error : ε)
  deriving DecidableEq

structure Pool (ε ρ : Type*) where
  lanes : List (Lane ε ρ)
  results : List (Option ρ)
  next : ℕ
  failure : Option ε
  signal : Option ε
  outcome : Option (Except ε (List (Option ρ)))

inductive Event (ε ρ : Type*) where
  | turn (number : ℕ)
  | settle (number : ℕ) (answer : Except ε ρ)
  | abort (reason : ε)

inductive Note (α ε ρ : Type*) where
  | given (index : ℕ) (item : α)
  | ranOut (number : ℕ)
  | answered (index : ℕ) (result : ρ)
  | failed (index : ℕ) (error : ε)
  | stopped (reason : ε)
  | aborted (reason : ε)

def Pool.put (number : ℕ) (lane : Lane ε ρ) (pool : Pool ε ρ) : Pool ε ρ :=
  { pool with lanes := pool.lanes.set number lane }

def Pool.store (index : ℕ) (result : ρ) (pool : Pool ε ρ) : Pool ε ρ :=
  { pool with results := pool.results.set index (some result) }

def Pool.abort (reason : ε) (pool : Pool ε ρ) : Pool ε ρ :=
  { pool with signal := pool.signal.or (some reason) }

def stopLane (error : ε) (pool : Pool ε ρ) : Pool ε ρ :=
  let failure := pool.failure.getD error
  { pool with failure := some failure }.abort failure

/-- `executeLaneItem` up to the worker's promise. -/
def executeLaneItem (items : List α) (number : ℕ) : Effect (Pool ε ρ) (Note α ε ρ) := fun pool =>
  match pool.signal with
  | some reason => ((stopLane reason pool).put number (.threw reason),[.stopped reason])
  | none =>
    let index := pool.next
    let pool := { pool with next := index + 1 }
    match items[index]? with
    | none => (pool.put number .ranOut,[.ranOut number])
    | some item => (pool.put number (.running index),[.given index item])

def advance (items : List α) (number : ℕ) : Effect (Pool ε ρ) (Note α ε ρ) := fun pool =>
  if pool.failure.isSome then (pool.put number (.resolved none),[])
  else executeLaneItem items number pool

/-- The worker's promise settles. -/
def settle (number : ℕ) (answer : Except ε ρ) : Effect (Pool ε ρ) (Note α ε ρ) := fun pool =>
  match pool.lanes[number]? with
  | some (.running index) =>
    match answer with
    | .ok result => (pool.put number (.returned index result),[.answered index result])
    | .error error => ((stopLane error pool).put number (.threw error),[.failed index error])
  | _ => (pool,[])

def Lane.isFulfilled : Lane ε ρ → Bool
  | .fulfilled => true
  | _ => false

variable (abortError : ε)

/-- `Promise.all` settles with the first lane that rejects or the last that fulfils, and the owned
signal is aborted behind it. -/
def Pool.close (outcome : Except ε (List (Option ρ))) (pool : Pool ε ρ) : Pool ε ρ :=
  { pool with outcome := pool.outcome.or (some outcome) }.abort abortError

def fulfil (number : ℕ) (pool : Pool ε ρ) : Pool ε ρ :=
  let pool := pool.put number .fulfilled
  if pool.lanes.all Lane.isFulfilled then pool.close abortError (.ok pool.results) else pool

def reject (number : ℕ) (error : ε) (pool : Pool ε ρ) : Pool ε ρ :=
  (pool.put number (.rejected error)).close abortError (.error error)

def turn (items : List α) (number : ℕ) : Effect (Pool ε ρ) (Note α ε ρ) :=
  fun pool =>
    match pool.lanes[number]? with
    | some .starting => advance items number pool
    | some (.returned index result) => advance items number (pool.store index result)
    | some .ranOut => (pool.put number (.resolved none),[])
    | some (.threw error) =>
      let pool := stopLane error pool
      (pool.put number (.resolved pool.failure),[])
    | some (.resolved none) => (fulfil abortError number pool,[])
    | some (.resolved (some error)) => (reject abortError number error pool,[])
    | _ => (pool,[])

def effect (items : List α) : Event ε ρ → Effect (Pool ε ρ) (Note α ε ρ)
  | .turn number => turn abortError items number
  | .settle number answer => settle number answer
  | .abort reason => fun pool => (pool.abort reason,[.aborted reason])

def safeLimit (limit : Number) : Number :=
  if limit.isInteger && decide (Number.LessEq 1 limit) then limit else 1

def cap (limit : Number) (count : ℕ) : ℕ :=
  if count = 0 then 0
  else (Number.max 1 (Number.min (safeLimit limit) (.ofNat count))).toLength

/-- A call that is over at once where there are no items. -/
def mapWithConcurrency (items : List α) (limit : Number) :
    Machine (Pool ε ρ) (Event ε ρ) (Note α ε ρ) where
  start := ⟨List.replicate (cap limit items.length) .starting,List.replicate items.length none,0,none,
    none,if items.length = 0 then some (.ok []) else none⟩
  step pool event := (effect abortError items event pool).1
  notes pool event := (effect abortError items event pool).2

def Lane.index? : Lane ε ρ → Option ℕ
  | .running index => some index
  | _ => none

def Pool.inFlight (pool : Pool ε ρ) : List ℕ := pool.lanes.filterMap Lane.index?

end Machine

section Cap

variable {limit : Number} {count m : ℕ}

theorem safeLimit_natCast (positive : 1 ≤ m) : safeLimit (.ofNat m) = .ofNat m := by
  have enough : Number.LessEq 1 (.ofNat m) := by
    change (1 : ℚ) ≤ (m : ℚ)
    exact_mod_cast positive
  rw [safeLimit,decide_eq_true enough]
  simp [Number.ofNat,Number.isInteger]

theorem safeLimit_of_invalid (invalid : ∀ m : ℕ, 1 ≤ m → limit ≠ .ofNat m) : safeLimit limit = 1 := by
  rw [safeLimit,if_neg]
  intro valid
  rw [Bool.and_eq_true,decide_eq_true_eq] at valid
  obtain ⟨whole,positive⟩ := valid
  cases limit with
  | finite v =>
    rw [Number.isInteger,decide_eq_true_eq] at whole
    have integral : (v.num : ℚ) = v := Rat.coe_int_num_of_den_eq_one whole
    have bound : (1 : ℤ) ≤ v.num := by
      change (1 : ℚ) ≤ v at positive
      rw [← integral] at positive
      exact_mod_cast positive
    apply invalid v.num.toNat
    · omega
    · have same : ((v.num.toNat : ℤ) : ℚ) = v := by
        rw [Int.toNat_of_nonneg (by omega)]
        exact integral
      exact congrArg Number.finite same.symm
  | infinity => cases whole
  | negInfinity => cases whole
  | nan => cases whole

theorem cap_eq (positive : 1 ≤ m) (safe : safeLimit limit = .ofNat m)
    (some_items : count ≠ 0) : cap limit count = min (min m count) (2 ^ 53 - 1) := by
  have least : Number.min (.ofNat m) (.ofNat count) = .ofNat (min m count) := by
    change Number.finite _ = Number.finite _
    rw [Nat.cast_min,min_def]
  have most : Number.max 1 (.ofNat (min m count)) = .ofNat (min m count) := by
    change Number.finite _ = Number.finite _
    rw [if_pos]
    have one : 1 ≤ min m count := le_min positive (Nat.one_le_iff_ne_zero.mpr some_items)
    exact_mod_cast one
  rw [cap,if_neg some_items,safe,least,most,Number.ofNat,Number.toLength,Int.floor_natCast,Int.toNat_natCast]

theorem cap_le (count : ℕ) (positive : 1 ≤ m)
    (safe : safeLimit limit = .ofNat m) : cap limit count ≤ min m count := by
  by_cases some_items : count = 0
  · rw [cap,if_pos some_items]
    exact Nat.zero_le _
  · rw [cap_eq positive safe some_items]
    exact min_le_left _ _

theorem cap_pos (limit : Number) (some_items : count ≠ 0) : 0 < cap limit count := by
  have safe : ∃ m : ℕ, 1 ≤ m ∧ safeLimit limit = .ofNat m := by
    by_cases valid : ∃ m : ℕ, 1 ≤ m ∧ limit = .ofNat m
    · obtain ⟨m,positive,rfl⟩ := valid
      exact ⟨m,positive,safeLimit_natCast positive⟩
    · refine ⟨1,le_rfl,?_⟩
      rw [safeLimit_of_invalid]
      · exact congrArg Number.finite (by norm_num)
      · intro m positive same
        exact valid ⟨m,positive,same⟩
  obtain ⟨m,positive,safe⟩ := safe
  rw [cap_eq positive safe some_items]
  have one : 1 ≤ count := Nat.one_le_iff_ne_zero.mpr some_items
  omega

end Cap

end Keiko.WorkerLanes
