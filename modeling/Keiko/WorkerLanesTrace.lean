import Keiko.Library.Distinct
import Keiko.WorkerLanes
import Mathlib.Data.List.Perm.Basic

/-! What holds in every run of the worker pool: which items its lanes take and when they stop to take
them, what the results are when the call resolves, and with what it rejects. -/
namespace Keiko.WorkerLanes
open Keiko.Library List Bool

section Moves

variable {α ε ρ : Type*} {abortError : ε} {items : List α} {n : ℕ} {pool between : Pool ε ρ}
  {old new : Lane ε ρ} {log more : List (Note α ε ρ)}

def Lane.isIdle : Lane ε ρ → Bool
  | .starting => true
  | .returned _ _ => true
  | _ => false

def Lane.isRunning : Lane ε ρ → Bool
  | .running _ => true
  | _ => false

def Lane.isEnded : Lane ε ρ → Bool
  | .fulfilled => true
  | .rejected _ => true
  | _ => false

def Lane.hand : Lane ε ρ → Pool ε ρ → Pool ε ρ
  | .returned index result, pool => pool.store index result
  | _, pool => pool

def Pool.pass (pool : Pool ε ρ) : Pool ε ρ := { pool with next := pool.next + 1 }

inductive Move (abortError : ε) (items : List α) (n : ℕ) (pool : Pool ε ρ) :
    Lane ε ρ → Lane ε ρ → Pool ε ρ → List (Note α ε ρ) → Prop where
  | refuse {old : Lane ε ρ} (idle : old.isIdle = true) (failed : pool.failure.isSome = true) :
    Move abortError items n pool old (.resolved none) (old.hand pool) []
  | stop {old : Lane ε ρ} {reason : ε} (idle : old.isIdle = true) (intact : pool.failure = none)
    (signal : pool.signal = some reason) :
    Move abortError items n pool old (.threw reason) (stopLane reason (old.hand pool)) [.stopped reason]
  | exhaust {old : Lane ε ρ} (idle : old.isIdle = true) (intact : pool.failure = none)
    (signal : pool.signal = none) (past : items[pool.next]? = none) :
    Move abortError items n pool old .ranOut (old.hand pool).pass [.ranOut n]
  | give {old : Lane ε ρ} {item : α} (idle : old.isIdle = true) (intact : pool.failure = none)
    (signal : pool.signal = none) (present : items[pool.next]? = some item) :
    Move abortError items n pool old (.running pool.next) (old.hand pool).pass [.given pool.next item]
  | answer (index : ℕ) (result : ρ) :
    Move abortError items n pool (.running index) (.returned index result) pool [.answered index result]
  | fail (index : ℕ) (error : ε) :
    Move abortError items n pool (.running index) (.threw error) (stopLane error pool) [.failed index error]
  | leave : Move abortError items n pool .ranOut (.resolved none) pool []
  | resolve (error : ε) :
    Move abortError items n pool (.threw error) (.resolved (stopLane error pool).failure) (stopLane error pool) []
  | fulfil (early : (pool.lanes.set n .fulfilled).all Lane.isFulfilled = false) :
    Move abortError items n pool (.resolved none) .fulfilled pool []
  | fulfilLast (last : (pool.lanes.set n .fulfilled).all Lane.isFulfilled = true) :
    Move abortError items n pool (.resolved none) .fulfilled (pool.close abortError (.ok pool.results)) []
  | reject (error : ε) :
    Move abortError items n pool (.resolved (some error)) (.rejected error)
      (pool.close abortError (.error error)) []

variable (lane : Lane ε ρ)

@[simp] theorem hand_lanes (pool : Pool ε ρ) : (lane.hand pool).lanes = pool.lanes := by
  cases lane <;> rfl

@[simp] theorem hand_next (pool : Pool ε ρ) : (lane.hand pool).next = pool.next := by
  cases lane <;> rfl

@[simp] theorem hand_failure (pool : Pool ε ρ) : (lane.hand pool).failure = pool.failure := by
  cases lane <;> rfl

@[simp] theorem hand_signal (pool : Pool ε ρ) : (lane.hand pool).signal = pool.signal := by
  cases lane <;> rfl

@[simp] theorem hand_outcome (pool : Pool ε ρ) : (lane.hand pool).outcome = pool.outcome := by
  cases lane <;> rfl

theorem advance_move (idle : old.isIdle = true) : ∃ new between more,
    Move abortError items n pool old new between more ∧
      advance items n (old.hand pool) = (between.put n new,more) := by
  rw [advance,hand_failure]
  split
  next failed => exact ⟨_,_,_,.refuse idle failed,rfl⟩
  next intact =>
    rw [Option.not_isSome_iff_eq_none] at intact
    rw [executeLaneItem,hand_signal]
    split
    next reason signal => exact ⟨_,_,_,.stop idle intact signal,rfl⟩
    next signal =>
      dsimp only
      rw [hand_next]
      split
      next past => exact ⟨_,_,_,.exhaust idle intact signal past,by rw [Pool.pass,hand_next,hand_signal]⟩
      next item here => exact ⟨_,_,_,.give idle intact signal here,by rw [Pool.pass,hand_next,hand_signal]⟩

theorem turn_move (abortError : ε) (items : List α) (hit : pool.lanes[n]? = some old)
    (waits : old.isRunning = false) (unended : old.isEnded = false) : ∃ new between more,
      Move abortError items n pool old new between more ∧
        turn abortError items n pool = (between.put n new,more) := by
  rw [turn,hit]
  cases old with
  | starting => exact advance_move rfl
  | running i => cases waits
  | returned i res => exact advance_move rfl
  | ranOut => exact ⟨_,_,_,.leave,rfl⟩
  | threw error => exact ⟨_,_,_,.resolve error,rfl⟩
  | resolved failure =>
    cases failure with
    | none =>
      rw [fulfil]
      dsimp only
      split
      next last => exact ⟨_,_,_,.fulfilLast last,rfl⟩
      next early => exact ⟨_,_,_,.fulfil (eq_false_iff.mpr early),rfl⟩
    | some error => exact ⟨_,_,_,.reject error,rfl⟩
  | fulfilled => cases unended
  | rejected error => cases unended

theorem settle_move (abortError : ε) (items : List α) {i : ℕ}
    (hit : pool.lanes[n]? = some (.running i)) (ans : Except ε ρ) : ∃ new between more,
      Move abortError items n pool (.running i) new between more ∧
        settle n ans pool = (between.put n new,more) := by
  rw [settle,hit]
  cases ans with
  | ok res => exact ⟨_,_,_,.answer i res,rfl⟩
  | error error => exact ⟨_,_,_,.fail i error,rfl⟩

theorem effect_cases (abortError : ε) (items : List α) (ev : Event ε ρ) (pool : Pool ε ρ) :
    (∃ reason, ev = .abort reason) ∨ effect abortError items ev pool = (pool,[]) ∨
      ∃ n old new between more, pool.lanes[n]? = some old ∧
        Move abortError items n pool old new between more ∧
          effect abortError items ev pool = (between.put n new,more) := by
  cases ev with
  | abort reason => exact .inl ⟨reason,rfl⟩
  | turn n =>
    apply Or.inr
    rw [effect]
    cases hit : pool.lanes[n]? with
    | none =>
      apply Or.inl
      rw [turn,hit]
    | some old =>
      by_cases waits : old.isRunning = false ∧ old.isEnded = false
      · obtain ⟨new,between,more,move,same⟩ := turn_move abortError items hit waits.1 waits.2
        exact .inr ⟨n,old,new,between,more,hit,move,same⟩
      · apply Or.inl
        rw [turn,hit]
        cases old with
        | running i => rfl
        | fulfilled => rfl
        | rejected error => rfl
        | _ => exact absurd ⟨rfl,rfl⟩ waits
  | settle n ans =>
    apply Or.inr
    rw [effect]
    by_cases running : ∃ i, pool.lanes[n]? = some (.running i)
    · obtain ⟨i,hit⟩ := running
      obtain ⟨new,between,more,move,same⟩ := settle_move abortError items hit ans
      exact .inr ⟨n,_,new,between,more,hit,move,same⟩
    · apply Or.inl
      rw [settle]
      split
      next i hit => exact absurd ⟨i,hit⟩ running
      · rfl

theorem Move.lanes (move : Move abortError items n pool old new between more) : between.lanes = pool.lanes := by
  cases move with
  | refuse idle failed => exact hand_lanes old pool
  | stop idle intact signal => exact hand_lanes old pool
  | exhaust idle intact signal past => exact hand_lanes old pool
  | give idle intact signal here => exact hand_lanes old pool
  | _ => rfl

end Moves

section Given

variable {α ε ρ : Type*} {failure : ε} {items : List α} {n : ℕ} {pool between : Pool ε ρ}
  {old new : Lane ε ρ} {notes more : List (Note α ε ρ)}

def Note.given? : Note α ε ρ → Option ℕ
  | .given index _ => some index
  | _ => none

def Note.settled? : Note α ε ρ → Option ℕ
  | .answered index _ => some index
  | .failed index _ => some index
  | _ => none

def givenIndexes (notes : List (Note α ε ρ)) : List ℕ := notes.filterMap Note.given?

def settledIndexes (notes : List (Note α ε ρ)) : List ℕ := notes.filterMap Note.settled?

/-- The items are given in their order, and those that were given are settled or in flight. -/
structure Given (items : List α) (pool : Pool ε ρ) (notes : List (Note α ε ρ)) : Prop where
  named : ∀ index item, .given index item ∈ notes → items[index]? = some item
  given : givenIndexes notes = List.range (min pool.next items.length)
  flight : (settledIndexes notes ++ pool.inFlight).Perm (List.range (min pool.next items.length))

theorem inFlight_perm (hit : pool.lanes[n]? = some old) :
    pool.inFlight.Perm (old.index?.toList ++ (pool.lanes.eraseIdx n).filterMap Lane.index?) := by
  obtain ⟨bound,rfl⟩ := List.getElem?_eq_some_iff.mp hit
  have split := (getElem_cons_eraseIdx_perm bound).symm.filterMap Lane.index?
  rw [filterMap_cons] at split
  cases index : (pool.lanes[n]).index? with
  | none =>
    rw [index] at split
    exact split
  | some held =>
    rw [index] at split
    exact split

theorem inFlight_put_perm (hit : pool.lanes[n]? = some old) (new : Lane ε ρ) :
    (pool.put n new).inFlight.Perm (new.index?.toList ++ (pool.lanes.eraseIdx n).filterMap Lane.index?) := by
  have bound := (List.getElem?_eq_some_iff.mp hit).1
  have stands : (pool.put n new).lanes[n]? = some new := getElem?_set_self bound
  have split := inFlight_perm stands
  rw [Pool.put,eraseIdx_set_eq] at split
  exact split

theorem i?_of_isIdle (idle : old.isIdle = true) : old.index? = none := by
  cases old with
  | starting => rfl
  | returned i res => rfl
  | _ => cases idle

theorem Given.start (lanes : List (Lane ε ρ)) (idle : lanes = List.replicate lanes.length .starting)
    (same : pool.lanes = lanes) (a : pool.next = 0) :
    Given items pool ([] : List (Note α ε ρ)) := by
  have empty : pool.inFlight = [] := by
    rw [Pool.inFlight,same,idle,filterMap_replicate_of_none rfl]
  refine ⟨?_,?_,?_⟩
  · intro i item mem
    cases mem
  · rw [a,Nat.zero_min]
    rfl
  · rw [empty,a,Nat.zero_min]
    exact List.Perm.nil

theorem Given.carry (given : Given items pool notes) (hit : pool.lanes[n]? = some old)
    (lanes : between.lanes = pool.lanes)
    (next : min between.next items.length = min pool.next items.length)
    (quiet : givenIndexes more = [])
    (held : settledIndexes more ++ new.index?.toList = old.index?.toList) :
    Given items (between.put n new) (notes ++ more) := by
  refine ⟨?_,?_,?_⟩
  · intro i item mem
    rcases mem_append.mp mem with pre | now
    · exact given.named i item pre
    · have inside : i ∈ givenIndexes more := mem_filterMap.mpr ⟨_,now,rfl⟩
      rw [quiet] at inside
      cases inside
  · rw [givenIndexes,filterMap_append]
    change givenIndexes notes ++ givenIndexes more = range (min between.next _)
    rw [quiet,append_nil,given.given,next]
  · rw [← lanes] at hit
    have after := inFlight_put_perm hit new
    have pre := inFlight_perm hit
    rw [settledIndexes,filterMap_append,append_assoc]
    change (settledIndexes notes ++ (settledIndexes more ++ _)).Perm (range (min between.next _))
    rw [next]
    refine List.Perm.trans ?_ given.flight
    apply List.Perm.append_left
    have same : pool.inFlight = between.inFlight := by rw [Pool.inFlight,Pool.inFlight,lanes]
    rw [same]
    refine (after.append_left _).trans ?_
    rw [← append_assoc,held]
    exact pre.symm

theorem Given.give (given : Given items pool notes) (hit : pool.lanes[n]? = some old)
    (idle : old.isIdle = true) {item : α} (here : items[pool.next]? = some item) :
    Given items ((old.hand pool).pass.put n (.running pool.next)) (notes ++ [.given pool.next item]) := by
  have bound := (List.getElem?_eq_some_iff.mp here).1
  have pre : min pool.next items.length = pool.next := Nat.min_eq_left bound.le
  have after : min (old.hand pool).pass.next items.length = pool.next + 1 := by
    rw [Pool.pass,hand_next]
    exact Nat.min_eq_left bound
  have once := given.given
  have flight := given.flight
  rw [pre] at once flight
  refine ⟨?_,?_,?_⟩
  · intro i other mem
    rcases mem_append.mp mem with early | now
    · exact given.named i other early
    · cases mem_singleton.mp now
      exact here
  · rw [givenIndexes,filterMap_append]
    change givenIndexes notes ++ [pool.next] = range (min (old.hand pool).pass.next _)
    rw [once,after,range_succ]
  · have held := inFlight_perm hit
    have lanes : (old.hand pool).pass.lanes = pool.lanes := hand_lanes old pool
    rw [← lanes] at hit
    have moved := inFlight_put_perm hit (.running pool.next)
    rw [lanes] at moved
    rw [i?_of_isIdle idle] at held
    rw [settledIndexes,filterMap_append]
    change ((settledIndexes notes ++ []) ++ _).Perm (range (min (old.hand pool).pass.next _))
    rw [append_nil,after,range_succ]
    refine (moved.append_left _).trans ?_
    change (settledIndexes notes ++ (pool.next :: _)).Perm _
    refine perm_middle.trans ?_
    refine List.Perm.trans ?_ (perm_append_singleton _ _).symm
    exact ((held.symm.append_left _).trans flight).cons _

theorem Given.move (given : Given items pool notes) (hit : pool.lanes[n]? = some old)
    (move : Move failure items n pool old new between more) :
    Given items (between.put n new) (notes ++ more) := by
  have lanes := move.lanes
  cases move with
  | refuse idle failed =>
    apply given.carry hit lanes
    · rw [hand_next]
    · rfl
    · rw [i?_of_isIdle idle]
      rfl
  | stop idle intact signal =>
    apply given.carry hit lanes
    · change min (old.hand pool).next _ = _
      rw [hand_next]
    · rfl
    · rw [i?_of_isIdle idle]
      rfl
  | exhaust idle intact signal past =>
    apply given.carry hit lanes
    · rw [getElem?_eq_none_iff] at past
      rw [Pool.pass,hand_next]
      dsimp only
      omega
    · rfl
    · rw [i?_of_isIdle idle]
      rfl
  | give idle intact signal here => exact given.give hit idle here
  | answer i res => exact given.carry hit lanes rfl rfl rfl
  | fail i error => exact given.carry hit lanes rfl rfl rfl
  | leave => exact given.carry hit lanes rfl rfl rfl
  | resolve error => exact given.carry hit lanes rfl rfl rfl
  | fulfil early => exact given.carry hit lanes rfl rfl rfl
  | fulfilLast last => exact given.carry hit lanes rfl rfl rfl
  | reject error => exact given.carry hit lanes rfl rfl rfl

end Given

section Faults

variable {α ε ρ : Type*} {abortError : ε} {xs : List α} {n : ℕ} {pool between : Pool ε ρ}
  {old new lane : Lane ε ρ} {notes more : List (Note α ε ρ)}

def Note.error? : Note α ε ρ → Option ε
  | .failed _ error => some error
  | .stopped reason => some reason
  | _ => none

def Note.abort? : Note α ε ρ → Option ε
  | .aborted reason => some reason
  | _ => none

def errors (notes : List (Note α ε ρ)) : List ε := notes.filterMap Note.error?

def aborts (notes : List (Note α ε ρ)) : List ε := notes.filterMap Note.abort?

def Lane.isBroken : Lane ε ρ → Bool
  | .threw _ => true
  | .resolved (some _) => true
  | .rejected _ => true
  | _ => false

/-- The first failure is kept, and some lane carries it on to the call. -/
structure Faults (pool : Pool ε ρ) (notes : List (Note α ε ρ)) : Prop where
  failure : pool.failure = (errors notes).head?
  signal : pool.failure = none → pool.outcome = none → pool.signal = (aborts notes).head?
  stopped : pool.failure.isSome = true → pool.signal.isSome = true
  aborted : aborts notes ≠ [] → pool.signal.isSome = true
  broken : pool.failure.isSome = true → ∃ lane ∈ pool.lanes, lane.isBroken = true
  carried : ∀ error, .threw error ∈ pool.lanes → pool.failure.isSome = true

theorem mem_lanes_put (hit : pool.lanes[n]? = some old) (mem : lane ∈ pool.lanes)
    (other : lane ≠ old) : lane ∈ (pool.put n new).lanes := by
  obtain ⟨i,inside⟩ := mem_iff_getElem?.mp mem
  apply mem_iff_getElem?.mpr
  refine ⟨i,?_⟩
  change (pool.lanes.set n new)[i]? = _
  rw [getElem?_set_ne]
  · exact inside
  · intro same
    rw [← same,hit] at inside
    exact other (Option.some.inj inside).symm

theorem new_mem_lanes_put (hit : pool.lanes[n]? = some old) : new ∈ (pool.put n new).lanes :=
  List.mem_iff_getElem?.mpr ⟨n,List.getElem?_set_self (List.getElem?_eq_some_iff.mp hit).1⟩

theorem of_mem_lanes_put (mem : lane ∈ (pool.put n new).lanes) : lane ∈ pool.lanes ∨ lane = new :=
  mem_or_eq_of_mem_set mem

@[simp] theorem stopLane_lanes (error : ε) (pool : Pool ε ρ) : (stopLane error pool).lanes = pool.lanes := rfl

@[simp] theorem stopLane_failure (error : ε) (pool : Pool ε ρ) :
    (stopLane error pool).failure = some (pool.failure.getD error) := rfl

theorem stopLane_signal (error : ε) (pool : Pool ε ρ) : (stopLane error pool).signal.isSome = true := by
  change (pool.signal.or _).isSome = true
  cases pool.signal <;> rfl

theorem stopLane_eq (error : ε) (failed : pool.failure.isSome = true)
    (stopped : pool.signal.isSome = true) : stopLane error pool = pool := by
  obtain ⟨failure,hit⟩ := Option.isSome_iff_exists.mp failed
  obtain ⟨reason,signal⟩ := Option.isSome_iff_exists.mp stopped
  rw [stopLane,hit]
  dsimp only [Pool.abort,Option.getD_some]
  rw [signal,← hit,Option.some_or,← signal]

theorem close_outcome (abortError : ε) (out : Except ε (List (Option ρ))) (pool : Pool ε ρ) :
    (pool.close abortError out).outcome ≠ none := by
  change pool.outcome.or _ ≠ none
  cases pool.outcome <;> exact nofun

theorem close_signal (abortError : ε) (out : Except ε (List (Option ρ))) (pool : Pool ε ρ) :
    (pool.close abortError out).signal.isSome = true := by
  change (pool.signal.or _).isSome = true
  cases pool.signal <;> rfl

theorem Faults.start (a : pool.failure = none) (quiet : pool.signal = none)
    (idle : ∀ lane ∈ pool.lanes, lane = .starting) : Faults pool ([] : List (Note α ε ρ)) := by
  refine ⟨a,fun _ _ => quiet,?_,fun some_abort => absurd rfl some_abort,?_,?_⟩
  · intro failed
    rw [a] at failed
    cases failed
  · intro failed
    rw [a] at failed
    cases failed
  · intro error mem
    cases idle _ mem

theorem Faults.errors_nil (faults : Faults pool notes) (intact : pool.failure = none) : errors notes = [] := by
  rw [← head?_eq_none_iff,← faults.failure]
  exact intact

theorem Faults.aborts_nil (faults : Faults pool notes) (signal : pool.signal = none) : aborts notes = [] := by
  by_contra some_abort
  have stopped := faults.aborted some_abort
  rw [signal] at stopped
  cases stopped

theorem Faults.carry (faults : Faults pool notes) (hit : pool.lanes[n]? = some old)
    (lanes : between.lanes = pool.lanes) (failure : between.failure = pool.failure)
    (signal : between.outcome = none → between.signal = pool.signal ∧ pool.outcome = none)
    (stays : pool.signal.isSome = true → between.signal.isSome = true)
    (sound : errors more = []) (quiet : aborts more = [])
    (broken : old.isBroken = true → new.isBroken = true) (caught : ∀ error, new ≠ .threw error) :
    Faults (between.put n new) (notes ++ more) := by
  have every_error : errors (notes ++ more) = errors notes := by
    rw [errors,filterMap_append]
    change errors notes ++ errors more = _
    rw [sound,append_nil]
  have every_abort : aborts (notes ++ more) = aborts notes := by
    rw [aborts,filterMap_append]
    change aborts notes ++ aborts more = _
    rw [quiet,append_nil]
  have stands : between.lanes[n]? = some old := by
    rw [lanes]
    exact hit
  constructor
  · rw [every_error]
    exact failure.trans faults.failure
  · intro intact unsettled
    rw [every_abort]
    obtain ⟨same,open_before⟩ := signal unsettled
    exact same.trans (faults.signal (failure.symm.trans intact) open_before)
  · intro failed
    change between.failure.isSome = true at failed
    rw [failure] at failed
    exact stays (faults.stopped failed)
  · intro some_abort
    rw [every_abort] at some_abort
    exact stays (faults.aborted some_abort)
  · intro failed
    change between.failure.isSome = true at failed
    rw [failure] at failed
    obtain ⟨lane,mem,carries⟩ := faults.broken failed
    by_cases same : lane = old
    · rw [same] at carries
      exact ⟨new,new_mem_lanes_put stands,broken carries⟩
    · rw [← lanes] at mem
      exact ⟨lane,mem_lanes_put stands mem same,carries⟩
  · intro error mem
    change between.failure.isSome = true
    rw [failure]
    rcases of_mem_lanes_put mem with pre | now
    · rw [lanes] at pre
      exact faults.carried error pre
    · exact absurd now.symm (caught error)

theorem Faults.meet (faults : Faults pool notes) (hit : pool.lanes[n]? = some old)
    (lanes : between.lanes = pool.lanes) (failure : between.failure = pool.failure)
    {error : ε} (sound : errors more = [error]) :
    Faults ((stopLane error between).put n (.threw error)) (notes ++ more) := by
  have stands : (stopLane error between).lanes[n]? = some old := by
    rw [stopLane_lanes,lanes]
    exact hit
  constructor
  · rw [errors,filterMap_append]
    change some (between.failure.getD error) = (errors notes ++ errors more).head?
    rw [failure,faults.failure,sound,head?_append]
    cases (errors notes).head? <;> rfl
  · intro intact
    cases intact
  · intro _
    exact stopLane_signal error between
  · intro _
    exact stopLane_signal error between
  · intro _
    exact ⟨_,new_mem_lanes_put stands,rfl⟩
  · intro _ _
    rfl

theorem Faults.move (faults : Faults pool notes) (hit : pool.lanes[n]? = some old)
    (move : Move abortError xs n pool old new between more) :
    Faults (between.put n new) (notes ++ more) := by
  have lanes := move.lanes
  have unbroken (idle : old.isIdle = true) : old.isBroken = true → new.isBroken = true := by
    intro broken
    cases old with
    | starting => cases broken
    | returned i res => cases broken
    | _ => cases idle
  have same (unsettled : pool.outcome = none) : pool.signal = pool.signal ∧ pool.outcome = none :=
    ⟨rfl,unsettled⟩
  cases move with
  | refuse idle failed =>
    refine faults.carry hit lanes (hand_failure old pool) ?_ ?_ rfl rfl (unbroken idle) nofun
    · intro unsettled
      rw [hand_outcome] at unsettled
      exact ⟨hand_signal old pool,unsettled⟩
    · rw [hand_signal]
      exact id
  | stop idle intact signal => exact faults.meet hit (hand_lanes old pool) (hand_failure old pool) rfl
  | exhaust idle intact signal past =>
    refine faults.carry hit lanes (hand_failure old pool) ?_ ?_ rfl rfl (unbroken idle) nofun
    · intro unsettled
      exact ⟨hand_signal old pool,(hand_outcome old pool).symm.trans unsettled⟩
    · intro stopped
      rw [signal] at stopped
      cases stopped
  | give idle intact signal here =>
    refine faults.carry hit lanes (hand_failure old pool) ?_ ?_ rfl rfl (unbroken idle) nofun
    · intro unsettled
      exact ⟨hand_signal old pool,(hand_outcome old pool).symm.trans unsettled⟩
    · intro stopped
      rw [signal] at stopped
      cases stopped
  | answer i res => exact faults.carry hit lanes rfl same id rfl rfl nofun nofun
  | fail i error => exact faults.meet hit rfl rfl rfl
  | leave => exact faults.carry hit lanes rfl same id rfl rfl nofun nofun
  | resolve error =>
    have failed := faults.carried error (mem_of_getElem? hit)
    rw [stopLane_eq error failed (faults.stopped failed)]
    refine faults.carry hit rfl rfl same id rfl rfl ?_ nofun
    intro _
    obtain ⟨failure,kept⟩ := Option.isSome_iff_exists.mp failed
    rw [kept]
    rfl
  | fulfil early => exact faults.carry hit lanes rfl same id rfl rfl nofun nofun
  | fulfilLast last =>
    refine faults.carry hit lanes rfl ?_ ?_ rfl rfl nofun nofun
    · intro unsettled
      exact absurd unsettled (close_outcome _ _ pool)
    · intro _
      exact close_signal _ _ pool
  | reject error =>
    refine faults.carry hit lanes rfl ?_ ?_ rfl rfl (fun _ => rfl) nofun
    · intro unsettled
      exact absurd unsettled (close_outcome _ _ pool)
    · intro _
      exact close_signal _ _ pool

theorem Faults.abort (faults : Faults pool notes) (reason : ε) :
    Faults (pool.abort reason) (notes ++ [.aborted reason]) := by
  have every_error : errors (notes ++ [.aborted reason]) = errors notes := by
    rw [errors,filterMap_append]
    exact append_nil _
  have stopped : (pool.abort reason).signal.isSome = true := by
    change (pool.signal.or _).isSome = true
    cases pool.signal <;> rfl
  refine ⟨?_,?_,fun _ => stopped,fun _ => stopped,faults.broken,faults.carried⟩
  · rw [every_error]
    exact faults.failure
  · intro intact unsettled
    change pool.signal.or (some reason) = _
    rw [faults.signal intact unsettled,aborts,aborts,filterMap_append,head?_append]
    rfl

end Faults

section Answers

variable {α ε ρ : Type*} {failure : ε} {items : List α} {n : ℕ} {pool between : Pool ε ρ}
  {old new : Lane ε ρ} {notes more : List (Note α ε ρ)} {res : ρ} {i : ℕ}

structure Answers (items : List α) (pool : Pool ε ρ) (notes : List (Note α ε ρ)) : Prop where
  length : pool.results.length = items.length
  stored : ∀ (index : ℕ) result, pool.results[index]? = some (some result) → .answered index result ∈ notes
  brought : ∀ index result, .returned index result ∈ pool.lanes → .answered index result ∈ notes
  answered : ∀ index result, .answered index result ∈ notes →
    pool.results[index]? = some (some result) ∨ .returned index result ∈ pool.lanes

theorem Given.nodup_settled (given : Given items pool notes) : (settledIndexes notes).Nodup := by
  have nodup := given.flight.nodup_iff.mpr nodup_range
  exact nodup.sublist (sublist_append_left _ _)

theorem Given.answered_once (given : Given items pool notes) {a b : ρ}
    (one : .answered i a ∈ notes) (two : .answered i b ∈ notes) :
    a = b := by
  have same := Distinct.eq_of_nodup_filterMap given.nodup_settled one two rfl rfl
  cases same
  rfl

theorem Given.answered_lt (given : Given items pool notes)
    (mem : .answered i res ∈ notes) : i < items.length := by
  have inside : i ∈ settledIndexes notes := mem_filterMap.mpr ⟨_,mem,rfl⟩
  have bound := given.flight.mem_iff.mp (mem_append_left _ inside)
  rw [mem_range] at bound
  exact bound.trans_le (Nat.min_le_right _ _)

theorem Answers.store (answers : Answers items pool notes) (given : Given items pool notes) (mem : .answered i res ∈ notes) :
    Answers items (pool.store i res) notes := by
  refine ⟨?_,?_,answers.brought,?_⟩
  · rw [Pool.store,length_set]
    exact answers.length
  · intro other hit same
    rw [Pool.store,getElem?_set] at same
    split at same
    next here =>
      split at same
      · rw [← here,← Option.some.inj (Option.some.inj same)]
        exact mem
      · cases same
    next elsewhere => exact answers.stored other hit same
  · intro other hit noted
    by_cases here : i = other
    · subst here
      apply Or.inl
      rw [given.answered_once noted mem]
      apply getElem?_set_self
      rw [answers.length]
      exact given.answered_lt mem
    · rcases answers.answered other hit noted with present | carried
      · apply Or.inl
        rw [Pool.store,getElem?_set_ne here]
        exact present
      · exact .inr carried

theorem Answers.hand (answers : Answers items pool notes) (given : Given items pool notes)
    (hit : pool.lanes[n]? = some old) : Answers items (old.hand pool) notes := by
  cases old with
  | returned i res =>
    exact answers.store given (answers.brought i res (mem_of_getElem? hit))
  | _ => exact answers

theorem Answers.carry (answers : Answers items pool notes) (hit : pool.lanes[n]? = some old)
    (lanes : between.lanes = pool.lanes) (results : between.results = pool.results)
    (handed : ∀ i res, old = .returned i res → pool.results[i]? = some (some res))
    (brings : ∀ i res, .answered i res ∈ more ↔ new = .returned i res) :
    Answers items (between.put n new) (notes ++ more) := by
  have stands : between.lanes[n]? = some old := by
    rw [lanes]
    exact hit
  refine ⟨?_,?_,?_,?_⟩
  · exact (congrArg List.length results).trans answers.length
  · intro i res stored
    change between.results[i]? = _ at stored
    rw [results] at stored
    exact mem_append_left _ (answers.stored i res stored)
  · intro i res mem
    rcases of_mem_lanes_put mem with pre | now
    · rw [lanes] at pre
      exact mem_append_left _ (answers.brought i res pre)
    · exact mem_append_right _ ((brings i res).mpr now.symm)
  · intro i res noted
    change between.results[i]? = _ ∨ _
    rw [results]
    rcases mem_append.mp noted with pre | now
    · rcases answers.answered i res pre with here | carried
      · exact .inl here
      · by_cases same : .returned i res = old
        · exact .inl (handed i res same.symm)
        · rw [← lanes] at carried
          exact .inr (mem_lanes_put stands carried same)
    · rw [← (brings i res).mp now]
      exact .inr (new_mem_lanes_put stands)

theorem Answers.move (answers : Answers items pool notes) (given : Given items pool notes)
    (hit : pool.lanes[n]? = some old)
    (move : Move failure items n pool old new between more) :
    Answers items (between.put n new) (notes ++ more) := by
  have lanes := move.lanes
  have here : (old.hand pool).lanes[n]? = some old := by
    rw [hand_lanes]
    exact hit
  have handed (i : ℕ) (res : ρ) (same : old = .returned i res) :
      (old.hand pool).results[i]? = some (some res) := by
    subst same
    apply getElem?_set_self
    rw [answers.length]
    exact given.answered_lt (answers.brought i res (mem_of_getElem? hit))
  have after := answers.hand given hit
  cases move with
  | refuse idle failed => exact after.carry here rfl rfl handed (by simp)
  | stop idle intact signal => exact after.carry here rfl rfl handed (by simp)
  | exhaust idle intact signal past => exact after.carry here rfl rfl handed (by simp)
  | give idle intact signal present => exact after.carry here rfl rfl handed (by simp)
  | answer i res => exact answers.carry hit rfl rfl (by simp) (by simp [eq_comm])
  | fail i error => exact answers.carry hit rfl rfl (by simp) (by simp)
  | leave => exact answers.carry hit rfl rfl (by simp) (by simp)
  | resolve error => exact answers.carry hit rfl rfl (by simp) (by simp)
  | fulfil early => exact answers.carry hit rfl rfl (by simp) (by simp)
  | fulfilLast last => exact answers.carry hit rfl rfl (by simp) (by simp)
  | reject error => exact answers.carry hit rfl rfl (by simp) (by simp)

end Answers

section Ends

variable {α ε ρ : Type*} {abortError : ε} {items : List α} {n : ℕ} {pool between : Pool ε ρ}
  {old new : Lane ε ρ} {notes more : List (Note α ε ρ)} {width : ℕ}

def Lane.isSpent : Lane ε ρ → Bool
  | .ranOut => true
  | .resolved none => true
  | .fulfilled => true
  | _ => false

def Note.isRanOut : Note α ε ρ → Bool
  | .ranOut _ => true
  | _ => false

structure Ends (items : List α) (width : ℕ) (pool : Pool ε ρ) (notes : List (Note α ε ρ)) : Prop where
  width : pool.lanes.length = width
  spent : ∀ lane ∈ pool.lanes, lane.isSpent = true → items.length ≤ pool.next ∨ pool.failure.isSome = true
  counted : pool.failure = none → pool.lanes.countP Lane.isSpent = notes.countP Note.isRanOut
  resolved : ∀ error, .resolved (some error) ∈ pool.lanes → pool.failure = some error
  rejected : ∀ error, .rejected error ∈ pool.lanes → pool.outcome.isSome = true
  ended : pool.lanes.all Lane.isFulfilled = true → pool.outcome.isSome = true
  ok : ∀ results, pool.outcome = some (.ok results) →
    pool.failure = none ∧ pool.lanes.all Lane.isFulfilled = true ∧ results = pool.results
  error : ∀ error, pool.outcome = some (.error error) → pool.failure = some error

theorem countP_put (hit : pool.lanes[n]? = some old) (new : Lane ε ρ) (p : Lane ε ρ → Bool) :
    (pool.put n new).lanes.countP p + (if p old then 1 else 0) = pool.lanes.countP p + if p new then 1 else 0 := by
  obtain ⟨bound,rfl⟩ := List.getElem?_eq_some_iff.mp hit
  have after := (set_perm_cons_eraseIdx bound new).countP_eq p
  have pre := (getElem_cons_eraseIdx_perm bound).countP_eq p
  rw [countP_cons] at after pre
  change (pool.lanes.set n new).countP p + _ = _
  omega

theorem Move.unfulfilled (move : Move abortError items n pool old new between more) : old.isFulfilled = false := by
  cases move with
  | answer i res => rfl
  | fail i error => rfl
  | leave => rfl
  | resolve error => rfl
  | fulfil early => rfl
  | fulfilLast last => rfl
  | reject error => rfl
  | _ idle =>
    cases old with
    | fulfilled => cases idle
    | _ => rfl

theorem Ends.unresolved (ends : Ends items width pool notes) (hit : pool.lanes[n]? = some old)
    (move : Move abortError items n pool old new between more) (results : List (Option ρ)) :
    pool.outcome ≠ some (.ok results) := by
  intro resolved
  have every := (ends.ok results resolved).2.1
  rw [all_eq_true] at every
  have finished := every old (mem_of_getElem? hit)
  rw [move.unfulfilled] at finished
  cases finished

theorem Ends.carry (ends : Ends items width pool notes) (hit : pool.lanes[n]? = some old)
    (lanes : between.lanes = pool.lanes) (next : pool.next ≤ between.next)
    (failure : ∀ error, pool.failure = some error → between.failure = some error)
    (out : between.outcome = pool.outcome)
    (unresolved : ∀ results, pool.outcome ≠ some (.ok results))
    (spent : new.isSpent = true → items.length ≤ between.next ∨ between.failure.isSome = true)
    (counted : between.failure = none → (if new.isSpent then 1 else 0) =
      (if old.isSpent then 1 else 0) + more.countP Note.isRanOut)
    (resolved : ∀ error, new = .resolved (some error) → between.failure = some error)
    (unrejected : ∀ error, new ≠ .rejected error)
    (open_lane : (pool.lanes.set n new).all Lane.isFulfilled = false) :
    Ends items width (between.put n new) (notes ++ more) := by
  have stands : between.lanes[n]? = some old := by
    rw [lanes]
    exact hit
  have kept {lane : Lane ε ρ} (mem : lane ∈ (between.put n new).lanes) : lane ∈ pool.lanes ∨ lane = new := by
    have either := of_mem_lanes_put mem
    rw [lanes] at either
    exact either
  constructor
  · rw [← ends.width,← lanes]
    exact length_set
  · intro lane mem finished
    rcases kept mem with pre | now
    · rcases ends.spent lane pre finished with past | failed
      · exact .inl (past.trans next)
      · obtain ⟨error,same⟩ := Option.isSome_iff_exists.mp failed
        exact .inr (Option.isSome_iff_exists.mpr ⟨error,failure error same⟩)
    · rw [now] at finished
      exact spent finished
  · intro intact
    have intact_before : pool.failure = none := by
      by_contra failed
      obtain ⟨error,same⟩ := Option.ne_none_iff_exists'.mp failed
      have kept := failure error same
      change between.failure = none at intact
      rw [intact] at kept
      cases kept
    have counts := countP_put stands new Lane.isSpent
    have one := counted intact
    rw [lanes,ends.counted intact_before] at counts
    rw [countP_append]
    omega
  · intro error mem
    rcases kept mem with pre | now
    · exact failure error (ends.resolved error pre)
    · exact resolved error now.symm
  · intro error mem
    change between.outcome.isSome = true
    rw [out]
    rcases kept mem with pre | now
    · exact ends.rejected error pre
    · exact absurd now.symm (unrejected error)
  · intro every
    change (between.lanes.set n new).all _ = true at every
    rw [lanes,open_lane] at every
    cases every
  · intro results same
    change between.outcome = _ at same
    rw [out] at same
    exact absurd same (unresolved results)
  · intro error same
    change between.outcome = _ at same
    rw [out] at same
    exact failure error (ends.error error same)

theorem all_put_eq_false (hit : pool.lanes[n]? = some old) (stays : new.isFulfilled = false) :
    (pool.lanes.set n new).all Lane.isFulfilled = false := by
  rw [all_eq_false]
  exact ⟨new,new_mem_lanes_put hit,eq_false_iff.mp stays⟩

theorem Ends.fulfilLast (ends : Ends items width pool notes) (faults : Faults pool notes)
    (hit : pool.lanes[n]? = some (.resolved none))
    (unresolved : ∀ results, pool.outcome ≠ some (.ok results))
    (last : (pool.lanes.set n .fulfilled).all Lane.isFulfilled = true) :
    Ends items width ((pool.close abortError (.ok pool.results)).put n .fulfilled) notes := by
  have every (lane : Lane ε ρ) (mem : lane ∈ (pool.put n .fulfilled).lanes) : lane = .fulfilled := by
    have finished := all_eq_true.mp last lane mem
    cases lane with
    | fulfilled => rfl
    | _ => cases finished
  have intact : pool.failure = none := by
    by_contra failed
    obtain ⟨lane,mem,broken⟩ := faults.broken (Option.isSome_iff_ne_none.mpr failed)
    have other : lane ≠ .resolved none := by
      intro same
      rw [same] at broken
      cases broken
    rw [every lane (mem_lanes_put hit mem other)] at broken
    cases broken
  have settled : (pool.close abortError (.ok pool.results)).outcome.isSome = true :=
    Option.isSome_iff_ne_none.mpr (close_outcome _ _ pool)
  constructor
  · rw [← ends.width]
    exact length_set
  · intro lane mem _
    exact ends.spent _ (mem_of_getElem? hit) rfl
  · intro _
    have counts := countP_put hit .fulfilled Lane.isSpent
    rw [← ends.counted intact]
    exact Nat.add_right_cancel counts
  · intro error mem
    cases every _ mem
  · intro error mem
    cases every _ mem
  · intro _
    exact settled
  · intro results same
    refine ⟨intact,last,?_⟩
    change pool.outcome.or _ = _ at same
    cases outcome : pool.outcome with
    | none =>
      rw [outcome] at same
      cases same
      rfl
    | some early =>
      rw [outcome] at same
      cases same
      exact absurd outcome (unresolved results)
  · intro error same
    change pool.outcome.or _ = _ at same
    cases outcome : pool.outcome with
    | none =>
      rw [outcome] at same
      cases same
    | some early =>
      rw [outcome] at same
      cases same
      exact ends.error error outcome

theorem Ends.reject (ends : Ends items width pool notes) {failure : ε}
    (hit : pool.lanes[n]? = some (.resolved (some failure)))
    (unresolved : ∀ results, pool.outcome ≠ some (.ok results)) :
    Ends items width ((pool.close abortError (.error failure)).put n (.rejected failure))
      notes := by
  have settled : (pool.close abortError (.error failure)).outcome.isSome = true :=
    Option.isSome_iff_ne_none.mpr (close_outcome _ _ pool)
  have failed := ends.resolved failure (mem_of_getElem? hit)
  constructor
  · rw [← ends.width]
    exact length_set
  · intro lane mem finished
    exact .inr (Option.isSome_iff_exists.mpr ⟨failure,failed⟩)
  · intro intact
    change pool.failure = none at intact
    rw [failed] at intact
    cases intact
  · intro error mem
    rcases of_mem_lanes_put mem with pre | now
    · exact ends.resolved error pre
    · cases now
  · intro error mem
    exact settled
  · intro _
    exact settled
  · intro results same
    change pool.outcome.or _ = _ at same
    cases outcome : pool.outcome with
    | none =>
      rw [outcome] at same
      cases same
    | some early =>
      rw [outcome] at same
      cases same
      exact absurd outcome (unresolved results)
  · intro error same
    change pool.outcome.or _ = _ at same
    cases outcome : pool.outcome with
    | none =>
      rw [outcome] at same
      cases same
      exact failed
    | some early =>
      rw [outcome] at same
      cases same
      exact ends.error error outcome

theorem Ends.move (ends : Ends items width pool notes) (faults : Faults pool notes)
    (hit : pool.lanes[n]? = some old)
    (move : Move abortError items n pool old new between more) :
    Ends items width (between.put n new) (notes ++ more) := by
  have unresolved := ends.unresolved hit move
  have lanes := move.lanes
  have unspent (idle : old.isIdle = true) : old.isSpent = false := by
    cases old with
    | starting => rfl
    | returned i res => rfl
    | _ => cases idle
  cases move with
  | refuse idle failed =>
    refine ends.carry hit lanes (hand_next old pool).ge ?_ (hand_outcome old pool) unresolved ?_ ?_
      nofun nofun (all_put_eq_false hit rfl)
    · rw [hand_failure]
      exact fun _ => id
    · rw [hand_failure]
      exact fun _ => .inr failed
    · intro intact
      rw [hand_failure] at intact
      rw [intact] at failed
      cases failed
  | stop idle intact signal =>
    refine ends.carry hit lanes (hand_next old pool).ge ?_ (hand_outcome old pool) unresolved nofun
      nofun nofun nofun (all_put_eq_false hit rfl)
    intro error failed
    rw [intact] at failed
    cases failed
  | exhaust idle intact signal past =>
    refine ends.carry hit lanes ?_ ?_ (hand_outcome old pool) unresolved ?_ ?_
      nofun nofun (all_put_eq_false hit rfl)
    · exact (hand_next old pool).ge.trans (Nat.le_succ _)
    · intro error failed
      rw [intact] at failed
      cases failed
    · intro _
      rw [getElem?_eq_none_iff] at past
      exact .inl (past.trans ((hand_next old pool).ge.trans (Nat.le_succ _)))
    · intro _
      rw [unspent idle]
      rfl
  | give idle intact signal here =>
    refine ends.carry hit lanes ?_ ?_ (hand_outcome old pool) unresolved nofun ?_
      nofun nofun (all_put_eq_false hit rfl)
    · exact (hand_next old pool).ge.trans (Nat.le_succ _)
    · intro error failed
      rw [intact] at failed
      cases failed
    · intro _
      rw [unspent idle]
      rfl
  | answer i res =>
    exact ends.carry hit lanes le_rfl (fun _ => id) rfl unresolved nofun (fun _ => rfl) nofun nofun
      (all_put_eq_false hit rfl)
  | fail i error =>
    refine ends.carry hit lanes le_rfl ?_ rfl unresolved nofun nofun nofun nofun (all_put_eq_false hit rfl)
    intro earlier failed
    rw [stopLane_failure,failed]
    rfl
  | leave =>
    exact ends.carry hit lanes le_rfl (fun _ => id) rfl unresolved
      (fun _ => ends.spent _ (mem_of_getElem? hit) rfl) (fun _ => rfl) nofun nofun
      (all_put_eq_false hit rfl)
  | resolve error =>
    refine ends.carry hit lanes le_rfl ?_ rfl unresolved nofun nofun ?_ nofun (all_put_eq_false hit rfl)
    · intro earlier failed
      rw [stopLane_failure,failed]
      rfl
    · intro failure same
      exact Lane.resolved.inj same
  | fulfil early =>
    exact ends.carry hit lanes le_rfl (fun _ => id) rfl unresolved
      (fun _ => ends.spent _ (mem_of_getElem? hit) rfl) (fun _ => rfl) nofun nofun early
  | fulfilLast last =>
    rw [append_nil]
    exact ends.fulfilLast faults hit unresolved last
  | reject error =>
    rw [append_nil]
    exact ends.reject hit unresolved

end Ends

section Runs

variable {α ε ρ : Type*} {abortError : ε} {items : List α} {limit : Number} {number : ℕ}
  {pool between : Pool ε ρ} {old new : Lane ε ρ} {notes more : List (Note α ε ρ)}

structure Sound (items : List α) (limit : Number) (pool : Pool ε ρ) (notes : List (Note α ε ρ)) :
    Prop where
  given : Given items pool notes
  faults : Faults pool notes
  answers : Answers items pool notes
  ends : Ends items (cap limit items.length) pool notes

theorem Sound.start (abortError : ε) (items : List α) (limit : Number) :
    Sound items limit (mapWithConcurrency abortError items limit : Machine (Pool ε ρ) _ _).start [] := by
  have idle (lane : Lane ε ρ) (mem : lane ∈ replicate (cap limit items.length) Lane.starting) : lane = .starting :=
    eq_of_mem_replicate mem
  refine ⟨?_,Faults.start rfl rfl idle,?_,?_⟩
  · apply Given.start (replicate (cap limit items.length) Lane.starting) _ rfl rfl
    rw [length_replicate]
  · refine ⟨length_replicate,?_,?_,?_⟩
    · intro i res stored
      have empty := eq_of_mem_replicate (mem_of_getElem? stored)
      cases empty
    · intro i res mem
      cases idle _ mem
    · intro i res mem
      cases mem
  · constructor
    · exact length_replicate
    · intro lane mem finished
      rw [idle lane mem] at finished
      cases finished
    · intro _
      rw [countP_eq_zero.mpr]
      · rfl
      · intro lane mem
        rw [idle lane mem]
        exact nofun
    · intro error mem
      cases idle _ mem
    · intro error mem
      cases idle _ mem
    · intro every
      change (if items.length = 0 then some (Except.ok []) else none).isSome = true
      split
      · rfl
      next some_items =>
        have bound := cap_pos limit some_items
        change (replicate _ _).all _ = true at every
        rw [all_replicate,if_neg bound.ne'] at every
        cases every
    · intro results same
      change (if items.length = 0 then some (Except.ok []) else none) = _ at same
      split at same
      next no_items =>
        cases same
        change _ ∧ (replicate (cap limit items.length) _).all _ = true ∧
          _ = replicate items.length none
        rw [no_items,cap,if_pos rfl]
        exact ⟨rfl,rfl,rfl⟩
      · cases same
    · intro error same
      change (if items.length = 0 then some (Except.ok []) else none) = _ at same
      split at same
      · cases same
      · cases same

theorem Sound.abort (sound : Sound items limit pool notes) (reason : ε) :
    Sound items limit (pool.abort reason) (notes ++ [.aborted reason]) := by
  refine ⟨?_,sound.faults.abort reason,?_,?_⟩
  · refine ⟨?_,?_,?_⟩
    · intro i item mem
      rcases mem_append.mp mem with pre | now
      · exact sound.given.named i item pre
      · cases mem_singleton.mp now
    · rw [givenIndexes,filterMap_append]
      exact (append_nil _).trans sound.given.given
    · rw [settledIndexes,filterMap_append]
      change (settledIndexes notes ++ [] ++ pool.inFlight).Perm _
      rw [append_nil]
      exact sound.given.flight
  · refine ⟨sound.answers.length,?_,?_,?_⟩
    · intro i res stored
      exact mem_append_left _ (sound.answers.stored i res stored)
    · intro i res mem
      exact mem_append_left _ (sound.answers.brought i res mem)
    · intro i res mem
      rcases mem_append.mp mem with pre | now
      · exact sound.answers.answered i res pre
      · cases mem_singleton.mp now
  · have ends := sound.ends
    refine ⟨ends.width,ends.spent,?_,ends.resolved,ends.rejected,ends.ended,ends.ok,ends.error⟩
    intro intact
    rw [countP_append]
    exact ends.counted intact

theorem Sound.step (sound : Sound items limit pool notes) (ev : Event ε ρ) :
    Sound items limit (effect abortError items ev pool).1 (notes ++ (effect abortError items ev pool).2) := by
  rcases effect_cases abortError items ev pool with
    ⟨reason,rfl⟩ | same | ⟨number,old,new,between,more,hit,move,same⟩
  · exact sound.abort reason
  · rw [same,append_nil]
    exact sound
  · rw [same]
    exact ⟨sound.given.move hit move,sound.faults.move hit move,
      sound.answers.move sound.given hit move,sound.ends.move sound.faults hit move⟩

theorem sound_run (abortError : ε) (items : List α) (limit : Number) (evs : List (Event ε ρ)) :
    Sound items limit ((mapWithConcurrency abortError items limit).run evs)
      ((mapWithConcurrency abortError items limit).noted evs) := by
  apply Machine.holds_of_step (Sound items limit)
  · exact Sound.start abortError items limit
  · intro pool notes ev sound
    exact sound.step ev

/-- No item is given, and no lane runs out of items, behind a failure or an abort; a lane that finds
the signal aborted meets the reason of the first abort. -/
def InTurn (before : List (Note α ε ρ)) : Note α ε ρ → Prop
  | .given _ _ => errors before = [] ∧ aborts before = []
  | .ranOut _ => errors before = [] ∧ aborts before = []
  | .stopped reason => errors before = [] ∧ (aborts before).head? = some reason
  | _ => True

theorem Sound.inTurn (sound : Sound items limit pool notes) (ev : Event ε ρ) :
    ∀ pre note after, (effect abortError items ev pool).2 = pre ++ note :: after →
      InTurn (notes ++ pre) note := by
  intro pre note after same
  rcases effect_cases abortError items ev pool with
    ⟨reason,rfl⟩ | quiet | ⟨number,old,new,between,more,hit,move,moved⟩
  · exact allowed_of_single same trivial
  · rw [quiet] at same
    simp at same
  · rw [moved] at same
    have unsettled (intact : pool.failure = none) (idle : old.isIdle = true) : pool.outcome = none := by
      cases outcome : pool.outcome with
      | none => rfl
      | some settled =>
        cases settled with
        | ok results => exact absurd outcome (sound.ends.unresolved hit move results)
        | error error =>
          have failed := sound.ends.error error outcome
          rw [intact] at failed
          cases failed
    cases move with
    | stop idle intact signal =>
      apply allowed_of_single same
      refine ⟨sound.faults.errors_nil intact,?_⟩
      rw [← sound.faults.signal intact (unsettled intact idle)]
      exact signal
    | exhaust idle intact signal past =>
      exact allowed_of_single same ⟨sound.faults.errors_nil intact,sound.faults.aborts_nil signal⟩
    | give idle intact signal here =>
      exact allowed_of_single same ⟨sound.faults.errors_nil intact,sound.faults.aborts_nil signal⟩
    | answer i res => exact allowed_of_single same trivial
    | fail i error => exact allowed_of_single same trivial
    | _ => simp at same

theorem inTurn_run (abortError : ε) (items : List α) (limit : Number) (evs : List (Event ε ρ)) :
    Lawful InTurn ((mapWithConcurrency abortError items limit).noted evs) := by
  induction evs using reverseRecOn with
  | nil => exact Lawful.nil
  | append_singleton evs ev ih =>
    rw [Machine.noted_snoc]
    exact ih.append ((sound_run abortError items limit evs).inTurn ev)

def Lane.rank : Lane ε ρ → ℕ
  | .running _ => 4
  | .starting => 3
  | .returned _ _ => 3
  | .ranOut => 2
  | .threw _ => 2
  | .resolved _ => 1
  | .fulfilled => 0
  | .rejected _ => 0

def Pool.remaining (count : ℕ) (pool : Pool ε ρ) : ℕ :=
  (pool.lanes.map Lane.rank).sum + 2 * (count - pool.next)

theorem Move.remaining (hit : pool.lanes[number]? = some old)
    (move : Move abortError items number pool old new between more) :
    (between.put number new).remaining items.length < pool.remaining items.length := by
  have ranks : ((pool.lanes.set number new).map Lane.rank).sum + old.rank =
      (pool.lanes.map Lane.rank).sum + new.rank := by
    obtain ⟨bound,rfl⟩ := List.getElem?_eq_some_iff.mp hit
    have after := ((set_perm_cons_eraseIdx bound new).map Lane.rank).sum_eq
    have pre := ((getElem_cons_eraseIdx_perm bound).map Lane.rank).sum_eq
    rw [map_cons,sum_cons] at after pre
    omega
  have idle_rank (idle : old.isIdle = true) : old.rank = 3 := by
    cases old with
    | starting => rfl
    | returned i res => rfl
    | _ => cases idle
  rw [← move.lanes] at ranks
  rw [Pool.remaining,Pool.remaining,Pool.put]
  dsimp only
  rw [move.lanes] at ranks ⊢
  cases move with
  | refuse idle failed =>
    rw [idle_rank idle,Lane.rank] at ranks
    rw [hand_next]
    omega
  | stop idle intact signal =>
    rw [idle_rank idle,Lane.rank] at ranks
    change _ + 2 * (_ - (old.hand pool).next) < _
    rw [hand_next]
    omega
  | exhaust idle intact signal past =>
    rw [idle_rank idle,Lane.rank] at ranks
    rw [Pool.pass,hand_next]
    dsimp only
    omega
  | give idle intact signal here =>
    have bound := (List.getElem?_eq_some_iff.mp here).1
    rw [idle_rank idle,Lane.rank] at ranks
    rw [Pool.pass,hand_next]
    dsimp only
    omega
  | answer i res =>
    rw [Lane.rank,Lane.rank] at ranks
    omega
  | fail i error =>
    rw [Lane.rank,Lane.rank] at ranks
    change _ + 2 * (_ - pool.next) < _
    omega
  | leave =>
    rw [Lane.rank,Lane.rank] at ranks
    omega
  | resolve error =>
    rw [Lane.rank,Lane.rank] at ranks
    change _ + 2 * (_ - pool.next) < _
    omega
  | fulfil early =>
    rw [Lane.rank,Lane.rank] at ranks
    omega
  | fulfilLast last =>
    rw [Lane.rank,Lane.rank] at ranks
    change _ + 2 * (_ - pool.next) < _
    omega
  | reject error =>
    rw [Lane.rank,Lane.rank] at ranks
    change _ + 2 * (_ - pool.next) < _
    omega

theorem progress (abortError : ε) (items : List α) (hit : pool.lanes[number]? = some old)
    (unended : old.isEnded = false) (ev : Event ε ρ)
    (awaited : if old.isRunning then ∃ ans, ev = .settle number ans else ev = .turn number) :
    (effect abortError items ev pool).1.remaining items.length < pool.remaining items.length := by
  split at awaited
  next running =>
    obtain ⟨ans,rfl⟩ := awaited
    cases old with
    | running i =>
      obtain ⟨new,between,more,move,same⟩ := settle_move abortError items hit ans
      rw [effect,same]
      exact move.remaining hit
    | _ => cases running
  next waits =>
    rw [awaited]
    obtain ⟨new,between,more,move,same⟩ := turn_move abortError items hit (eq_false_iff.mpr waits) unended
    rw [effect,same]
    exact move.remaining hit

theorem Sound.resolved (sound : Sound items limit pool notes) (lawful : Lawful InTurn notes)
    {results : List (Option ρ)} (outcome : pool.outcome = some (.ok results)) :
    errors notes = [] ∧ results.length = items.length ∧
      (∀ i < items.length, ∃ res, .answered i res ∈ notes) ∧
      (∀ (i : ℕ) res, results[i]? = some (some res) ↔ .answered i res ∈ notes) ∧
      ∀ pre reason after, notes = pre ++ .aborted reason :: after →
        pre.countP Note.isRanOut = pool.lanes.length := by
  obtain ⟨intact,every,rfl⟩ := sound.ends.ok results outcome
  have unbroken := sound.faults.errors_nil intact
  have finished (lane : Lane ε ρ) (mem : lane ∈ pool.lanes) : lane = .fulfilled := by
    have ended := all_eq_true.mp every lane mem
    cases lane with
    | fulfilled => rfl
    | _ => cases ended
  refine ⟨unbroken,sound.answers.length,?_,?_,?_⟩
  · intro i bound
    have width : 0 < pool.lanes.length := by
      rw [sound.ends.width]
      exact cap_pos limit (by omega)
    have mem := getElem_mem width
    have past : items.length ≤ pool.next := by
      rcases sound.ends.spent _ mem (by rw [finished _ mem]; rfl) with past | failed
      · exact past
      · rw [intact] at failed
        cases failed
    have idle : pool.inFlight = [] := by
      rw [Pool.inFlight,filterMap_eq_nil_iff]
      intro lane inside
      rw [finished lane inside]
      rfl
    have flight := sound.given.flight
    rw [idle,append_nil,Nat.min_eq_right past] at flight
    have settled := flight.mem_iff.mpr (mem_range.mpr bound)
    obtain ⟨note,noted,named⟩ := mem_filterMap.mp settled
    cases note with
    | answered other res =>
      cases named
      exact ⟨res,noted⟩
    | failed other error =>
      have met : error ∈ errors notes := mem_filterMap.mpr ⟨_,noted,rfl⟩
      rw [unbroken] at met
      cases met
    | _ => cases named
  · intro i res
    constructor
    · exact sound.answers.stored i res
    · intro noted
      rcases sound.answers.answered i res noted with here | carried
      · exact here
      · cases finished _ carried
  · intro pre reason after same
    -- the notes of lanes that ran out all stand before the first abort
    have all_spent : pool.lanes.countP Lane.isSpent = pool.lanes.length := by
      rw [countP_eq_length]
      intro lane mem
      rw [finished lane mem]
      rfl
    have none_later : after.countP Note.isRanOut = 0 := by
      rw [countP_eq_zero]
      intro note mem ran_out
      obtain ⟨a,last,rfl⟩ := append_of_mem mem
      cases note with
      | ranOut number =>
        have quiet := lawful (pre ++ .aborted reason :: a) (.ranOut number) last (by
          rw [same,append_assoc,cons_append])
        have noted : reason ∈ aborts (pre ++ .aborted reason :: a) :=
          mem_filterMap.mpr ⟨.aborted reason,by simp,rfl⟩
        rw [quiet.2] at noted
        cases noted
      | _ => cases ran_out
    have abort : ¬ (Note.aborted reason : Note α ε ρ).isRanOut = true := nofun
    have counts := sound.ends.counted intact
    rw [all_spent,same,countP_append,countP_cons_of_neg abort,none_later] at counts
    exact counts.symm

theorem Sound.settled (sound : Sound items limit pool notes)
    (finished : ∀ lane ∈ pool.lanes, lane.isEnded = true) : pool.outcome.isSome = true := by
  by_cases every : pool.lanes.all Lane.isFulfilled = true
  · exact sound.ends.ended every
  · rw [not_eq_true,all_eq_false] at every
    obtain ⟨lane,mem,unfulfilled⟩ := every
    have ended := finished lane mem
    cases lane with
    | fulfilled => exact absurd rfl unfulfilled
    | rejected error => exact sound.ends.rejected error mem
    | _ => cases ended

/-- The pool serves its items in order and stops with the first failure or abort that a lane sees;
it resolves with every answer in its place, or rejects with the first failure. -/
theorem mapWithConcurrency_lanes (abortError : ε) (items : List α) (limit : Number)
    (events : List (Event ε ρ)) :
    let pool := (mapWithConcurrency abortError items limit).run events
    let notes := (mapWithConcurrency abortError items limit).noted events
    (givenIndexes notes).Nodup ∧
      (∀ index item, .given index item ∈ notes → items[index]? = some item) ∧
      (∀ m : ℕ, 1 ≤ m → limit = .ofNat m → pool.inFlight.length ≤ min m items.length) ∧
      ((∀ m : ℕ, 1 ≤ m → limit ≠ .ofNat m) → pool.inFlight.length ≤ 1) ∧
      (∀ before index item after, notes = before ++ .given index item :: after →
        errors before = [] ∧ aborts before = []) ∧
      (∀ before reason after, notes = before ++ .stopped reason :: after →
        (aborts before).head? = some reason) ∧
      (∀ results, pool.outcome = some (.ok results) → errors notes = [] ∧
        results.length = items.length ∧
        (∀ index < items.length, ∃ result, .answered index result ∈ notes) ∧
        (∀ (index : ℕ) result, results[index]? = some (some result) ↔
          .answered index result ∈ notes) ∧
        ∀ before reason after, notes = before ++ .aborted reason :: after →
          before.countP Note.isRanOut = pool.lanes.length) ∧
      (∀ error, pool.outcome = some (.error error) → (errors notes).head? = some error) ∧
      ((∀ lane ∈ pool.lanes, lane.isEnded = true) → pool.outcome.isSome = true) ∧
      ∀ (number : ℕ) lane, pool.lanes[number]? = some lane → lane.isEnded = false → ∀ event,
        (if lane.isRunning then ∃ answer, event = .settle number answer
          else event = .turn number) →
        (effect abortError items event pool).1.remaining items.length <
          pool.remaining items.length := by
  intro pool notes
  have sound : Sound items limit pool notes := sound_run abortError items limit events
  have lawful : Lawful InTurn notes := inTurn_run abortError items limit events
  have flight : pool.inFlight.length ≤ cap limit items.length := by
    rw [← sound.ends.width]
    exact length_filterMap_le _ _
  refine ⟨?_,sound.given.named,?_,?_,?_,?_,?_,?_,?_,?_⟩
  · rw [sound.given.given]
    exact nodup_range
  · intro m positive valid
    rw [valid] at flight
    exact flight.trans (cap_le _ positive (safeLimit_natCast positive))
  · intro invalid
    have one : safeLimit limit = .ofNat 1 := by
      rw [safeLimit_of_invalid invalid]
      exact congrArg Number.finite (by norm_num)
    exact flight.trans ((cap_le _ le_rfl one).trans (Nat.min_le_left _ _))
  · intro before index item after same
    exact lawful before _ after same
  · intro before reason after same
    exact (lawful before _ after same).2
  · intro results outcome
    exact sound.resolved lawful outcome
  · intro error outcome
    rw [← sound.faults.failure]
    exact sound.ends.error error outcome
  · exact sound.settled
  · intro number lane found unended event awaited
    exact progress abortError items found unended event awaited

/-- The doubtful limit of no lane at all still gives its item to a worker. -/
theorem mapWithConcurrency_no_limit : ¬ ∀ (items : List Unit) (limit : ℕ)
    (events : List (Event Unit Unit)),
    ((mapWithConcurrency () items (.ofNat limit)).run events).inFlight.length ≤
      min limit items.length := by
  intro bounded
  have none_running := bounded [()] 0 [.turn 0]
  revert none_running
  decide

end Runs

end Keiko.WorkerLanes
