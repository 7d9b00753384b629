import Keiko.ConnectorSync

/-! What holds in every run of the sync lane: a run that is completed has seen an outcome of every
ref and nothing that would spoil it, its pool stays within its width and starts nothing behind a
stop, and nothing is told behind the answer. -/
namespace Keiko.ConnectorSync
open Keiko.Library List

variable {ρ : Type*}

section Notes

variable {notes more : List (Note ρ)}

def ItemFetchOutcome.isFatal : ItemFetchOutcome → Bool
  | .fatal _ => true
  | _ => false

def Note.stops : Note ρ → Bool
  | .settled _ _ outcome => outcome.isFatal
  | .thrown _ | .deadlinePassed | .aborted => true
  | _ => false

def Note.spoils : Note ρ → Bool
  | .settled _ _ outcome => outcome.isFatal
  | .thrown _ | .aborted => true
  | _ => false

def Note.isAnswer : Note ρ → Bool
  | .answered _ | .rejected _ => true
  | _ => false

def Carries (notes : List (Note ρ)) : Prop :=
  ∀ index ref item, .settled index ref (.item item) ∈ notes → item.itemKey = ref.itemKey

structure Complete (bounds : SyncBounds) (notes : List (Note ρ)) (items : List SyncItem)
    (keys : List Text) (refs : List (ItemRef ρ)) : Prop where
  enumerated : .enumerated refs true ∈ notes
  within : refs.length ≤ bounds.maxItems
  settled : ∀ (index : ℕ) ref, refs[index]? = some ref → ∃ outcome,
    .settled index ref outcome ∈ notes ∧ outcome.isFatal = false
  unspoilt : ∀ note ∈ notes, note.spoils = false
  known : ∀ key ∈ keys, ∃ ref ∈ refs, ref.itemKey = key
  gone : ∀ index ref, .settled index ref .missing ∈ notes → ref.itemKey ∉ keys
  carried : Carries notes → ∀ item ∈ items, item.itemKey ∈ keys

def Allowed (bounds : SyncBounds) (before : List (Note ρ)) : Note ρ → Prop
  | .started _ => ∀ note ∈ before, note.stops = false
  | .progress _ | .rejected _ => ∀ note ∈ before, note.isAnswer = false
  | .answered outcome => (∀ note ∈ before, note.isAnswer = false) ∧
    ∀ items keys failures progress, outcome = .completed items keys failures progress →
      ∃ refs, Complete bounds before items keys refs
  | _ => True

end Notes

section Invariant

variable {bounds : SyncBounds} {run next : RunState ρ} {notes more : List (Note ρ)}

def Settled (run : RunState ρ) (notes : List (Note ρ)) (index : ℕ) : Prop :=
  ∃ ref outcome, run.refs[index]? = some ref ∧ .settled index ref outcome ∈ notes ∧ outcome.isFatal = false

structure Base (bounds : SyncBounds) (run : RunState ρ) (notes : List (Note ρ)) : Prop where
  lawful : Lawful (Allowed bounds) notes
  unanswered : run.terminal = false → ∀ note ∈ notes, note.isAnswer = false
  running : run.phase ≠ .settled → run.terminal = false
  idle : run.phase ≠ .fetching → ∀ worker ∈ run.workers, worker = .ended
  enumerated : run.phase = .fetching → .enumerated run.refs true ∈ notes ∧ run.refs.length ≤ bounds.maxItems
  counted : run.progress.fetchedItems + run.progress.skippedItems + run.inFlight ≤ run.dispatchedBefore + run.cursor
  covered : ∀ index < run.cursor, (∃ number : ℕ, run.workers[number]? = some (.fetching index)) ∨
    Settled run notes index ∨ run.fatalReason.isSome = true ∨ run.firstError.isSome = true
  width : run.workers.length ≤ max 1 bounds.maxConcurrency
  keys : run.phase = .fetching → ∀ key, key ∈ run.enumeratedItemKeys ↔
    (∃ ref ∈ run.refs, ref.itemKey = key) ∧ key ∉ run.missingItemKeys
  missing : ∀ index ref, .settled index ref .missing ∈ notes → ref.itemKey ∈ run.missingItemKeys
  items : Carries notes → ∀ item ∈ run.items,
    (∃ ref ∈ run.refs, ref.itemKey = item.itemKey) ∧ item.itemKey ∉ run.missingItemKeys
  early : run.phase = .created ∨ run.phase = .enumerating →
    run.progress.fetchedItems = 0 ∧ run.progress.skippedItems = 0 ∧ run.cursor = 0 ∧
      run.items = [] ∧ run.missingItemKeys = []

/-- What stops a run or spoils it is marked in its state. -/
structure Alert (run : RunState ρ) (notes : List (Note ρ)) : Prop where
  stopped : ∀ note ∈ notes, note.stops = true → run.isStopped = true
  spoilt : ∀ note ∈ notes, note.spoils = true →
    run.aborted = true ∨ run.firstError.isSome = true ∨ run.fatalReason.isSome = true

structure Sound (bounds : SyncBounds) (run : RunState ρ) (notes : List (Note ρ)) : Prop where
  base : Base bounds run notes
  alert : run.phase ≠ .settled → Alert run notes

theorem Sound.start : Sound bounds (newRun : RunState ρ) [] := by
  refine ⟨⟨Lawful.nil,?_,?_,?_,?_,?_,?_,?_,?_,?_,?_,?_⟩,?_⟩
  · intro _ note mem
    cases mem
  · intro _
    rfl
  · intro _ worker mem
    cases mem
  · intro started
    cases started
  · exact Nat.zero_le _
  · intro i below
    cases below
  · change ((0 : ℕ) : ℤ) ≤ max 1 bounds.maxConcurrency
    omega
  · intro started
    cases started
  · intro i ref mem
    cases mem
  · intro _ item mem
    cases mem
  · intro _
    exact ⟨rfl,rfl,rfl,rfl,rfl⟩
  · intro _
    refine ⟨?_,?_⟩
    · intro note mem
      cases mem
    · intro note mem
      cases mem

theorem Carries.of_append (carries : Carries (notes ++ more)) : Carries notes :=
  fun i ref item mem => carries i ref item (mem_append_left _ mem)

theorem Settled.mono {i : ℕ} (settled : Settled run notes i) (inside : notes ⊆ more) :
    Settled run more i := by
  obtain ⟨ref,out,hit,mem,counts⟩ := settled
  exact ⟨ref,out,hit,inside mem,counts⟩

theorem Base.note (base : Base bounds run notes) {note : Note ρ} (allowed : Allowed bounds notes note)
    (verdict : note.isAnswer = true → run.terminal = true)
    (unsettled : ∀ i ref out, note ≠ .settled i ref out) :
    Base bounds run (notes ++ [note]) := by
  have old {i : ℕ} {ref : ItemRef ρ} {out : ItemFetchOutcome}
      (mem : .settled i ref out ∈ notes ++ [note]) :
      .settled i ref out ∈ notes := by
    apply (mem_append.mp mem).resolve_right
    intro new
    exact unsettled i ref out (mem_singleton.mp new).symm
  refine ⟨base.lawful.snoc allowed,?_,base.running,base.idle,?_,base.counted,?_,base.width,base.keys,?_,?_,base.early⟩
  · intro live other mem
    rcases mem_append.mp mem with pre | new
    · exact base.unanswered live other pre
    · rw [mem_singleton.mp new]
      apply Bool.eq_false_iff.mpr
      intro answers
      rw [verdict answers] at live
      cases live
  · intro started
    obtain ⟨noted,within⟩ := base.enumerated started
    exact ⟨mem_append_left _ noted,within⟩
  · intro i below
    rcases base.covered i below with inside | settled | marked
    · exact .inl inside
    · exact .inr (.inl (settled.mono (subset_append_left _ _)))
    · exact .inr (.inr marked)
  · intro i ref mem
    exact base.missing i ref (old mem)
  · intro carries
    exact base.items carries.of_append

theorem Alert.note (alert : Alert run notes) {note : Note ρ} (stops : note.stops = true → run.isStopped = true)
    (spoils : note.spoils = true → run.aborted = true ∨ run.firstError.isSome = true ∨ run.fatalReason.isSome = true) :
    Alert run (notes ++ [note]) := by
  refine ⟨?_,?_⟩
  · intro other mem disturbs
    rcases mem_append.mp mem with pre | new
    · exact alert.stopped other pre disturbs
    · rw [mem_singleton.mp new] at disturbs
      exact stops disturbs
  · intro other mem disturbs
    rcases mem_append.mp mem with pre | new
    · exact alert.spoilt other pre disturbs
    · rw [mem_singleton.mp new] at disturbs
      exact spoils disturbs

theorem isStopped_iff : run.isStopped = true ↔
    run.terminated = true ∨ run.aborted = true ∨ run.fatalReason.isSome = true := by
  rw [RunState.isStopped,Bool.or_eq_true,Bool.or_eq_true,or_assoc]

theorem Sound.abort (sound : Sound bounds run notes) : Sound bounds (abort run).1 (notes ++ (abort run).2) := by
  have base := sound.base
  refine ⟨?_,?_⟩
  · have moved : Base bounds { run with aborted := true } notes :=
      { base with }
    apply moved.note
    · trivial
    · intro answers
      cases answers
    · intro i ref out same
      cases same
  · intro live
    have alert := sound.alert live
    have moved : Alert { run with aborted := true } notes := by
      refine ⟨?_,fun _ _ _ => .inl rfl⟩
      intro _ _ _
      exact isStopped_iff.mpr (.inr (.inl rfl))
    apply moved.note
    · intro _
      exact isStopped_iff.mpr (.inr (.inl rfl))
    · intro _
      exact .inl rfl

theorem Sound.emitProgress (sound : Sound bounds run notes) (reaction : Reaction) :
    Sound bounds (emitProgress reaction run).1 (notes ++ (emitProgress reaction run).2) := by
  rw [ConnectorSync.emitProgress]
  split
  next =>
    rw [append_nil]
    exact sound
  next live =>
    have told : Sound bounds run (notes ++ [.progress run.progress]) := by
      refine ⟨?_,fun running => (sound.alert running).note Bool.noConfusion Bool.noConfusion⟩
      apply sound.base.note
      · exact sound.base.unanswered (Bool.eq_false_iff.mpr live)
      · intro answers
        cases answers
      · intro i ref out same
        cases same
    rw [Effect.andThen,← append_assoc]
    cases reaction.aborts with
    | true => exact told.abort
    | false =>
      change Sound bounds run (notes ++ [.progress run.progress] ++ [])
      rw [append_nil]
      exact told

theorem emitProgress_state (reaction : Reaction) (run : RunState ρ) :
    ∃ aborted, (ConnectorSync.emitProgress reaction run).1 = { run with aborted } := by
  rw [ConnectorSync.emitProgress]
  split
  next => exact ⟨run.aborted,rfl⟩
  next =>
    cases aborts : reaction.aborts with
    | true => exact ⟨true,by rw [Effect.andThen]; rfl⟩
    | false => exact ⟨run.aborted,by rw [Effect.andThen]; rfl⟩

theorem Base.close (base : Base bounds run notes) (ended : ∀ worker ∈ run.workers, worker = .ended) {note : Note ρ}
    (allowed : Allowed bounds notes note)
    (unsettled : ∀ i ref out, note ≠ .settled i ref out) :
    Sound bounds { run with phase := .settled, terminal := true } (notes ++ [note]) := by
  refine ⟨?_,fun running => absurd rfl running⟩
  have closed : Base bounds { run with phase := .settled, terminal := true } notes := by
    refine ⟨base.lawful,?_,?_,fun _ => ended,?_,base.counted,base.covered,base.width,?_,base.missing,base.items,?_⟩
    · intro open_again
      cases open_again
    · intro running
      exact absurd rfl running
    · intro started
      cases started
    · intro started
      cases started
    · intro started
      rcases started with created | enumerating
      · cases created
      · cases enumerating
  exact closed.note allowed (fun _ => rfl) unsettled

theorem Base.answer (base : Base bounds run notes) (live : run.terminal = false)
    (ended : ∀ worker ∈ run.workers, worker = .ended) {out : FetchOutcome}
    (complete : ∀ xs keys failures progress, out = .completed xs keys failures progress →
        ∃ refs, Complete bounds notes xs keys refs) :
    Sound bounds (answer out run).1 (notes ++ (answer out run).2) := by
  apply base.close ended
  · exact ⟨base.unanswered live,complete⟩
  · intro i ref other same
    cases same

theorem Base.catchInPipeline (base : Base bounds run notes) (live : run.terminal = false)
    (ended : ∀ worker ∈ run.workers, worker = .ended) (error : Thrown) :
    Sound bounds (catchInPipeline error run).1 (notes ++ (catchInPipeline error run).2) := by
  cases error with
  | budgetExhausted reason =>
    apply base.answer live ended
    intro xs keys failures progress same
    rw [RunState.unlessCancelled] at same
    split at same <;> cases same
  | other =>
    apply base.close ended
    · exact base.unanswered live
    · intro i ref out same
      cases same

theorem Base.throwInPipeline (base : Base bounds run notes) (live : run.terminal = false)
    (ended : ∀ worker ∈ run.workers, worker = .ended) (error : Thrown) :
    Sound bounds (throwInPipeline error run).1 (notes ++ (throwInPipeline error run).2) := by
  have thrown : Base bounds run (notes ++ [.thrown error]) := by
    apply base.note
    · trivial
    · intro answers
      cases answers
    · intro i ref out same
      cases same
  have caught := thrown.catchInPipeline live ended error
  rw [append_assoc] at caught
  exact caught

end Invariant

section Steps

variable {bounds : SyncBounds} {run : RunState ρ} {log : List (Note ρ)} {n : ℕ}

theorem Sound.call (sound : Sound bounds run log) (now : ℚ) :
    Sound bounds (call bounds now run).1 (log ++ (call bounds now run).2) := by
  rw [ConnectorSync.call]
  split
  next created =>
    have base := sound.base
    have live : run.terminal = false := base.running (by rw [created]; exact Phase.noConfusion)
    have ended : ∀ worker ∈ run.workers, worker = .ended :=
      base.idle (by rw [created]; exact Phase.noConfusion)
    have built : Base bounds { run with
        phase := .enumerating, deadlineAt := now + bounds.maxDurationMs } log := by
      refine { base with
        running := fun _ => live, idle := fun _ => ended, enumerated := ?_, keys := ?_,
        early := fun _ => base.early (.inl created) }
      · intro started
        cases started
      · intro started
        cases started
    simp only
    split
    next aborted =>
      apply built.answer live ended
      intro xs keys failures progress same
      rw [terminalOutcome,if_pos aborted] at same
      cases same
    next =>
      rw [append_nil]
      refine ⟨built,fun _ => ?_⟩
      have alert := sound.alert (by rw [created]; exact Phase.noConfusion)
      exact ⟨alert.stopped,alert.spoilt⟩
  next =>
    rw [append_nil]
    exact sound

theorem concurrency_le (bounds : SyncBounds) (refs : List (ItemRef ρ)) :
    (concurrency bounds refs : ℤ) ≤ max 1 bounds.maxConcurrency := by
  rw [concurrency]
  omega

theorem Sound.enumerateWithinBounds (sound : Sound bounds run log)
    (enumerating : run.phase = .enumerating) {refs : List (ItemRef ρ)} {complete : Bool}
    (noted : .enumerated refs complete ∈ log) :
    Sound bounds (enumerateWithinBounds bounds refs complete run).1
      (log ++ (enumerateWithinBounds bounds refs complete run).2) := by
  have base := sound.base
  have unsettled : run.phase ≠ .settled := by
    rw [enumerating]
    exact Phase.noConfusion
  have live := base.running unsettled
  have ended : ∀ worker ∈ run.workers, worker = .ended :=
    base.idle (by rw [enumerating]; exact Phase.noConfusion)
  rw [ConnectorSync.enumerateWithinBounds]
  split
  next admitted =>
    rw [Bool.and_eq_true,decide_eq_true_eq] at admitted
    rw [admitted.1] at noted
    obtain ⟨fetched,skipped,start,none_yet,no_key⟩ := base.early (.inr enumerating)
    rw [append_nil]
    refine ⟨⟨base.lawful,base.unanswered,fun _ => live,?_,fun _ => ⟨noted,admitted.2⟩,?_,?_,?_,?_,
      base.missing,?_,?_⟩,fun _ => ?_⟩
    · intro elsewhere
      exact absurd rfl elsewhere
    · have nothing : (replicate (concurrency bounds refs) Worker.looping).countP Worker.isFetching = 0 := by
        rw [countP_eq_zero]
        intro worker mem
        rw [eq_of_mem_replicate mem]
        exact Bool.false_ne_true
      rw [RunState.inFlight,fetchAllItems,nothing]
      exact Nat.le_add_right _ _
    · intro i below
      rw [fetchAllItems,start] at below
      cases below
    · rw [fetchAllItems,length_replicate]
      exact concurrency_le bounds refs
    · intro _ key
      rw [fetchAllItems,Distinct.mem_collect,no_key,mem_map]
      simp
    · intro _ item mem
      rw [fetchAllItems,none_yet] at mem
      cases mem
    · intro early
      rcases early with created | again
      · cases created
      · cases again
    · have alert := sound.alert unsettled
      exact ⟨alert.stopped,alert.spoilt⟩
  next =>
    apply base.answer live ended
    intro xs keys failures progress same
    rw [RunState.unlessCancelled] at same
    split at same <;> cases same

theorem Sound.enumerated (sound : Sound bounds run log) (out : EnumerationOutcome ρ)
    (reaction : Reaction) : Sound bounds (enumerated bounds out reaction run).1
      (log ++ (enumerated bounds out reaction run).2) := by
  unfold ConnectorSync.enumerated
  split
  next enumerating =>
    have base := sound.base
    have unsettled : run.phase ≠ .settled := by
      rw [enumerating]
      exact Phase.noConfusion
    have live := base.running unsettled
    have ended : ∀ worker ∈ run.workers, worker = .ended :=
      base.idle (by rw [enumerating]; exact Phase.noConfusion)
    cases out with
    | failed reason =>
      apply base.answer live ended
      intro xs keys failures progress same
      rw [RunState.unlessCancelled] at same
      split at same <;> cases same
    | refs refs complete =>
      have counted : Sound bounds { run with
          progress := { run.progress with enumeratedItems := refs.length } }
          (log ++ [.enumerated refs complete]) := by
        have moved : Base bounds { run with
            progress := { run.progress with enumeratedItems := refs.length } } log :=
          { base with }
        refine ⟨?_,fun running => ?_⟩
        · apply moved.note
          · trivial
          · intro answers
            cases answers
          · intro i ref other same
            cases same
        · have alert := sound.alert running
          have marked : Alert { run with
              progress := { run.progress with enumeratedItems := refs.length } } log :=
            ⟨alert.stopped,alert.spoilt⟩
          exact marked.note Bool.noConfusion Bool.noConfusion
      have told := counted.emitProgress reaction
      obtain ⟨aborted,reached⟩ := emitProgress_state reaction { run with
        progress := { run.progress with enumeratedItems := refs.length } }
      simp only [Effect.andThen,Effect.note]
      rw [← append_assoc,← append_assoc]
      cases reaction.throws with
      | some error =>
        apply told.base.throwInPipeline
        · rw [reached]
          exact live
        · rw [reached]
          exact ended
      | none =>
        apply told.enumerateWithinBounds
        · rw [reached]
          exact enumerating
        · apply mem_append_left
          exact mem_append_right _ mem_cons_self
  next =>
    rw [append_nil]
    exact sound

end Steps

section Pool

variable {bounds : SyncBounds} {run : RunState ρ} {log : List (Note ρ)} {n : ℕ} {worker other : Worker}
  {ref : ItemRef ρ} {outcome out : ItemFetchOutcome} {key : Text} {i : ℕ}

theorem inFlight_setWorker (hit : run.workers[n]? = some worker) (other : Worker) :
    (run.setWorker n other).inFlight + (if worker.isFetching then 1 else 0) =
      run.inFlight + (if other.isFetching then 1 else 0) := by
  obtain ⟨bound,same⟩ := List.getElem?_eq_some_iff.mp hit
  have replaced := countP_set (p := Worker.isFetching) (a := other) bound
  rw [same] at replaced
  change (run.workers.set n other).countP Worker.isFetching + _ = run.workers.countP Worker.isFetching + _
  rw [replaced]
  cases fetching : worker.isFetching with
  | false => simp
  | true =>
    have some_fetching : 0 < run.workers.countP Worker.isFetching :=
      countP_pos_iff.mpr ⟨worker,mem_of_getElem? hit,fetching⟩
    simp only [if_true]
    omega

theorem Base.fetching (base : Base bounds run log)
    (hit : run.workers[n]? = some worker) (alive : worker ≠ .ended) :
    run.phase = .fetching := by
  by_contra elsewhere
  exact alive (base.idle elsewhere worker (mem_of_getElem? hit))

theorem still_fetching {workers : List Worker} (hit : workers[n]? = some worker) (other : Worker)
    (elsewhere : worker ≠ .fetching i)
    (here : ∃ at_worker : ℕ, workers[at_worker]? = some (.fetching i)) :
    ∃ at_worker : ℕ, (workers.set n other)[at_worker]? = some (.fetching i) := by
  obtain ⟨at_worker,fetching⟩ := here
  refine ⟨at_worker,?_⟩
  rw [getElem?_set_ne]
  · exact fetching
  · intro same
    rw [same] at hit
    exact elsewhere (Option.some.inj (hit.symm.trans fetching))

theorem Base.endWorker (base : Base bounds run log) (hit : run.workers[n]? = some .looping) :
    Base bounds (run.setWorker n .ended) log := by
  have started : run.phase = .fetching := base.fetching hit Worker.noConfusion
  refine { base with idle := ?_, counted := ?_, covered := ?_, width := ?_ }
  · intro elsewhere
    exact absurd started elsewhere
  · have same := inFlight_setWorker hit .ended
    have bound := base.counted
    simp only [Worker.isFetching,Bool.false_eq_true,if_false] at same
    change run.progress.fetchedItems + run.progress.skippedItems +
      (run.setWorker n .ended).inFlight ≤ run.dispatchedBefore + run.cursor
    omega
  · intro i below
    rcases base.covered i below with mem | marked
    · exact .inl (still_fetching hit _ Worker.noConfusion mem)
    · exact .inr marked
  · change ((run.workers.set n .ended).length : ℤ) ≤ _
    rw [length_set]
    exact base.width

theorem Sound.catchInWorker (sound : Sound bounds run log)
    (hit : run.workers[n]? = some worker) (alive : worker ≠ .ended) (error : Thrown) :
    Sound bounds (catchInWorker n error run).1 (log ++ (catchInWorker n error run).2) := by
  have base := sound.base
  have started : run.phase = .fetching := base.fetching hit alive
  have some_error : (run.firstError.or (some error)).isSome = true := by
    cases run.firstError <;> rfl
  refine ⟨?_,fun running => ?_⟩
  · have moved : Base bounds { run.setWorker n .ended with
        terminated := true, firstError := run.firstError.or (some error) } log := by
      refine { base with idle := ?_, counted := ?_, covered := ?_, width := ?_ }
      · intro elsewhere
        exact absurd started elsewhere
      · have fewer := inFlight_setWorker hit .ended
        have bound := base.counted
        change run.progress.fetchedItems + run.progress.skippedItems +
          (run.setWorker n .ended).inFlight ≤ run.dispatchedBefore + run.cursor
        simp only [Worker.isFetching,Bool.false_eq_true,if_false] at fewer
        omega
      · intro i below
        exact .inr (.inr (.inr some_error))
      · change ((run.workers.set n .ended).length : ℤ) ≤ _
        rw [length_set]
        exact base.width
    apply moved.note
    · trivial
    · intro answers
      cases answers
    · intro i ref out same
      cases same
  · have marked : Alert { run.setWorker n .ended with
        terminated := true, firstError := run.firstError.or (some error) } log := by
      refine ⟨fun _ _ _ => isStopped_iff.mpr (.inl rfl),fun _ _ _ => ?_⟩
      exact .inr (.inl some_error)
    apply marked.note
    · intro _
      exact isStopped_iff.mpr (.inl rfl)
    · intro _
      exact .inr (.inl some_error)

theorem Sound.throw (sound : Sound bounds run log) (n : ℕ) (error : Thrown) :
    Sound bounds (throw n error run).1 (log ++ (throw n error run).2) := by
  rw [ConnectorSync.throw]
  split
  next i hit => exact sound.catchInWorker hit Worker.noConfusion error
  next =>
    rw [append_nil]
    exact sound

theorem Sound.turn (sound : Sound bounds run log) (n : ℕ) (now : ℚ) :
    Sound bounds (turn n now run).1 (log ++ (turn n now run).2) := by
  have base := sound.base
  rw [ConnectorSync.turn]
  split
  next hit =>
    have started : run.phase = .fetching := base.fetching hit Worker.noConfusion
    have alert := sound.alert (by rw [started]; exact Phase.noConfusion)
    have stays : Sound bounds (run.setWorker n .ended) log :=
      ⟨base.endWorker hit,fun _ => ⟨alert.stopped,alert.spoilt⟩⟩
    split
    next below =>
      split
      next =>
        rw [append_nil]
        exact stays
      next unstopped =>
        split
        next =>
          refine ⟨?_,fun _ => ?_⟩
          · have moved : Base bounds { run.setWorker n .ended with terminated := true } log :=
              have ended := base.endWorker hit
              { ended with }
            apply moved.note
            · trivial
            · intro answers
              cases answers
            · intro i ref out same
              cases same
          · have marked : Alert { run.setWorker n .ended with terminated := true } log :=
              ⟨fun _ _ _ => isStopped_iff.mpr (.inl rfl),alert.spoilt⟩
            exact marked.note (fun _ => isStopped_iff.mpr (.inl rfl)) Bool.noConfusion
        next =>
          have undisturbed : ∀ note ∈ log, note.stops = false := by
            intro note mem
            apply Bool.eq_false_iff.mpr
            intro stops
            exact unstopped (alert.stopped note mem stops)
          refine ⟨?_,fun _ => ?_⟩
          · have moved : Base bounds { run.setWorker n (.fetching run.cursor) with
                cursor := run.cursor + 1 } log := by
              refine { base with
                idle := ?_, counted := ?_, covered := ?_, width := ?_, early := ?_ }
              · intro elsewhere
                exact absurd started elsewhere
              · have more := inFlight_setWorker hit (.fetching run.cursor)
                have bound := base.counted
                simp only [Worker.isFetching,Bool.false_eq_true,if_false,if_true] at more
                change run.progress.fetchedItems + run.progress.skippedItems +
                  (run.setWorker n (.fetching run.cursor)).inFlight ≤ run.dispatchedBefore + (run.cursor + 1)
                omega
              · intro i inside
                rcases Nat.lt_succ_iff_lt_or_eq.mp inside with earlier | rfl
                · rcases base.covered i earlier with fetching | marked
                  · exact .inl (still_fetching hit _ Worker.noConfusion fetching)
                  · exact .inr marked
                · refine .inl ⟨n,?_⟩
                  exact List.getElem?_set_self (List.getElem?_eq_some_iff.mp hit).1
              · change ((run.workers.set n (.fetching run.cursor)).length : ℤ) ≤ _
                rw [length_set]
                exact base.width
              · intro early
                rw [RunState.setWorker] at early
                simp only [started] at early
                rcases early with created | enumerating
                · cases created
                · cases enumerating
            apply moved.note
            · exact undisturbed
            · intro answers
              cases answers
            · intro i ref out same
              cases same
          · have same : Alert { run.setWorker n (.fetching run.cursor) with
                cursor := run.cursor + 1 } log := ⟨alert.stopped,alert.spoilt⟩
            exact same.note Bool.noConfusion Bool.noConfusion
    next =>
      rw [append_nil]
      exact stays
  next =>
    rw [append_nil]
    exact sound

theorem applyOutcome_frame (ref : ItemRef ρ) (out : ItemFetchOutcome) (run : RunState ρ) :
    let applied := applyOutcome ref out run
    applied.phase = run.phase ∧ applied.terminal = run.terminal ∧ applied.aborted = run.aborted ∧
      applied.terminated = run.terminated ∧ applied.firstError = run.firstError ∧
      applied.refs = run.refs ∧ applied.cursor = run.cursor ∧ applied.workers = run.workers ∧
      applied.dispatchedBefore = run.dispatchedBefore := by
  cases out <;> exact ⟨rfl,rfl,rfl,rfl,rfl,rfl,rfl,rfl,rfl⟩

theorem applyOutcome_counts (ref : ItemRef ρ) (out : ItemFetchOutcome) (run : RunState ρ) :
    (applyOutcome ref out run).progress.fetchedItems + (applyOutcome ref out run).progress.skippedItems ≤
      run.progress.fetchedItems + run.progress.skippedItems + 1 := by
  cases out <;> simp only [applyOutcome] <;> omega

theorem applyOutcome_fatal (ref : ItemRef ρ) (run : RunState ρ)
    (marked : out.isFatal = true ∨ run.fatalReason.isSome = true) :
    (applyOutcome ref out run).fatalReason.isSome = true := by
  cases out with
  | fatal reason =>
    rw [applyOutcome]
    cases run.fatalReason <;> rfl
  | _ => exact marked.resolve_left Bool.false_ne_true

theorem mem_missing_applyOutcome :
    key ∈ (applyOutcome ref outcome run).missingItemKeys ↔
      key ∈ run.missingItemKeys ∨ outcome = .missing ∧ key = ref.itemKey := by
  cases outcome with
  | missing =>
    rw [applyOutcome,Distinct.mem_add]
    simp
  | _ => simp [applyOutcome]

theorem mem_keys_applyOutcome :
    key ∈ (applyOutcome ref outcome run).enumeratedItemKeys ↔
      key ∈ run.enumeratedItemKeys ∧ ¬ (outcome = .missing ∧ key = ref.itemKey) := by
  cases outcome with
  | missing =>
    rw [applyOutcome,mem_filter]
    simp
  | _ => simp [applyOutcome]

theorem mem_items_applyOutcome {item : SyncItem} (mem : item ∈ (applyOutcome ref out run).items) :
    item ∈ run.items ∧ ¬ (out = .missing ∧ item.itemKey = ref.itemKey) ∨
      out = .item item ∧ ref.itemKey ∉ run.missingItemKeys := by
  cases out with
  | item fetched =>
    rw [applyOutcome] at mem
    split at mem
    next => exact .inl ⟨mem,fun gone => by cases gone.1⟩
    next here =>
      rcases mem_append.mp mem with old | new
      · exact .inl ⟨old,fun gone => by cases gone.1⟩
      · rw [mem_singleton] at new
        rw [new]
        exact .inr ⟨rfl,here⟩
  | missing =>
    rw [applyOutcome,removeItemsByKey,mem_filter] at mem
    refine .inl ⟨mem.1,fun gone => ?_⟩
    exact of_decide_eq_true mem.2 gone.2
  | skipped reason => exact .inl ⟨mem,fun gone => by cases gone.1⟩
  | fatal reason => exact .inl ⟨mem,fun gone => by cases gone.1⟩

theorem Sound.applyOutcome (sound : Sound bounds run log)
    (hit : run.workers[n]? = some (.fetching i)) (here : run.refs[i]? = some ref)
    (out : ItemFetchOutcome) :
    Sound bounds ((applyOutcome ref out run).setWorker n .looping)
      (log ++ [.settled i ref out]) := by
  have base := sound.base
  have started : run.phase = .fetching := base.fetching hit Worker.noConfusion
  obtain ⟨phase,terminal,aborted,terminated,error,refs,cursor,workers,pre⟩ :=
    applyOutcome_frame ref out run
  have alert := sound.alert (by rw [started]; exact Phase.noConfusion)
  have old {note : Note ρ} (mem : note ∈ log) : note ∈ log ++ [.settled i ref out] := mem_append_left _ mem
  have settled_index : out.isFatal = false → Settled
      ((ConnectorSync.applyOutcome ref out run).setWorker n .looping)
      (log ++ [.settled i ref out]) i := by
    intro counts
    refine ⟨ref,out,?_,mem_append_right _ mem_cons_self,counts⟩
    rw [RunState.setWorker,refs]
    exact here
  refine ⟨⟨base.lawful.snoc trivial,?_,?_,?_,?_,?_,?_,?_,?_,?_,?_,?_⟩,fun _ => ⟨?_,?_⟩⟩
  · intro live note mem
    rcases mem_append.mp mem with earlier | new
    · apply base.unanswered
      · rw [← terminal]
        exact live
      · exact earlier
    · rw [mem_singleton.mp new]
      rfl
  · intro running
    rw [RunState.setWorker,terminal]
    apply base.running
    rw [started]
    exact Phase.noConfusion
  · intro elsewhere
    rw [RunState.setWorker,phase] at elsewhere
    exact absurd started elsewhere
  · intro _
    obtain ⟨noted,within⟩ := base.enumerated started
    rw [RunState.setWorker,refs]
    exact ⟨old noted,within⟩
  · have counts := applyOutcome_counts ref out run
    have found' : (ConnectorSync.applyOutcome ref out run).workers[n]? = some (.fetching i) := by
      rw [workers]
      exact hit
    have fewer := inFlight_setWorker found' .looping
    simp only [Worker.isFetching,Bool.false_eq_true,if_false,if_true] at fewer
    have same : (ConnectorSync.applyOutcome ref out run).inFlight = run.inFlight := by
      rw [RunState.inFlight,workers]
      rfl
    have bound := base.counted
    change (ConnectorSync.applyOutcome ref out run).progress.fetchedItems +
      (ConnectorSync.applyOutcome ref out run).progress.skippedItems + _ ≤
        (ConnectorSync.applyOutcome ref out run).dispatchedBefore +
          (ConnectorSync.applyOutcome ref out run).cursor
    rw [cursor,pre]
    omega
  · intro other below
    rw [RunState.setWorker,cursor] at below
    by_cases this : other = i
    · rw [this]
      cases counts : out.isFatal with
      | false => exact .inr (.inl (settled_index counts))
      | true => exact .inr (.inr (.inl (applyOutcome_fatal ref run (.inl counts))))
    · rcases base.covered other below with fetching | settled | fatal | failed
      · apply Or.inl
        rw [RunState.setWorker,workers]
        apply still_fetching hit
        · intro same
          exact this (Worker.fetching.inj same).symm
        · exact fetching
      · obtain ⟨its_ref,its_outcome,stands,noted,counts⟩ := settled
        refine .inr (.inl ⟨its_ref,its_outcome,?_,old noted,counts⟩)
        rw [RunState.setWorker,refs]
        exact stands
      · exact .inr (.inr (.inl (applyOutcome_fatal ref run (.inr fatal))))
      · refine .inr (.inr (.inr ?_))
        rw [RunState.setWorker,error]
        exact failed
  · rw [RunState.setWorker,workers,length_set]
    exact base.width
  · intro _ key
    rw [RunState.setWorker,refs]
    simp only
    rw [mem_keys_applyOutcome,mem_missing_applyOutcome,base.keys started key]
    tauto
  · intro other_index other mem
    rw [RunState.setWorker,mem_missing_applyOutcome]
    rcases mem_append.mp mem with earlier | new
    · exact .inl (base.missing _ _ earlier)
    · cases mem_singleton.mp new
      exact .inr ⟨rfl,rfl⟩
  · intro carries item mem
    rw [RunState.setWorker,refs]
    simp only
    rw [mem_missing_applyOutcome]
    rcases mem_items_applyOutcome mem with ⟨kept,stays⟩ | ⟨fetched,fresh⟩
    · obtain ⟨known,still⟩ := base.items carries.of_append item kept
      exact ⟨known,fun gone => gone.elim still stays⟩
    · have key : item.itemKey = ref.itemKey := by
        apply carries i ref item
        rw [fetched]
        exact mem_append_right _ mem_cons_self
      rw [key]
      refine ⟨⟨ref,mem_of_getElem? here,rfl⟩,fun gone => ?_⟩
      rcases gone with missing | also
      · exact fresh missing
      · rw [fetched] at also
        cases also.1
  · intro early
    rw [RunState.setWorker,phase,started] at early
    rcases early with created | enumerating
    · cases created
    · cases enumerating
  · intro note mem stops
    rw [isStopped_iff,RunState.setWorker,terminated,aborted]
    rcases mem_append.mp mem with earlier | new
    · rcases isStopped_iff.mp (alert.stopped note earlier stops) with one | two | three
      · exact .inl one
      · exact .inr (.inl two)
      · exact .inr (.inr (applyOutcome_fatal ref run (.inr three)))
    · rw [mem_singleton.mp new] at stops
      exact .inr (.inr (applyOutcome_fatal ref run (.inl stops)))
  · intro note mem spoils
    rw [RunState.setWorker,error,aborted]
    rcases mem_append.mp mem with earlier | new
    · rcases alert.spoilt note earlier spoils with one | two | three
      · exact .inl one
      · exact .inr (.inl two)
      · exact .inr (.inr (applyOutcome_fatal ref run (.inr three)))
    · rw [mem_singleton.mp new] at spoils
      exact .inr (.inr (applyOutcome_fatal ref run (.inl spoils)))

theorem Sound.settle (sound : Sound bounds run log) (n : ℕ) (out : ItemFetchOutcome)
    (reaction : Reaction) : Sound bounds (settle n out reaction run).1
      (log ++ (settle n out reaction run).2) := by
  rw [ConnectorSync.settle]
  split
  next i hit =>
    split
    next =>
      rw [append_nil]
      exact sound
    next ref here =>
      have applied := sound.applyOutcome hit here out
      have told := applied.emitProgress reaction
      obtain ⟨aborted,reached⟩ := emitProgress_state reaction
        ((ConnectorSync.applyOutcome ref out run).setWorker n .looping)
      simp only [Effect.andThen,Effect.note]
      rw [← append_assoc,← append_assoc]
      cases reaction.throws with
      | none =>
        change Sound bounds _ (_ ++ [])
        rw [append_nil]
        exact told
      | some error =>
        refine @Sound.catchInWorker _ _ _ _ n .looping told ?_ Worker.noConfusion error
        rw [reached]
        obtain ⟨_,_,_,_,_,_,_,workers,_⟩ := applyOutcome_frame ref out run
        simp only [RunState.setWorker]
        rw [workers]
        exact List.getElem?_set_self (List.getElem?_eq_some_iff.mp hit).1
  next =>
    rw [append_nil]
    exact sound

theorem Sound.complete (sound : Sound bounds run log) (started : run.phase = .fetching)
    (ended : ∀ worker ∈ run.workers, worker = .ended) (unfailed : run.firstError = none)
    (unaborted : run.aborted = false) (unfatal : run.fatalReason = none)
    (full : run.refs.length ≤ run.progress.fetchedItems + run.progress.skippedItems - run.dispatchedBefore) :
    Complete bounds log run.items run.enumeratedItemKeys run.refs := by
  have base := sound.base
  have alert := sound.alert (by rw [started]; exact Phase.noConfusion)
  have clean : ¬ (run.aborted = true ∨ run.firstError.isSome = true ∨ run.fatalReason.isSome = true) := by
    rw [unaborted,unfailed,unfatal]
    simp
  obtain ⟨noted,within⟩ := base.enumerated started
  refine ⟨noted,within,?_,?_,?_,?_,?_⟩
  · intro i ref here
    have inside := (List.getElem?_eq_some_iff.mp here).1
    have below : i < run.cursor := by
      have bound := base.counted
      omega
    rcases base.covered i below with fetching | settled | fatal | failed
    · obtain ⟨n,hit⟩ := fetching
      cases ended _ (mem_of_getElem? hit)
    · obtain ⟨its_ref,out,stands,mem,counts⟩ := settled
      cases Option.some.inj (stands.symm.trans here)
      exact ⟨out,mem,counts⟩
    · exact absurd (.inr (.inr fatal)) clean
    · exact absurd (.inr (.inl failed)) clean
  · intro note mem
    apply Bool.eq_false_iff.mpr
    intro spoils
    exact clean (alert.spoilt note mem spoils)
  · intro key mem
    exact ((base.keys started key).mp mem).1
  · intro i ref mem inside
    exact ((base.keys started _).mp inside).2 (base.missing i ref mem)
  · intro carries item mem
    exact (base.keys started _).mpr (base.items carries item mem)

theorem Sound.allSettled (sound : Sound bounds run log) :
    Sound bounds (allSettled run).1 (log ++ (allSettled run).2) := by
  rw [ConnectorSync.allSettled]
  split
  next all =>
    obtain ⟨started,every⟩ := all
    have ended : ∀ worker ∈ run.workers, worker = .ended := by
      intro worker mem
      exact of_decide_eq_true (all_eq_true.mp every worker mem)
    have live : run.terminal = false :=
      sound.base.running (by rw [started]; exact Phase.noConfusion)
    split
    next error failed => exact sound.base.catchInPipeline live ended error
    next unfailed =>
      apply sound.base.answer live ended
      intro xs keys failures progress same
      rw [terminalOutcome] at same
      split at same
      next => cases same
      next unaborted =>
        split at same
        next => cases same
        next unfatal =>
          split at same
          next full =>
            cases same
            exact ⟨run.refs,sound.complete started ended unfailed (Bool.eq_false_iff.mpr unaborted)
              unfatal (of_decide_eq_true full)⟩
          next => cases same
  next =>
    rw [append_nil]
    exact sound

theorem Sound.effect (sound : Sound bounds run log) (ev : Event ρ) :
    Sound bounds (effect bounds ev run).1 (log ++ (effect bounds ev run).2) := by
  cases ev with
  | call now => exact sound.call now
  | enumerated out reaction => exact sound.enumerated out reaction
  | enumerationThrows error =>
    change Sound bounds (enumerationThrows error run).1 (log ++ (enumerationThrows error run).2)
    rw [enumerationThrows]
    split
    next enumerating =>
      have unsettled : run.phase ≠ .settled := by
        rw [enumerating]
        exact Phase.noConfusion
      have idle : run.phase ≠ .fetching := by
        rw [enumerating]
        exact Phase.noConfusion
      exact sound.base.throwInPipeline (sound.base.running unsettled) (sound.base.idle idle) error
    next =>
      rw [append_nil]
      exact sound
  | turn worker now => exact sound.turn worker now
  | settle worker out reaction => exact sound.settle worker out reaction
  | throw worker error => exact sound.throw worker error
  | allSettled => exact sound.allSettled
  | abort => exact sound.abort

theorem sound_run (bounds : SyncBounds) (evs : List (Event ρ)) :
    Sound bounds ((machine bounds).run evs) ((machine bounds).noted evs) := by
  apply Machine.holds_of_step (Sound bounds)
  · exact Sound.start
  · intro run log ev sound
    exact sound.effect ev

end Pool

section Run

variable {bounds : SyncBounds} {log : List (Note ρ)}

theorem silent_behind (lawful : Lawful (Allowed bounds) log) {pre after : List (Note ρ)}
    {verdict : Note ρ} (split : log = pre ++ verdict :: after)
    (answers : verdict.isAnswer = true) (counts : ProgressCounts) : .progress counts ∉ after := by
  intro mem
  obtain ⟨a,b,rfl⟩ := append_of_mem mem
  have allowed := lawful (pre ++ verdict :: a) (.progress counts) b (by simp [split])
  have quiet := allowed verdict (mem_append_right _ mem_cons_self)
  rw [answers] at quiet
  cases quiet

/-- The sync run under any interleaving: what a completed answer rests on, the width of the pool,
no fetch behind a stop, and no progress behind the answer. -/
theorem machine_syncRun (bounds : SyncBounds) (events : List (Event ρ))
    (carries : Carries ((machine bounds).noted events)) :
    (∀ before after items keys failures progress, (machine bounds).noted events =
        before ++ .answered (.completed items keys failures progress) :: after →
      ∃ refs, .enumerated refs true ∈ before ∧ refs.length ≤ bounds.maxItems ∧
        (∀ (index : ℕ) ref, refs[index]? = some ref → ∃ outcome,
          .settled index ref outcome ∈ before ∧ outcome.isFatal = false) ∧
        (∀ note ∈ before, note.spoils = false) ∧
        (∀ item ∈ items, item.itemKey ∈ keys) ∧
        (∀ key ∈ keys, ∃ ref ∈ refs, ref.itemKey = key) ∧
        (∀ index ref, .settled index ref .missing ∈ before →
          ref.itemKey ∉ keys ∧ ∀ item ∈ items, item.itemKey ≠ ref.itemKey)) ∧
    ((machine bounds).run events).inFlight ≤ max 1 bounds.maxConcurrency ∧
    (∀ before index after, (machine bounds).noted events = before ++ .started index :: after →
      ∀ note ∈ before, note.stops = false) ∧
    (∀ before verdict after counts, (machine bounds).noted events = before ++ verdict :: after →
      verdict.isAnswer = true → .progress counts ∉ after) := by
  have base := (sound_run bounds events).base
  refine ⟨?_,?_,?_,?_⟩
  · intro before after items keys failures progress split
    obtain ⟨_,completed⟩ := base.lawful _ _ _ split
    obtain ⟨refs,complete⟩ := completed _ _ _ _ rfl
    rw [split] at carries
    have inside := complete.carried carries.of_append
    refine ⟨refs,complete.enumerated,complete.within,complete.settled,complete.unspoilt,inside,
      complete.known,?_⟩
    intro index ref member
    refine ⟨complete.gone index ref member,?_⟩
    intro item listed same
    apply complete.gone index ref member
    rw [← same]
    exact inside item listed
  · have width := base.width
    have within : ((machine bounds).run events).inFlight ≤
        ((machine bounds).run events).workers.length := countP_le_length
    omega
  · intro before index after split
    exact base.lawful _ _ _ split
  · intro before verdict after counts split answers
    exact silent_behind base.lawful split answers counts

def Note.carriesKey : Note ρ → Bool
  | .settled _ ref (.item item) => decide (item.itemKey = ref.itemKey)
  | _ => true

theorem carries_of_all (all : log.all Note.carriesKey = true) : Carries log :=
  fun _ _ _ mem => of_decide_eq_true (all_eq_true.mp all _ mem)

/-- Two refs of one page, which vanishes behind the first fetch, and one of another page. -/
def vanishingPage : List (Event Unit) :=
  let page (key : Char) : SyncItem := ⟨[key],[],[],[],0,none,none⟩
  let quiet : Reaction := ⟨false,none⟩
  [.call 0,.enumerated (.refs [⟨['a'],()⟩,⟨['a'],()⟩,⟨['b'],()⟩] true) quiet,.turn 0 1,.turn 1 1,
    .settle 0 (.item (page 'a')) quiet,.settle 1 .missing quiet,.turn 0 2,.turn 1 2,
    .settle 0 (.item (page 'b')) quiet,.turn 0 3,.allSettled]

theorem machine_syncRun_vanishingPage :
    (((machine ⟨10,100,2⟩).run vanishingPage).inFlight : ℤ) ≤ max 1 2 ∧
      ((machine ⟨10,100,2⟩).run vanishingPage).enumeratedItemKeys = [['b']] := by
  constructor
  · have carries : Carries ((machine ⟨10,100,2⟩).noted vanishingPage) :=
      carries_of_all (by decide +kernel)
    exact (machine_syncRun ⟨10,100,2⟩ vanishingPage carries).2.1
  · decide +kernel

end Run

end Keiko.ConnectorSync
