import Keiko.RunOperation

/-! What the operations on a run guarantee. The committed ids tell of every accepted request that can
still be asked for again, because an acceptance leaves the run behind the next revision; and the
generation of the newest turn is the one that settles, unless a replacement is reserved. -/
namespace Keiko.RunOperation
open Keiko.Library Keiko.Runtime List Option

section Law

variable (before : List Note)

def Overtaken (turn : Nat) : Prop :=
  (∃ later generation, turn < later ∧ .began later generation ∈ before) ∨
    ∃ front back, before = front ++ .kept :: back ∧ ∃ generation, .began turn generation ∈ front

def Unanswered (requestId : Text) (expected : Nat) : Prop :=
  ∃ front back, before = front ++ .sent requestId expected :: back ∧ .released requestId ∉ back ∧
    ∀ applied, .accepted requestId expected applied ∉ back

/-- A request is not sent again before it was released, nor once it was accepted, nor at the revision
behind the one that its id was accepted at, and only the newest turn settles the run, once. -/
def Allowed : Note → Prop
  | .sent requestId expected => ¬ Unanswered before requestId expected ∧
      ∀ other applied, .accepted requestId other applied ∈ before → other ≠ expected ∧ applied + 1 ≠ expected
  | .accepted requestId expected applied => .sent requestId expected ∈ before ∧ expected ≤ applied ∧
      ∀ other, .accepted requestId expected other ∉ before
  | .began turn generation => ∀ other previous, .began other previous ∈ before →
      other < turn ∧ previous < generation
  | .ended turn _ => (∃ generation, .began turn generation ∈ before) ∧
      ∀ outcome, .ended turn outcome ∉ before
  | .settled turn outcome => .ended turn outcome ∈ before ∧ (∀ other, .settled turn other ∉ before) ∧
      ∀ other generation, .began other generation ∈ before → other ≤ turn
  | _ => True

end Law

section Invariants

/-- The committed ids are accepted requests, and an accepted request is among them until the run is
two revisions behind it. -/
structure Replayed (run : Run) (notes : List Note) : Prop where
  records : ∀ record ∈ run.committed, ∃ expected, .accepted record.1 expected record.2 ∈ notes
  kept : ∀ requestId expected applied, .accepted requestId expected applied ∈ notes →
    (∃ revision, (requestId,revision) ∈ run.committed ∧ applied ≤ revision) ∨ applied + 2 ≤ run.row.revision

def Advanced (run : Run) (notes : List Note) : Prop :=
  ∀ requestId expected applied, .accepted requestId expected applied ∈ notes →
    expected ≤ applied ∧ applied + 1 ≤ run.row.revision

def Run.base (run : Run) : Nat :=
  match run.pendingGeneration with
  | some pending => pending.previousGeneration
  | none => run.generation

structure Turned (run : Run) (notes : List Note) : Prop where
  began : ∀ turn generation, .began turn generation ∈ notes → turn < run.turns ∧ generation ≤ run.base
  ordered : ∀ turn generation other next, .began turn generation ∈ notes →
    .began other next ∈ notes → turn < other → generation < next
  named : ∀ turn generation other, .began turn generation ∈ notes → .began turn other ∈ notes → generation = other
  outstanding : ∀ turn generation, (turn,generation) ∈ run.outstanding ↔
    .began turn generation ∈ notes ∧ ∀ outcome, .ended turn outcome ∉ notes
  reserving : ∀ pending, run.pendingGeneration = some pending →
    run.generation = pending.previousGeneration + 1 ∧ pending.generation = run.generation ∧
      ∀ turn outcome, pending.predecessorOutcome = some (turn,outcome) →
        .ended turn outcome ∈ notes ∧ (∀ other, .settled turn other ∉ notes) ∧
          .began turn pending.previousGeneration ∈ notes
  settles : ∀ turn outcome, .ended turn outcome ∈ notes → .began turn run.base ∈ notes → .settled turn outcome ∈ notes ∨
      ∃ pending, run.pendingGeneration = some pending ∧ pending.predecessorOutcome = some (turn,outcome)
  overtaken : ∀ turn generation, .began turn generation ∈ notes → generation < run.base → Overtaken notes turn

def Job.reservation : Job → Option Reservation
  | .preparing _ _ => none
  | .starting reservation _ => some reservation
  | .resuming reservation _ => some reservation
  | .dispatching reservation _ _ => some reservation
  | .delivering reservation _ => some reservation
  | .reverting reservation _ _ => some reservation
  | .mutating reservation _ => some reservation
  | .listing reservation => some reservation

def Job.revision : Job → Nat
  | .preparing _ current => current.revision
  | .starting _ current => current.revision
  | .resuming _ current => current.revision
  | .dispatching _ live _ => live.revision
  | .delivering _ live => live.revision
  | .reverting _ current _ => current.revision
  | .mutating _ current => current.revision
  | .listing reservation => reservation.liveRevision

def Job.generation : Job → Option Nat
  | .dispatching _ _ generation => generation
  | .reverting _ _ generation => generation
  | _ => none

def Job.isSent : Job → Bool
  | .preparing _ _ => false
  | .resuming _ _ => false
  | .listing _ => false
  | _ => true

def Job.isExact : Job → Bool
  | .starting _ _ => true
  | .reverting _ _ _ => true
  | .mutating _ _ => true
  | _ => false

structure Holds (run : Run) (notes : List Note) (reservation : Reservation) : Prop where
  pending : run.pending = [reservation.requestId]
  committed : reservation.committed = run.committed
  unaccepted : ∀ expected applied, .accepted reservation.requestId expected applied ∈ notes →
    applied + 2 ≤ reservation.liveRevision
  free : ∀ record ∈ run.committed, record.1 ≠ reservation.requestId

structure Fits (run : Run) (notes : List Note) (job : Job) : Prop where
  revision : job.revision ≤ run.row.revision
  holds : ∀ reservation, job.reservation = some reservation →
    Holds run notes reservation ∧ reservation.liveRevision ≤ job.revision
  exactly : job.isExact = true → ∀ reservation, job.reservation = some reservation →
    reservation.liveRevision = job.revision
  sent : job.isSent = true → ∀ reservation, job.reservation = some reservation →
    .sent reservation.requestId reservation.liveRevision ∈ notes
  generation : run.pendingGeneration.map (·.generation) = job.generation
  preparing : job.reservation = none → run.pending = [] ∧
    ∀ requestId expected applied, .accepted requestId expected applied ∈ notes → applied + 1 ≤ job.revision ∧
        ((∃ revision, (requestId,revision) ∈ run.committed ∧ applied ≤ revision) ∨ applied + 2 ≤ job.revision)
  unanswered : ∀ requestId expected, Unanswered notes requestId expected → job.isSent = true ∧
    ∃ reservation, job.reservation = some reservation ∧ reservation.requestId = requestId ∧
      reservation.liveRevision = expected

def Answered (notes : List Note) : Prop :=
  ∀ requestId expected, ¬ Unanswered notes requestId expected

def Working (run : Run) (notes : List Note) : Prop :=
  match run.job with
  | none => run.pending = [] ∧ run.pendingGeneration = none ∧ Answered notes
  | some job => Fits run notes job

structure Traced (run : Run) (notes : List Note) : Prop where
  lawful : Lawful Allowed notes
  replayed : Replayed run notes
  advanced : Advanced run notes
  turned : Turned run notes
  working : Working run notes

end Invariants

section Frames

variable {run run' : Run} {log more : List Note} {requestId : Text} {expected : Nat}

def Unaccepting (more : List Note) : Prop :=
  ∀ requestId expected applied, Note.accepted requestId expected applied ∉ more

theorem accepted_frame (plain : Unaccepting more) {applied : Nat} :
    .accepted requestId expected applied ∈ log ++ more ↔ Note.accepted requestId expected applied ∈ log := by
  rw [mem_append,or_iff_left]
  exact plain requestId expected applied

def Unsending (more : List Note) : Prop :=
  ∀ requestId expected, Note.sent requestId expected ∉ more

theorem Unanswered.of_append
    (unanswered : Unanswered (log ++ more) requestId expected) (plain : Unsending more) :
    Unanswered log requestId expected ∧ .released requestId ∉ more ∧
      ∀ applied, .accepted requestId expected applied ∉ more := by
  obtain ⟨front,back,same,unreleased,unaccepted⟩ := unanswered
  rcases append_eq_append_iff.mp same with ⟨rest,rfl,post⟩ | ⟨rest,rfl,post⟩
  · refine absurd ?_ (plain requestId expected)
    rw [post]
    exact mem_append_right _ mem_cons_self
  · cases rest with
    | nil =>
      refine absurd ?_ (plain requestId expected)
      rw [nil_append] at post
      rw [← post]
      exact mem_cons_self
    | cons a rest =>
      rw [cons_append,cons.injEq] at post
      obtain ⟨rfl,rfl⟩ := post
      rw [mem_append,not_or] at unreleased
      refine ⟨⟨front,rest,rfl,unreleased.1,?_⟩,unreleased.2,?_⟩
      · exact fun applied accepted => unaccepted applied (mem_append_left _ accepted)
      · exact fun applied accepted => unaccepted applied (mem_append_right _ accepted)

theorem Unanswered.of_sent {other : Text} {live : Nat}
    (unanswered : Unanswered (log ++ [.sent other live]) requestId expected) :
    Unanswered log requestId expected ∨ requestId = other ∧ expected = live := by
  obtain ⟨front,back,same,unreleased,unaccepted⟩ := unanswered
  rcases eq_nil_or_concat back with rfl | ⟨rest,last,rfl⟩
  · obtain ⟨_,own⟩ := append_inj' same rfl
    cases own
    exact .inr ⟨rfl,rfl⟩
  · rw [concat_eq_append,← cons_append,← append_assoc] at same
    obtain ⟨rfl,_⟩ := append_inj' same rfl
    rw [concat_eq_append,mem_append,not_or] at unreleased
    refine .inl ⟨front,rest,rfl,unreleased.1,?_⟩
    intro applied accepted
    refine unaccepted applied ?_
    rw [concat_eq_append]
    exact mem_append_left _ accepted

theorem Answered.append (answered : Answered log) (plain : Unsending more) : Answered (log ++ more) :=
  fun requestId expected unanswered => answered requestId expected (unanswered.of_append plain).1

theorem Replayed.frame (replayed : Replayed run log) (same : run'.committed = run.committed)
    (post : run.row.revision ≤ run'.row.revision) (plain : Unaccepting more) :
    Replayed run' (log ++ more) := by
  refine ⟨?_,?_⟩
  · intro r mem
    rw [same] at mem
    obtain ⟨expected,accepted⟩ := replayed.records r mem
    exact ⟨expected,mem_append_left _ accepted⟩
  · intro requestId expected applied accepted
    rw [same]
    exact (replayed.kept requestId expected applied ((accepted_frame plain).mp accepted)).imp_right
      fun behind => behind.trans post

theorem Advanced.frame (advanced : Advanced run log)
    (post : run.row.revision ≤ run'.row.revision) (plain : Unaccepting more) :
    Advanced run' (log ++ more) := by
  intro requestId expected applied accepted
  obtain ⟨a,behind⟩ := advanced requestId expected applied ((accepted_frame plain).mp accepted)
  exact ⟨a,behind.trans post⟩

theorem Overtaken.append {turn : Nat} (overtaken : Overtaken log turn) (more : List Note) :
    Overtaken (log ++ more) turn := by
  rcases overtaken with ⟨post,generation,after,began⟩ | ⟨front,back,rfl,generation,began⟩
  · exact .inl ⟨post,generation,after,mem_append_left _ began⟩
  · exact .inr ⟨front,back ++ more,by simp,generation,began⟩

def concernsTurns : Note → Bool
  | .began _ _ => true
  | .ended _ _ => true
  | .settled _ _ => true
  | _ => false

theorem turns_frame (plain : ∀ note ∈ more, concernsTurns note = false) {note : Note}
    (concerned : concernsTurns note = true) : note ∈ log ++ more ↔ note ∈ log := by
  rw [mem_append,or_iff_left]
  intro mem
  rw [plain note mem] at concerned
  cases concerned

theorem Turned.stay (turned : Turned run log) (turns : run'.turns = run.turns) (base : run'.base = run.base)
    (began : ∀ turn generation, Note.began turn generation ∈ log ++ more ↔ .began turn generation ∈ log)
    (outstanding : ∀ turn generation, (turn,generation) ∈ run'.outstanding ↔
      .began turn generation ∈ log ∧ ∀ outcome, .ended turn outcome ∉ log ++ more)
    (reserving : ∀ pending, run'.pendingGeneration = some pending →
      run'.generation = pending.previousGeneration + 1 ∧ pending.generation = run'.generation ∧
        ∀ turn outcome, pending.predecessorOutcome = some (turn,outcome) →
          .ended turn outcome ∈ log ++ more ∧ (∀ other, .settled turn other ∉ log ++ more) ∧
            .began turn pending.previousGeneration ∈ log)
    (settles : ∀ turn outcome, .ended turn outcome ∈ log ++ more → .began turn run.base ∈ log →
      .settled turn outcome ∈ log ++ more ∨ ∃ pending, run'.pendingGeneration = some pending ∧
        pending.predecessorOutcome = some (turn,outcome)) : Turned run' (log ++ more) := by
  refine ⟨?_,?_,?_,?_,?_,?_,?_⟩ <;> simp only [turns,base,began]
  · exact turned.began
  · exact turned.ordered
  · exact turned.named
  · exact outstanding
  · exact reserving
  · exact settles
  · intro turn generation mem less
    exact (turned.overtaken turn generation mem less).append more

theorem Turned.frame (turned : Turned run log) (turns : run'.turns = run.turns)
    (generation : run'.generation = run.generation)
    (pending : run'.pendingGeneration = run.pendingGeneration)
    (outstanding : run'.outstanding = run.outstanding)
    (plain : ∀ note ∈ more, concernsTurns note = false) : Turned run' (log ++ more) := by
  have ended (turn : Nat) (outcome : TaskOutcome) : Note.ended turn outcome ∈ log ++ more ↔
      .ended turn outcome ∈ log := turns_frame plain rfl
  have settled (turn : Nat) (outcome : TaskOutcome) : Note.settled turn outcome ∈ log ++ more ↔
      .settled turn outcome ∈ log := turns_frame plain rfl
  apply turned.stay turns (by rw [Run.base,Run.base,pending,generation]) (fun _ _ => turns_frame plain rfl)
  all_goals simp only [generation,pending,outstanding,ended,settled]
  · exact turned.outstanding
  · exact turned.reserving
  · exact turned.settles

theorem Turned.same (turned : Turned run log) (turns : run'.turns = run.turns)
    (generation : run'.generation = run.generation)
    (pending : run'.pendingGeneration = run.pendingGeneration)
    (outstanding : run'.outstanding = run.outstanding) : Turned run' log := by
  have none_added := @Turned.frame run run' log [] turned turns generation pending outstanding (by simp)
  rw [append_nil] at none_added
  exact none_added

def isQuiet : Note → Bool
  | .sent _ _ => true
  | .released _ => true
  | .refused _ => true
  | _ => false

theorem unaccepting_of_quiet (quiet : more.all isQuiet = true) : Unaccepting more := by
  intro requestId expected applied mem
  cases all_eq_true.mp quiet _ mem

theorem turns_of_quiet (quiet : more.all isQuiet = true) : ∀ note ∈ more, concernsTurns note = false := by
  intro note mem
  have here := all_eq_true.mp quiet note mem
  cases note <;> first | rfl | cases here

structure Ruled (run : Run) (log : List Note) : Prop where
  lawful : Lawful Allowed log
  replayed : Replayed run log
  advanced : Advanced run log
  turned : Turned run log

theorem Traced.ruled (traced : Traced run log) : Ruled run log :=
  ⟨traced.lawful,traced.replayed,traced.advanced,traced.turned⟩

theorem Ruled.traced (ruled : Ruled run log) (quiet : more.all isQuiet = true)
    (lawful : Lawful Allowed (log ++ more)) (committed : run'.committed = run.committed)
    (post : run.row.revision ≤ run'.row.revision) (turns : run'.turns = run.turns)
    (generation : run'.generation = run.generation)
    (pending : run'.pendingGeneration = run.pendingGeneration)
    (outstanding : run'.outstanding = run.outstanding) (working : Working run' (log ++ more)) :
    Traced run' (log ++ more) :=
  ⟨lawful,ruled.replayed.frame committed post (unaccepting_of_quiet quiet),
    ruled.advanced.frame post (unaccepting_of_quiet quiet),
    ruled.turned.frame turns generation pending outstanding (turns_of_quiet quiet),working⟩

end Frames

section Reserving

variable {run : Run} {log : List Note} {req : Text} {liveRevision : Nat} {job : Job} {run' : Run}

theorem Replayed.evict (replayed : Replayed run log) (behind : liveRevision ≤ run.row.revision) :
    Replayed { run with committed := evictSuperseded run.committed liveRevision } log := by
  refine ⟨?_,?_⟩
  · intro r mem
    exact replayed.records r (mem_filter.mp mem).1
  · intro id expected applied accepted
    rcases replayed.kept id expected applied accepted with ⟨revision,mem,post⟩ | gone
    · by_cases superseded : revision + 1 < liveRevision
      · refine .inr ?_
        change applied + 2 ≤ run.row.revision
        omega
      · exact .inl ⟨revision,mem_filter.mpr ⟨mem,by simpa using superseded⟩,post⟩
    · exact .inr gone

theorem hasId_eq_false {committed : List (Text × Nat)} :
    hasId committed req = false ↔ ∀ r ∈ committed, r.1 ≠ req := by
  simp [hasId]

theorem unaccepted_of_free {applied : Nat}
    (kept : (∃ revision, (req,revision) ∈ run.committed ∧ applied ≤ revision) ∨ applied + 2 ≤ liveRevision)
    (free : hasId (evictSuperseded run.committed liveRevision) req = false) :
    applied + 2 ≤ liveRevision := by
  rcases kept with ⟨revision,mem,post⟩ | gone
  · by_contra recent
    have stays : (req,revision) ∈ evictSuperseded run.committed liveRevision := by
      refine mem_filter.mpr ⟨mem,?_⟩
      have notSuperseded : ¬ revision + 1 < liveRevision := by omega
      simpa using notSuperseded
    exact hasId_eq_false.mp free _ stays rfl
  · exact gone

theorem reserve_cases (run : Run) (req : Text) (liveRevision : Nat) :
    (∃ rejection, reserve run req liveRevision =
        ({ run with committed := evictSuperseded run.committed liveRevision },.error rejection)) ∨
      hasId (evictSuperseded run.committed liveRevision) req = false ∧ reserve run req liveRevision =
          ({ run with
              committed := evictSuperseded run.committed liveRevision
              pending := run.pending ++ [req] },
            .ok ⟨req,liveRevision,evictSuperseded run.committed liveRevision⟩) := by
  rw [reserve]
  simp only
  split
  · exact .inl ⟨_,rfl⟩
  · split
    · exact .inl ⟨_,rfl⟩
    next free =>
      simp only [Bool.or_eq_true,not_or,Bool.not_eq_true] at free
      exact .inr ⟨free.1,rfl⟩

structure Admitted (run : Run) (log : List Note) (current : Snapshot)
    (slot : Reservation) : Prop where
  lawful : Lawful Allowed log
  replayed : Replayed run log
  advanced : Advanced run log
  turned : Turned run log
  holds : Holds run log slot
  live : slot.liveRevision = current.revision
  current : current.revision ≤ run.row.revision
  free : run.job = none
  settled : run.pendingGeneration = none
  answered : Answered log

theorem Admitted.ruled {current : Snapshot} {slot : Reservation}
    (admitted : Admitted run log current slot) : Ruled run log :=
  ⟨admitted.lawful,admitted.replayed,admitted.advanced,admitted.turned⟩

theorem Traced.idle (traced : Traced run log) (free : run.job = none) :
    run.pending = [] ∧ run.pendingGeneration = none ∧ Answered log := by
  have working := traced.working
  rw [Working,free] at working
  exact working

theorem Traced.prepare (traced : Traced run log) (free : run.job = none)
    {tgt : Option Snapshot} (row : ∀ snapshot, tgt = some snapshot → snapshot = run.row)
    {states : List CodingWorkbenchRuntimeStateName} {expected : Nat} {policy : RevisionPolicy} {prepared : Except Text (Snapshot × Reservation)}
    (same : prepare run tgt states req expected policy = (run',prepared)) :
    match prepared with
    | .error _ => Traced run' log
    | .ok (current,slot) => Admitted run' log current slot ∧
        current = run'.row := by
  obtain ⟨pending,settled,answered⟩ := traced.idle free
  rw [RunOperation.prepare] at same
  split at same
  · cases same
    exact traced
  next snapshot admitted =>
    have own := row snapshot (filter_eq_some_iff.mp admitted).1
    subst own
    have evicted := traced.replayed.evict (le_refl run.row.revision)
    rcases reserve_cases run req run.row.revision with ⟨rejection,rejected⟩ | ⟨unused,taken⟩
    · rw [rejected] at same
      cases same
      refine ⟨traced.lawful,evicted,traced.advanced,traced.turned.same rfl rfl rfl rfl,?_⟩
      rw [Working]
      simp only [free]
      exact ⟨pending,settled,answered⟩
    · rw [taken] at same
      cases same
      refine ⟨⟨traced.lawful,?_,traced.advanced,traced.turned.same rfl rfl rfl rfl,
        ⟨?_,rfl,?_,?_⟩,rfl,le_refl _,free,settled,answered⟩,rfl⟩
      · exact ⟨evicted.records,evicted.kept⟩
      · simp [pending]
      · intro expected applied accepted
        exact @unaccepted_of_free run _ _ _ (traced.replayed.kept _ expected applied accepted) unused
      · exact hasId_eq_false.mp unused

variable {current : Snapshot} {slot : Reservation}

theorem Admitted.refuse (admitted : Admitted run log current slot) (failureCode : Text) :
    Traced ((release slot).andThen (refuse failureCode) run).1
      (log ++ ((release slot).andThen (RunOperation.refuse failureCode) run).2) := by
  have released : Lawful Allowed (log ++ [.released slot.requestId]) :=
    admitted.lawful.snoc trivial
  have lawful : Lawful Allowed (log ++ [.released slot.requestId] ++ [.refused failureCode]) :=
    released.snoc trivial
  rw [append_assoc] at lawful
  refine admitted.ruled.traced rfl lawful rfl (le_refl _) rfl rfl rfl rfl ?_
  have erased : run.pending.erase slot.requestId = [] := by
    rw [admitted.holds.pending]
    simp
  have free := admitted.free
  rw [Working]
  simp only [Effect.andThen,release,RunOperation.refuse,Effect.note,free]
  exact ⟨erased,admitted.settled,admitted.answered.append (by simp [Unsending])⟩

theorem Admitted.fits (admitted : Admitted run log current slot)
    (own : job.reservation = some slot) (revision : job.revision = current.revision) {more : List Note} (plain : Unaccepting more)
    (pending : run'.pending = run.pending) (committed : run'.committed = run.committed)
    (row : run'.row = run.row)
    (generation : run'.pendingGeneration.map (·.generation) = job.generation)
    (sent : job.isSent = true → .sent slot.requestId slot.liveRevision ∈ log ++ more)
    (unanswered : ∀ id expected, Unanswered (log ++ more) id expected → job.isSent = true ∧
      id = slot.requestId ∧ expected = slot.liveRevision) :
    Fits run' (log ++ more) job := by
  have holds : Holds run' (log ++ more) slot := by
    refine ⟨pending.trans admitted.holds.pending,admitted.holds.committed.trans committed.symm,?_,?_⟩
    · intro expected applied accepted
      exact admitted.holds.unaccepted expected applied ((accepted_frame plain).mp accepted)
    · rw [committed]
      exact admitted.holds.free
  have same : slot.liveRevision = job.revision := admitted.live.trans revision.symm
  refine ⟨?_,?_,?_,?_,generation,?_,?_⟩
  · rw [revision,row]
    exact admitted.current
  · intro other hit
    rw [own,some_inj] at hit
    subst hit
    exact ⟨holds,same.le⟩
  · intro _ other hit
    rw [own,some_inj] at hit
    subst hit
    exact same
  · intro isSent other hit
    rw [own,some_inj] at hit
    subst hit
    exact sent isSent
  · intro gone
    rw [own] at gone
    cases gone
  · intro id expected waiting
    obtain ⟨isSent,rfl,rfl⟩ := unanswered id expected waiting
    exact ⟨isSent,slot,own,rfl,rfl⟩

theorem Admitted.sendable (admitted : Admitted run log current slot) :
    Allowed log (.sent slot.requestId slot.liveRevision) := by
  refine ⟨admitted.answered _ _,?_⟩
  intro other applied accepted
  have old := admitted.holds.unaccepted other applied accepted
  have a := (admitted.advanced _ other applied accepted).1
  exact ⟨by omega,by omega⟩

theorem Admitted.send (admitted : Admitted run log current slot)
    (own : job.reservation = some slot) (revision : job.revision = current.revision)
    (generation : job.generation = none) (isSent : job.isSent = true) :
    Traced (send slot job run).1 (log ++ (RunOperation.send slot job run).2) := by
  refine admitted.ruled.traced rfl (admitted.lawful.snoc admitted.sendable) rfl (le_refl _) rfl rfl rfl rfl ?_
  refine admitted.fits own revision (unaccepting_of_quiet rfl) rfl rfl rfl ?_ ?_ ?_
  · change run.pendingGeneration.map _ = _
    rw [admitted.settled,generation]
    rfl
  · intro _
    exact mem_append_right _ mem_cons_self
  · intro id expected waiting
    rcases waiting.of_sent with before | own
    · exact absurd before (admitted.answered id expected)
    · exact ⟨isSent,own⟩

theorem Admitted.await (admitted : Admitted run log current slot)
    (own : job.reservation = some slot) (revision : job.revision = current.revision)
    (generation : job.generation = none) (unsent : job.isSent = false) :
    Traced (await job run).1 (log ++ (RunOperation.await job run).2) := by
  have lawful := admitted.lawful
  rw [← append_nil log] at lawful
  refine admitted.ruled.traced rfl lawful rfl (le_refl _) rfl rfl rfl rfl ?_
  refine admitted.fits own revision (unaccepting_of_quiet rfl) rfl rfl rfl ?_ ?_ ?_
  · change run.pendingGeneration.map _ = _
    rw [admitted.settled,generation]
    rfl
  · intro sent
    rw [unsent] at sent
    cases sent
  · intro id expected waiting
    have unsending : Unsending [] := by
      simp [Unsending]
    exact absurd (waiting.of_append unsending).1 (admitted.answered id expected)

end Reserving

section Turns

variable {run : Run} {log : List Note} {turn gen : Nat} {outcome : TaskOutcome}

theorem Turned.reserve (turned : Turned run log) (free : run.pendingGeneration = none) :
    Turned (reserveTaskGeneration run).1 (log ++ [.reserved]) := by
  refine turned.stay rfl (by simp [reserveTaskGeneration,Run.base,free]) (by simp) ?_ ?_ ?_
  · intro turn gen
    refine (turned.outstanding turn gen).trans ?_
    simp
  · intro pending same
    cases same
    refine ⟨rfl,rfl,?_⟩
    intro turn outcome arrived
    cases arrived
  · intro turn outcome ended began
    rcases turned.settles turn outcome (by simpa using ended) began with settled | ⟨pending,same,_⟩
    · exact .inl (mem_append_left _ settled)
    · rw [free] at same
      cases same

theorem Turned.keep (turned : Turned run log) {pending : PendingTaskGeneration}
    (reserved : run.pendingGeneration = some pending) :
    Turned (commitTaskGeneration run).1 (log ++ (commitTaskGeneration run).2) ∧
      ∀ turn gen, .began turn gen ∈ log → gen < run.generation := by
  have next := (turned.reserving pending reserved).1
  have older : ∀ turn gen, .began turn gen ∈ log → gen < run.generation := by
    intro turn gen began
    have below := (turned.began turn gen began).2
    rw [Run.base,reserved] at below
    change gen ≤ pending.previousGeneration at below
    omega
  refine ⟨?_,older⟩
  rw [commitTaskGeneration,reserved]
  refine ⟨?_,?_,?_,?_,?_,?_,?_⟩
  · intro turn gen began
    have before : Note.began turn gen ∈ log := by
      simpa using began
    exact ⟨(turned.began turn gen before).1,(older turn gen before).le⟩
  · intro turn gen other next began post
    exact turned.ordered turn gen other next (by simpa using began) (by simpa using post)
  · intro turn gen other began again
    exact turned.named turn gen other (by simpa using began) (by simpa using again)
  · intro turn gen
    refine (turned.outstanding turn gen).trans ?_
    simp
  · intro other same
    cases same
  · intro turn outcome _ began
    have before : Note.began turn run.generation ∈ log := by
      simpa [Run.base] using began
    exact absurd (older turn run.generation before) (lt_irrefl _)
  · intro turn gen began _
    exact .inr ⟨log,[],rfl,gen,by simpa using began⟩

theorem Turned.newest (turned : Turned run log) (began : .began turn run.base ∈ log) {other next : Nat}
    (post : .began other next ∈ log) : other ≤ turn := by
  by_contra after
  have above := turned.ordered turn run.base other next began post (by omega)
  have below := (turned.began other next post).2
  omega

theorem Turned.restore (turned : Turned run log) (lawful : Lawful Allowed log)
    {pending : PendingTaskGeneration} (reserved : run.pendingGeneration = some pending) :
    Lawful Allowed (log ++ (releaseTaskGeneration run).2) ∧
      Turned (releaseTaskGeneration run).1 (log ++ (releaseTaskGeneration run).2) := by
  obtain ⟨_,_,arrived⟩ := turned.reserving pending reserved
  have base : run.base = pending.previousGeneration := by
    rw [Run.base,reserved]
  have restored : Lawful Allowed (log ++ [.restored]) := lawful.snoc trivial
  rw [releaseTaskGeneration,reserved]
  simp only
  cases outcome : pending.predecessorOutcome with
  | none =>
    refine ⟨restored,turned.stay rfl base.symm (by simp) ?_ nofun ?_⟩
    · intro turn gen
      refine (turned.outstanding turn gen).trans ?_
      simp
    · intro turn ended came began
      rcases turned.settles turn ended (by simpa using came) began with settled | ⟨other,same,kept⟩
      · exact .inl (mem_append_left _ settled)
      · rw [reserved] at same
        cases same
        rw [outcome] at kept
        cases kept
  | some ended =>
    obtain ⟨turn,res⟩ := ended
    obtain ⟨came,unsettled,first⟩ := arrived turn res outcome
    have settles : Allowed (log ++ [.restored]) (.settled turn res) := by
      refine ⟨by simp [came],?_,?_⟩
      · intro other
        simp [unsettled other]
      · intro other next post
        rw [← base] at first
        exact turned.newest first (by simpa using post)
    have lawful := restored.snoc settles
    rw [append_assoc] at lawful
    refine ⟨lawful,turned.stay rfl base.symm (by simp) ?_ nofun ?_⟩
    · intro other next
      refine (turned.outstanding other next).trans ?_
      simp
    · intro other result' ended began
      rcases turned.settles other result' (by simpa using ended) began with settled | ⟨same,again,kept⟩
      · exact .inl (mem_append_left _ settled)
      · rw [reserved] at again
        cases again
        rw [outcome] at kept
        cases kept
        exact .inl (by simp)

theorem Turned.begin (turned : Turned run log)
    (fresh : ∀ turn prev, .began turn prev ∈ log → prev < gen)
    {run' : Run} (generations : run'.generation = gen)
    (pending : run'.pendingGeneration = none) (turns : run'.turns = run.turns + 1)
    (outstanding : run'.outstanding = run.outstanding ++ [(run.turns,gen)])
    (known : ∀ turn outcome, .ended turn outcome ∈ log → ∃ prev, .began turn prev ∈ log) :
    Allowed log (.began run.turns gen) ∧ Turned run' (log ++ [.began run.turns gen]) := by
  have base : run'.base = gen := by
    rw [Run.base,pending,generations]
  have began_iff (turn next : Nat) : Note.began turn next ∈ log ++ [.began run.turns gen] ↔
      .began turn next ∈ log ∨ turn = run.turns ∧ next = gen := by
    simp
  have ended_iff (turn : Nat) (outcome : TaskOutcome) :
      Note.ended turn outcome ∈ log ++ [.began run.turns gen] ↔ .ended turn outcome ∈ log := by
    simp
  refine ⟨fun other prev began => ⟨(turned.began other prev began).1,fresh other prev began⟩,
    ?_,?_,?_,?_,?_,?_,?_⟩
  · intro turn next began
    rw [turns,base]
    rcases (began_iff turn next).mp began with before | ⟨rfl,rfl⟩
    · exact ⟨Nat.lt_succ_of_lt (turned.began turn next before).1,(fresh turn next before).le⟩
    · exact ⟨Nat.lt_succ_self _,Nat.le_refl _⟩
  · intro turn next other after began post less
    rcases (began_iff turn next).mp began with before | ⟨rfl,rfl⟩
    · rcases (began_iff other after).mp post with early | ⟨rfl,rfl⟩
      · exact turned.ordered turn next other after before early less
      · exact fresh turn next before
    · rcases (began_iff other after).mp post with early | ⟨rfl,rfl⟩
      · exact absurd (turned.began other after early).1 (by omega)
      · exact absurd less (lt_irrefl _)
  · intro turn next other began again
    rcases (began_iff turn next).mp began with before | ⟨rfl,rfl⟩
    · rcases (began_iff turn other).mp again with early | ⟨rfl,rfl⟩
      · exact turned.named turn next other before early
      · exact absurd (turned.began _ _ before).1 (lt_irrefl _)
    · rcases (began_iff _ other).mp again with early | ⟨_,rfl⟩
      · exact absurd (turned.began _ _ early).1 (lt_irrefl _)
      · rfl
  · intro turn next
    rw [outstanding,mem_append,turned.outstanding,began_iff]
    simp only [ended_iff,mem_singleton,Prod.mk.injEq]
    constructor
    · intro either
      rcases either with ⟨before,open_turn⟩ | ⟨rfl,rfl⟩
      · exact ⟨.inl before,open_turn⟩
      · refine ⟨.inr ⟨rfl,rfl⟩,?_⟩
        intro outcome ended
        obtain ⟨prev,began⟩ := known _ outcome ended
        exact absurd (turned.began _ _ began).1 (lt_irrefl _)
    · intro ⟨either,open_turn⟩
      rcases either with before | ⟨rfl,rfl⟩
      · exact .inl ⟨before,open_turn⟩
      · exact .inr ⟨rfl,rfl⟩
  · intro other same
    rw [pending] at same
    cases same
  · intro turn outcome ended began
    rw [base] at began
    obtain ⟨prev,before⟩ := known turn outcome ((ended_iff turn outcome).mp ended)
    rcases (began_iff turn gen).mp began with early | ⟨rfl,_⟩
    · exact absurd (fresh turn gen early) (lt_irrefl _)
    · exact absurd (turned.began _ _ before).1 (lt_irrefl _)
  · intro turn next began less
    rw [base] at less
    rcases (began_iff turn next).mp began with before | ⟨_,rfl⟩
    · exact .inl ⟨run.turns,gen,(turned.began turn next before).1,by simp⟩
    · exact absurd less (lt_irrefl _)

theorem Turned.only (turned : Turned run log) {other : Nat}
    (began : .began turn gen ∈ log) (again : .began other gen ∈ log) :
    other = turn := by
  rcases Nat.lt_trichotomy other turn with less | same | more
  · exact absurd (turned.ordered other gen turn gen again began less) (lt_irrefl _)
  · exact same
  · exact absurd (turned.ordered turn gen other gen began again more) (lt_irrefl _)

/-- What becomes of the outcome of a turn that ends: it settles the run, is kept by the reservation
that its turn is the predecessor of, or is dropped because its turn is overtaken. -/
inductive Ends (run : Run) (turn gen : Nat) (outcome : TaskOutcome) :
    Option PendingTaskGeneration → List Note → Prop where
  | settled (free : run.pendingGeneration = none) (newest : run.generation = gen) :
      Ends run turn gen outcome none [.settled turn outcome]
  | kept {pending : PendingTaskGeneration} (reserved : run.pendingGeneration = some pending)
      (predecessor : pending.previousGeneration = gen) :
      Ends run turn gen outcome (some { pending with predecessorOutcome := some (turn,outcome) }) []
  | dropped (older : gen ≠ run.base) :
      Ends run turn gen outcome run.pendingGeneration []

theorem settleTaskCompletion_ends (turned : Turned run log) (began : .began turn gen ∈ log)
    (outcome : TaskOutcome) {run' : Run} (generations : run'.generation = run.generation)
    (pendings : run'.pendingGeneration = run.pendingGeneration) :
    ∃ pending more, Ends run turn gen outcome pending more ∧ settleTaskCompletion turn gen outcome run' =
        ({ run' with pendingGeneration := pending },more) := by
  have below := (turned.began turn gen began).2
  obtain ⟨row,isCurrent,isHeld,committed,ids,_,_,job,turns,outstanding⟩ := run'
  simp only at generations pendings
  subst generations pendings
  rw [settleTaskCompletion]
  simp only
  cases reserved : run.pendingGeneration with
  | none =>
    split
    next newest => exact ⟨none,_,.settled reserved newest,rfl⟩
    next older =>
      have notBase : gen ≠ run.base := by
        rw [Run.base,reserved]
        exact Ne.symm older
      refine ⟨run.pendingGeneration,_,.dropped notBase,?_⟩
      rw [reserved]
      rfl
  | some pending =>
    have next := (turned.reserving pending reserved).1
    have base : run.base = pending.previousGeneration := by
      rw [Run.base,reserved]
    rw [if_neg (by omega)]
    simp only
    split
    next predecessor => exact ⟨_,_,.kept reserved predecessor,rfl⟩
    next older =>
      have notBase : gen ≠ run.base := by
        rw [base]
        exact Ne.symm older
      refine ⟨run.pendingGeneration,_,.dropped notBase,?_⟩
      rw [reserved]
      rfl

theorem Turned.finish (turned : Turned run log) (lawful : Lawful Allowed log)
    (open_turn : (turn,gen) ∈ run.outstanding) {pending : Option PendingTaskGeneration}
    {more : List Note} (ends : Ends run turn gen outcome pending more) :
    Lawful Allowed (log ++ .ended turn outcome :: more) ∧ Turned { run with
        outstanding := run.outstanding.filter (·.1 != turn), pendingGeneration := pending }
        (log ++ .ended turn outcome :: more) := by
  obtain ⟨began,unended⟩ := (turned.outstanding turn gen).mp open_turn
  have unsettled : ∀ other, Note.settled turn other ∉ log := by
    intro other settled
    obtain ⟨before,after,rfl⟩ := append_of_mem settled
    have ended := (lawful before _ after rfl).1
    exact unended other (mem_append_left _ ended)
  have came : Lawful Allowed (log ++ [.ended turn outcome]) := lawful.snoc ⟨⟨_,began⟩,unended⟩
  have began_iff (other next : Nat) :
      Note.began other next ∈ log ++ .ended turn outcome :: more ↔ .began other next ∈ log := by
    cases ends <;> simp
  have ended_iff (other : Nat) (res : TaskOutcome) : Note.ended other res ∈ log ++
      .ended turn outcome :: more ↔ .ended other res ∈ log ∨ other = turn ∧ res = outcome := by
    cases ends <;> simp
  have base : ({ run with
      outstanding := run.outstanding.filter (·.1 != turn), pendingGeneration := pending } : Run).base =
        run.base := by
    cases ends with
    | settled free _ => simp [Run.base,free]
    | kept reserved _ => simp [Run.base,reserved]
    | dropped => rfl
  refine ⟨?_,turned.stay rfl base began_iff ?_ ?_ ?_⟩
  · cases ends with
    | settled free newest =>
      have own : run.base = gen := by
        rw [Run.base,free]
        exact newest
      have settles : Allowed (log ++ [.ended turn outcome]) (.settled turn outcome) := by
        refine ⟨by simp,?_,?_⟩
        · intro other
          simp [unsettled other]
        · intro other next post
          exact turned.newest (own ▸ began) (by simpa using post)
      have whole := came.snoc settles
      rw [append_assoc] at whole
      exact whole
    | kept => exact came
    | dropped => exact came
  · intro other next
    simp only [mem_filter,turned.outstanding,ended_iff,bne_iff_ne,ne_eq,not_or,not_and]
    constructor
    · intro ⟨⟨mem,open_other⟩,differ⟩
      exact ⟨mem,fun res => ⟨open_other res,fun same => absurd same differ⟩⟩
    · intro ⟨mem,open_other⟩
      refine ⟨⟨mem,fun res => (open_other res).1⟩,?_⟩
      intro same
      exact (open_other outcome).2 same rfl
  · intro other same
    cases ends with
    | settled free _ => cases same
    | @kept before reserved predecessor =>
      cases same
      obtain ⟨next,own,_⟩ := turned.reserving before reserved
      refine ⟨next,own,?_⟩
      intro which res arrived
      cases arrived
      refine ⟨(ended_iff _ _).mpr (.inr ⟨rfl,rfl⟩),?_,?_⟩
      · intro res settled
        exact unsettled res (by simpa using settled)
      · change Note.began turn before.previousGeneration ∈ log
        rw [predecessor]
        exact began
    | dropped =>
      obtain ⟨next,own,arrived⟩ := turned.reserving other same
      refine ⟨next,own,?_⟩
      intro which res kept
      obtain ⟨ended,open_other,mem⟩ := arrived which res kept
      refine ⟨(ended_iff _ _).mpr (.inl ended),?_,mem⟩
      intro result' settled
      exact open_other result' (by simpa using settled)
  · intro other res ended mem
    rcases (ended_iff other res).mp ended with before | ⟨rfl,rfl⟩
    · have differ : gen = run.base → False := by
        intro own
        rw [own] at began
        rw [turned.only began mem] at before
        exact unended res before
      rcases turned.settles other res before mem with settled | kept
      · exact .inl (mem_append_left _ settled)
      · cases ends with
        | settled free _ =>
          obtain ⟨pending,reserved,_⟩ := kept
          rw [free] at reserved
          cases reserved
        | @kept before reserved predecessor =>
          have own : gen = run.base := by
            rw [Run.base,reserved]
            exact predecessor.symm
          exact absurd own differ
        | dropped => exact .inr kept
    · have own := turned.named _ _ _ began mem
      cases ends with
      | settled => exact .inl (by simp)
      | kept => exact .inr ⟨_,rfl,rfl⟩
      | dropped older => exact absurd own older

end Turns

section Steps

variable {run run' : Run} {log more : List Note}

theorem Holds.frame {reservation : Reservation} (holds : Holds run log reservation)
    (pending : run'.pending = run.pending) (committed : run'.committed = run.committed)
    (plain : Unaccepting more) : Holds run' (log ++ more) reservation := by
  refine ⟨pending.trans holds.pending,holds.committed.trans committed.symm,?_,?_⟩
  · intro expected applied accepted
    exact holds.unaccepted expected applied ((accepted_frame plain).mp accepted)
  · rw [committed]
    exact holds.free

theorem Working.frame (working : Working run log) (job : run'.job = run.job)
    (pending : run'.pending = run.pending) (committed : run'.committed = run.committed)
    (post : run.row.revision ≤ run'.row.revision)
    (generation : run'.pendingGeneration.map (·.generation) =
      run.pendingGeneration.map (·.generation)) (plain : Unaccepting more)
    (unsending : Unsending more) : Working run' (log ++ more) := by
  rw [Working] at working ⊢
  rw [job]
  cases found : run.job with
  | none =>
    simp only [found] at working
    obtain ⟨idle,free,answered⟩ := working
    rw [free,map_none,map_eq_none_iff] at generation
    exact ⟨pending.trans idle,generation,answered.append unsending⟩
  | some job =>
    simp only [found] at working
    refine ⟨working.revision.trans post,?_,working.exactly,?_,generation.trans working.generation,?_,?_⟩
    · intro reservation own
      exact ⟨(working.holds reservation own).1.frame pending committed plain,(working.holds reservation own).2⟩
    · intro isSent reservation own
      exact mem_append_left _ (working.sent isSent reservation own)
    · intro gone
      obtain ⟨idle,facts⟩ := working.preparing gone
      refine ⟨pending.trans idle,?_⟩
      intro requestId expected applied accepted
      rw [committed]
      exact facts requestId expected applied ((accepted_frame plain).mp accepted)
    · intro requestId expected waiting
      exact working.unanswered requestId expected (waiting.of_append unsending).1

theorem Traced.completeTurn (traced : Traced run log) (turn : Nat) (outcome : TaskOutcome) :
    Traced (completeTurn turn outcome run).1 (log ++ (RunOperation.completeTurn turn outcome run).2) := by
  rw [RunOperation.completeTurn]
  split
  · rw [Effect.skip,append_nil]
    exact traced
  next other generation hit =>
    have mem := mem_of_find?_eq_some hit
    obtain rfl : other = turn := by
      simpa using find?_some hit
    have began := ((traced.turned.outstanding _ _).mp mem).1
    obtain ⟨pending,more,ends,shape⟩ := @settleTaskCompletion_ends run log _ _ traced.turned began outcome
      { run with outstanding := run.outstanding.filter (·.1 != other) } rfl rfl
    obtain ⟨lawful,turned⟩ := traced.turned.finish traced.lawful mem ends
    simp only [Effect.andThen,shape]
    have plain : Unaccepting (.ended other outcome :: more) := by
      intro requestId expected applied
      cases ends <;> simp
    refine ⟨lawful,traced.replayed.frame rfl (le_refl _) plain,
      traced.advanced.frame (le_refl _) plain,turned,?_⟩
    have unsending : Unsending (.ended other outcome :: more) := by
      intro requestId expected
      cases ends <;> simp
    refine traced.working.frame rfl rfl rfl (le_refl _) ?_ plain unsending
    cases ends with
    | settled free _ => simp [free]
    | kept reserved _ => simp [reserved]
    | dropped => rfl

theorem Traced.move (traced : Traced run log) (row : Snapshot) (isCurrent isHeld : Bool) :
    Traced (move row isCurrent isHeld run).1 (log ++ (RunOperation.move row isCurrent isHeld run).2) := by
  rw [RunOperation.move]
  split
  next post =>
    have lawful := traced.lawful
    rw [← append_nil log] at lawful
    exact traced.ruled.traced rfl lawful rfl post rfl rfl rfl rfl
      (traced.working.frame rfl rfl rfl post rfl (unaccepting_of_quiet rfl) (by simp [Unsending]))
  next =>
    rw [Effect.skip,append_nil]
    exact traced

end Steps

section Jobs

variable {run : Run} {log : List Note} {slot : Reservation}

theorem refuseOperation_traced (ruled : Ruled run log) (pending : run.pending = [slot.requestId])
    (free : run.pendingGeneration = none) (only : ∀ requestId expected,
      Unanswered log requestId expected → requestId = slot.requestId) (a b : List Note) (released : a = [.released slot.requestId])
    (last : b = [] ∨ ∃ failureCode, b = [.refused failureCode]) :
    Traced { run with pending := run.pending.erase slot.requestId, job := none }
      (log ++ (a ++ b)) := by
  subst released
  have quiet : ([Note.released slot.requestId] ++ b).all isQuiet = true := by
    rcases last with rfl | ⟨failureCode,rfl⟩ <;> rfl
  have begun : Lawful Allowed (log ++ [.released slot.requestId]) := ruled.lawful.snoc trivial
  have whole : Lawful Allowed (log ++ [.released slot.requestId] ++ b) := by
    rcases last with rfl | ⟨failureCode,rfl⟩
    · rw [append_nil]
      exact begun
    · exact begun.snoc trivial
  rw [append_assoc] at whole
  refine ruled.traced quiet whole rfl (le_refl _) rfl rfl rfl rfl ⟨?_,free,?_⟩
  · change run.pending.erase slot.requestId = []
    rw [pending]
    simp
  · intro requestId expected waiting
    have unsending : Unsending ([.released slot.requestId] ++ b) := by
      intro requestId expected
      rcases last with rfl | ⟨failureCode,rfl⟩ <;> simp
    obtain ⟨before,unreleased,_⟩ := waiting.of_append unsending
    rw [only requestId expected before] at unreleased
    exact unreleased mem_cons_self

structure Committed (run : Run) (log : List Note) (live : Snapshot) : Prop where
  lawful : Lawful Allowed log
  replayed : Replayed run log
  turned : Turned run log
  accepted : ∀ requestId expected applied, .accepted requestId expected applied ∈ log →
    expected ≤ applied ∧ (applied + 1 ≤ run.row.revision ∨ applied = live.revision)
  pending : run.pending = []
  free : run.pendingGeneration = none
  answered : Answered log

theorem commit_committed {live : Snapshot} (ruled : Ruled run log)
    (holds : Holds run log slot) (free : run.pendingGeneration = none)
    (sent : .sent slot.requestId slot.liveRevision ∈ log)
    (behind : slot.liveRevision ≤ live.revision)
    (only : ∀ requestId expected, Unanswered log requestId expected →
      requestId = slot.requestId ∧ expected = slot.liveRevision) {applied : Nat}
    (same : applied = live.revision) :
    Committed (commit slot applied run).1 (log ++ (commit slot applied run).2) live := by
  subst same
  have others : slot.committed.filter (·.1 != slot.requestId) = run.committed := by
    rw [holds.committed,filter_eq_self]
    intro r mem
    rw [bne_iff_ne]
    exact holds.free r mem
  have accepted_iff (requestId : Text) (expected applied : Nat) : .accepted requestId expected applied ∈ log ++
        [Note.accepted slot.requestId slot.liveRevision live.revision] ↔
      .accepted requestId expected applied ∈ log ∨ requestId = slot.requestId ∧
        expected = slot.liveRevision ∧ applied = live.revision := by
    simp
  have turns : ∀ note ∈ [Note.accepted slot.requestId slot.liveRevision live.revision],
      concernsTurns note = false := by
    simp [concernsTurns]
  have next : Allowed log (.accepted slot.requestId slot.liveRevision live.revision) := by
    refine ⟨sent,behind,?_⟩
    intro other accepted
    have old := holds.unaccepted _ other accepted
    have a := (ruled.advanced _ _ other accepted).1
    omega
  refine ⟨ruled.lawful.snoc next,?_,ruled.turned.frame rfl rfl rfl rfl turns,?_,?_,free,?_⟩
  · rw [commit,others]
    refine ⟨?_,?_⟩
    · intro r mem
      rcases mem_append.mp mem with old | new
      · obtain ⟨expected,accepted⟩ := ruled.replayed.records r old
        exact ⟨expected,mem_append_left _ accepted⟩
      · obtain rfl := mem_singleton.mp new
        exact ⟨slot.liveRevision,by simp⟩
    · intro requestId expected applied accepted
      rcases (accepted_iff requestId expected applied).mp accepted with old | ⟨rfl,rfl,rfl⟩
      · rcases ruled.replayed.kept requestId expected applied old with ⟨revision,mem,post⟩ | gone
        · exact .inl ⟨revision,mem_append_left _ mem,post⟩
        · exact .inr gone
      · exact .inl ⟨live.revision,by simp,le_refl _⟩
  · intro requestId expected applied accepted
    rcases (accepted_iff requestId expected applied).mp accepted with old | ⟨rfl,rfl,rfl⟩
    · obtain ⟨a,post⟩ := ruled.advanced requestId expected applied old
      exact ⟨a,.inl post⟩
    · exact ⟨behind,.inr rfl⟩
  · change run.pending.erase slot.requestId = []
    rw [holds.pending]
    simp
  · intro requestId expected waiting
    have unsending : Unsending [.accepted slot.requestId slot.liveRevision live.revision] := by
      simp [Unsending]
    obtain ⟨before,_,unaccepted⟩ := waiting.of_append unsending
    obtain ⟨rfl,rfl⟩ := only requestId expected before
    exact unaccepted live.revision mem_cons_self

theorem Committed.begin {live : Snapshot} {generation : Nat} (committed : Committed run log live)
    (fresh : ∀ turn prev, .began turn prev ∈ log → prev < generation)
    {reserved : Option Nat} (next : reserved.getD (run.generation + 1) = generation)
    (same : reserved.isSome → run.generation = generation) :
    Committed (observeTaskCompletion reserved run).1 (log ++ (observeTaskCompletion reserved run).2) live := by
  have plain : Unaccepting [.began run.turns generation] := by
    simp [Unaccepting]
  have shape : observeTaskCompletion reserved run = ({ run with
      generation, turns := run.turns + 1
      outstanding := run.outstanding ++ [(run.turns,generation)] },[.began run.turns generation]) := by
    rw [observeTaskCompletion]
    simp only [next]
    split
    next some_reserved => rw [same some_reserved]
    next => rfl
  have known : ∀ turn outcome, .ended turn outcome ∈ log → ∃ prev, Note.began turn prev ∈ log := by
    intro turn outcome ended
    obtain ⟨before,after,rfl⟩ := append_of_mem ended
    obtain ⟨⟨prev,began⟩,_⟩ := committed.lawful before _ after rfl
    exact ⟨prev,mem_append_left _ began⟩
  rw [shape]
  obtain ⟨allowed,turned⟩ := @Turned.begin run log generation committed.turned fresh { run with
      generation, turns := run.turns + 1
      outstanding := run.outstanding ++ [(run.turns,generation)] } rfl committed.free rfl rfl known
  refine ⟨committed.lawful.snoc allowed,committed.replayed.frame rfl (le_refl _) plain,turned,?_,
    committed.pending,committed.free,committed.answered.append (by simp [Unsending])⟩
  intro requestId expected applied accepted
  exact committed.accepted requestId expected applied ((accepted_frame plain).mp accepted)

theorem Committed.advance {live : Snapshot} (committed : Committed run log live)
    (revision : live.revision ≤ run.row.revision) :
    Traced ((advanceRevision live).andThen finish run).1 (log ++ ((advanceRevision live).andThen finish run).2) := by
  rw [Effect.andThen,advanceRevision]
  split
  next superseded =>
    have plain : Unaccepting [.refused invalidIntent] := unaccepting_of_quiet rfl
    have unsending : Unsending [.refused invalidIntent] := by
      simp [Unsending]
    refine ⟨committed.lawful.snoc trivial,committed.replayed.frame rfl (le_refl _) plain,?_,
      committed.turned.frame rfl rfl rfl rfl (turns_of_quiet rfl),committed.pending,committed.free,
      committed.answered.append unsending⟩
    intro requestId expected applied accepted
    obtain ⟨a,either⟩ :=
      committed.accepted requestId expected applied ((accepted_frame plain).mp accepted)
    refine ⟨a,?_⟩
    change applied + 1 ≤ run.row.revision
    omega
  next newest =>
    have plain : Unaccepting [] := unaccepting_of_quiet rfl
    have unsending : Unsending [] := by
      simp [Unsending]
    have post : run.row.revision ≤ live.revision + 1 := by
      omega
    have lawful := committed.lawful
    rw [← append_nil log] at lawful
    refine ⟨lawful,committed.replayed.frame rfl post plain,?_,
      committed.turned.frame rfl rfl rfl rfl (turns_of_quiet rfl),committed.pending,committed.free,
      committed.answered.append unsending⟩
    intro requestId expected applied accepted
    obtain ⟨a,either⟩ :=
      committed.accepted requestId expected applied ((accepted_frame plain).mp accepted)
    refine ⟨a,?_⟩
    change applied + 1 ≤ live.revision + 1
    omega

theorem keep_generation {generation : Option Nat} (lawful : Lawful Allowed log)
    (turned : Turned run log) (own : run.pendingGeneration.map (·.generation) = generation) :
    ∃ more, settleGenerationReservation generation true run =
        ({ run with pendingGeneration := none },more) ∧ Lawful Allowed (log ++ more) ∧
      Turned { run with pendingGeneration := none } (log ++ more) ∧ Unaccepting more ∧
      Unsending more ∧
      (∀ turn prev, .began turn prev ∈ log ++ more → prev < generation.getD (run.generation + 1)) ∧
      (generation.isSome → run.generation = generation.getD (run.generation + 1)) := by
  subst own
  cases reserved : run.pendingGeneration with
  | none =>
    have same : ({ run with pendingGeneration := none } : Run) = run := by
      rw [← reserved]
    refine ⟨[],?_,?_,?_,?_,?_,?_,?_⟩
    · rw [same]
      rfl
    · rw [append_nil]
      exact lawful
    · rw [append_nil]
      exact turned.same rfl rfl reserved.symm rfl
    · simp [Unaccepting]
    · simp [Unsending]
    · intro turn prev began
      rw [append_nil] at began
      have below := (turned.began turn prev began).2
      rw [Run.base,reserved] at below
      exact Nat.lt_succ_of_le below
    · intro some_generation
      simp at some_generation
  | some pending =>
    obtain ⟨_,own,_⟩ := turned.reserving pending reserved
    obtain ⟨kept,older⟩ := turned.keep reserved
    have shape : commitTaskGeneration run = ({ run with pendingGeneration := none },[.kept]) := by
      rw [commitTaskGeneration,reserved]
    rw [shape] at kept
    refine ⟨[.kept],shape,lawful.snoc trivial,kept,?_,?_,?_,?_⟩
    · simp [Unaccepting]
    · simp [Unsending]
    · intro turn prev began
      rw [map_some,getD_some,own]
      exact older turn prev (by simpa using began)
    · intro _
      exact own.symm

theorem restore_generation {generation : Option Nat} (lawful : Lawful Allowed log)
    (turned : Turned run log) (own : run.pendingGeneration.map (·.generation) = generation) :
    ∃ prev more, settleGenerationReservation generation false run =
        ({ run with pendingGeneration := none, generation := prev },more) ∧
      Lawful Allowed (log ++ more) ∧
      Turned { run with pendingGeneration := none, generation := prev } (log ++ more) ∧
      Unaccepting more ∧ Unsending more := by
  subst own
  cases reserved : run.pendingGeneration with
  | none =>
    have same : ({ run with pendingGeneration := none } : Run) = run := by
      rw [← reserved]
    refine ⟨run.generation,[],?_,?_,?_,?_,?_⟩
    · rw [same]
      rfl
    · rw [append_nil]
      exact lawful
    · rw [append_nil]
      exact turned.same rfl rfl reserved.symm rfl
    · simp [Unaccepting]
    · simp [Unsending]
  | some pending =>
    obtain ⟨whole,restored⟩ := turned.restore lawful reserved
    have shape : releaseTaskGeneration run =
        ({ run with pendingGeneration := none, generation := pending.previousGeneration },
          .restored :: pending.predecessorOutcome.toList.map fun ended => .settled ended.1 ended.2) := by
      rw [releaseTaskGeneration,reserved]
    rw [shape] at whole restored
    refine ⟨_,_,shape,whole,restored,?_,?_⟩
    · simp [Unaccepting]
    · simp [Unsending]

theorem Traced.fits (traced : Traced run log) {job : Job} (busy : run.job = some job) : Fits run log job := by
  have working := traced.working
  rw [Working,busy] at working
  exact working

theorem Fits.only {job : Job} (fits : Fits run log job)
    (own : job.reservation = some slot) {requestId : Text} {expected : Nat}
    (waiting : Unanswered log requestId expected) :
    requestId = slot.requestId ∧ expected = slot.liveRevision := by
  obtain ⟨_,other,hit,rfl,rfl⟩ := fits.unanswered requestId expected waiting
  rw [own,some_inj] at hit
  rw [hit]
  exact ⟨rfl,rfl⟩

theorem Fits.answered {job : Job} (fits : Fits run log job) (unsent : job.isSent = false) : Answered log := by
  intro requestId expected waiting
  have isSent := (fits.unanswered requestId expected waiting).1
  rw [unsent] at isSent
  cases isSent

theorem Traced.accept (traced : Traced run log) {job : Job} (busy : run.job = some job)
    (own : job.reservation = some slot) (isSent : job.isSent = true) {live : Snapshot}
    (revision : live.revision = job.revision) {applied : Nat} (same : applied = job.revision) :
    ∃ more, settleGenerationReservation job.generation true run = ({ run with pendingGeneration := none },more) ∧
      Committed (commit slot applied { run with pendingGeneration := none }).1
        (log ++ more ++ (commit slot applied { run with pendingGeneration := none }).2) live ∧
      (∀ turn prev, .began turn prev ∈ log ++ more ++
          (commit slot applied { run with pendingGeneration := none }).2 →
        prev < job.generation.getD (run.generation + 1)) ∧
      (job.generation.isSome → run.generation = job.generation.getD (run.generation + 1)) := by
  have fits := traced.fits busy
  obtain ⟨holds,behind⟩ := fits.holds slot own
  obtain ⟨more,shape,lawful,turned,plain,unsending,older,reserved⟩ :=
    keep_generation traced.lawful traced.turned fits.generation
  refine ⟨more,shape,?_,?_,reserved⟩
  · have ruled : Ruled { run with pendingGeneration := none } (log ++ more) :=
      ⟨lawful,traced.replayed.frame rfl (le_refl _) plain,traced.advanced.frame (le_refl _) plain,turned⟩
    apply commit_committed ruled
    · exact holds.frame rfl rfl plain
    · rfl
    · exact mem_append_left _ (fits.sent isSent slot own)
    · rw [revision]
      exact behind
    · exact fun requestId expected waiting => fits.only own (waiting.of_append unsending).1
    · rw [same,revision]
  · intro turn prev began
    exact older turn prev (by simpa [commit] using began)

theorem Traced.refuse (traced : Traced run log) {job : Job} (busy : run.job = some job)
    (own : job.reservation = some slot) (failureCode : Text) :
    Traced ((settleGenerationReservation job.generation false).andThen (refuseOperation slot failureCode) run).1
      (log ++ ((settleGenerationReservation job.generation false).andThen
        (refuseOperation slot failureCode) run).2) := by
  have fits := traced.fits busy
  obtain ⟨holds,_⟩ := fits.holds slot own
  obtain ⟨prev,more,shape,lawful,turned,plain,unsending⟩ :=
    restore_generation traced.lawful traced.turned fits.generation
  have done := @refuseOperation_traced { run with pendingGeneration := none, generation := prev } _ slot
    ⟨lawful,traced.replayed.frame rfl (le_refl _) plain,
      traced.advanced.frame (le_refl _) plain,turned⟩ holds.pending rfl
    (fun requestId expected waiting => (fits.only own (waiting.of_append unsending).1).1)
    _ [.refused failureCode] rfl (.inr ⟨failureCode,rfl⟩)
  rw [append_assoc] at done
  simp only [Effect.andThen,shape]
  exact done

theorem Traced.dismiss (traced : Traced run log) (pending : run.pending = [])
    (free : run.pendingGeneration = none) (answered : Answered log) (failureCode : Text) :
    Traced ((RunOperation.refuse failureCode).andThen finish run).1
      (log ++ ((RunOperation.refuse failureCode).andThen finish run).2) := by
  have unsending : Unsending [.refused failureCode] := by
    simp [Unsending]
  exact traced.ruled.traced rfl (traced.lawful.snoc trivial) rfl (le_refl _) rfl rfl rfl rfl
    ⟨pending,free,answered.append unsending⟩

theorem Traced.accept_advance (traced : Traced run log) {job : Job} (busy : run.job = some job)
    (own : job.reservation = some slot) (isSent : job.isSent = true) {live : Snapshot}
    (revision : live.revision = job.revision) {applied : Nat} (same : applied = job.revision) :
    Traced ((settleGenerationReservation job.generation true).andThen
        ((commit slot applied).andThen ((advanceRevision live).andThen finish)) run).1
      (log ++ ((settleGenerationReservation job.generation true).andThen
        ((commit slot applied).andThen ((advanceRevision live).andThen finish)) run).2) := by
  obtain ⟨more,shape,committed,_⟩ := traced.accept busy own isSent revision same
  have behind : live.revision ≤ run.row.revision := by
    rw [revision]
    exact (traced.fits busy).revision
  have done := committed.advance behind
  rw [append_assoc,append_assoc] at done
  rw [Effect.andThen,shape]
  exact done

theorem Traced.accept_begin (traced : Traced run log) {job : Job} (busy : run.job = some job)
    (own : job.reservation = some slot) (isSent : job.isSent = true) {live : Snapshot}
    (revision : live.revision = job.revision) {applied : Nat} (same : applied = job.revision) :
    Traced ((settleGenerationReservation job.generation true).andThen
        ((commit slot applied).andThen ((observeTaskCompletion job.generation).andThen
          ((advanceRevision live).andThen finish))) run).1
      (log ++ ((settleGenerationReservation job.generation true).andThen
        ((commit slot applied).andThen ((observeTaskCompletion job.generation).andThen
          ((advanceRevision live).andThen finish))) run).2) := by
  obtain ⟨more,shape,committed,older,reserved⟩ := traced.accept busy own isSent revision same
  have begun := committed.begin older rfl reserved
  have behind : live.revision ≤ run.row.revision := by
    rw [revision]
    exact (traced.fits busy).revision
  have done := begun.advance behind
  simp only [append_assoc] at done
  rw [Effect.andThen,shape]
  exact done

theorem replaceTurn_traced (ruled : Ruled run log)
    (holds : Holds run log slot) (free : run.pendingGeneration = none)
    (answered : Answered log) {job : Job} (own : job.reservation = some slot)
    (isSent : job.isSent = true) (generation : job.generation = some (run.generation + 1))
    (revision : job.revision ≤ run.row.revision) (behind : slot.liveRevision ≤ job.revision)
    (exactly : job.isExact = true → slot.liveRevision = job.revision) :
    Traced (reserveTaskGeneration.andThen (send slot job) run).1
      (log ++ (reserveTaskGeneration.andThen (send slot job) run).2) := by
  have plain : Unaccepting [.reserved,.sent slot.requestId slot.liveRevision] := by
    simp [Unaccepting]
  have unsending : Unsending [.reserved] := by
    simp [Unsending]
  have reserved : Lawful Allowed (log ++ [.reserved]) := ruled.lawful.snoc trivial
  have waiting := answered.append unsending
  have sendable : Allowed (log ++ [.reserved]) (.sent slot.requestId slot.liveRevision) := by
    refine ⟨waiting _ _,?_⟩
    intro other applied accepted
    have before : Note.accepted slot.requestId other applied ∈ log := by
      simpa using accepted
    have old := holds.unaccepted other applied before
    have ordered := (ruled.advanced _ other applied before).1
    exact ⟨by omega,by omega⟩
  have sent := reserved.snoc sendable
  have begun := (ruled.turned.reserve free).frame rfl rfl rfl rfl
    (@turns_of_quiet [.sent slot.requestId slot.liveRevision] rfl)
  rw [append_assoc] at sent begun
  refine ⟨sent,ruled.replayed.frame rfl (le_refl _) plain,ruled.advanced.frame (le_refl _) plain,
    begun.same rfl rfl rfl rfl,?_⟩
  refine ⟨revision,?_,?_,?_,generation.symm,?_,?_⟩
  · intro other hit
    rw [own,some_inj] at hit
    subst hit
    exact ⟨holds.frame rfl rfl plain,behind⟩
  · intro exact_job other hit
    rw [own,some_inj] at hit
    subst hit
    exact exactly exact_job
  · intro _ other hit
    rw [own,some_inj] at hit
    subst hit
    exact mem_append_right _ (mem_cons_of_mem _ mem_cons_self)
  · intro gone
    rw [own] at gone
    cases gone
  · intro requestId expected unanswered
    have last : log ++ [.reserved,.sent slot.requestId slot.liveRevision] =
        log ++ [.reserved] ++ [.sent slot.requestId slot.liveRevision] := by
      rw [append_assoc]
      rfl
    change Unanswered (log ++ [.reserved,.sent _ _]) requestId expected at unanswered
    rw [last] at unanswered
    rcases unanswered.of_sent with before | ⟨rfl,rfl⟩
    · exact absurd before (waiting requestId expected)
    · exact ⟨isSent,slot,own,rfl,rfl⟩

theorem Traced.replace (traced : Traced run log) {current : Snapshot}
    (busy : run.job = some (.resuming slot current)) :
    Traced (answerJob (.resuming slot current) .accepted run).1
      (log ++ (answerJob (.resuming slot current) .accepted run).2) := by
  have fits := traced.fits busy
  obtain ⟨holds,behind⟩ := fits.holds slot rfl
  have free : run.pendingGeneration = none := by
    simpa [Job.generation] using fits.generation
  have live : (run.current.getD current).revision = run.row.revision ∨ run.current.getD current = current := by
    rw [Run.current]
    split
    · exact .inl rfl
    · exact .inr rfl
  have advancing : current.revision ≤ run.row.revision := fits.revision
  have first : slot.liveRevision ≤ current.revision := behind
  apply replaceTurn_traced traced.ruled holds free (fits.answered rfl) rfl rfl rfl
  · change (run.current.getD current).revision ≤ run.row.revision
    rcases live with newest | same
    · exact newest.le
    · rw [same]
      exact advancing
  · change slot.liveRevision ≤ (run.current.getD current).revision
    rcases live with newest | same
    · rw [newest]
      exact first.trans advancing
    · rw [same]
      exact first
  · intro exactly
    cases exactly

theorem Traced.prepared (traced : Traced run log) {requestId : Text} {current : Snapshot}
    (busy : run.job = some (.preparing requestId current)) :
    Traced (answerJob (.preparing requestId current) .accepted run).1
      (log ++ (answerJob (.preparing requestId current) .accepted run).2) := by
  have fits := traced.fits busy
  obtain ⟨pending,facts⟩ := fits.preparing rfl
  have free : run.pendingGeneration = none := by
    simpa [Job.generation] using fits.generation
  have evicted := traced.replayed.evict fits.revision
  rw [answerJob]
  simp only
  rcases reserve_cases run requestId current.revision with ⟨rejection,rejected⟩ | ⟨unused,taken⟩
  · rw [rejected]
    have kept : Traced { run with
        committed := evictSuperseded run.committed current.revision, job := none } log :=
      ⟨traced.lawful,⟨evicted.records,evicted.kept⟩,traced.advanced,
        traced.turned.same rfl rfl rfl rfl,pending,free,fits.answered rfl⟩
    exact kept.dismiss pending free (fits.answered rfl) _
  · rw [taken]
    have admitted : Admitted { run with
        committed := evictSuperseded run.committed current.revision
        pending := run.pending ++ [requestId]
        job := none } log current
        ⟨requestId,current.revision,evictSuperseded run.committed current.revision⟩ := by
      refine ⟨traced.lawful,⟨evicted.records,evicted.kept⟩,traced.advanced,
        traced.turned.same rfl rfl rfl rfl,⟨?_,rfl,?_,hasId_eq_false.mp unused⟩,rfl,fits.revision,
        rfl,free,fits.answered rfl⟩
      · rw [pending]
        rfl
      · intro expected applied accepted
        exact @unaccepted_of_free run _ _ _ (facts _ expected applied accepted).2 unused
    exact admitted.send rfl rfl rfl rfl

theorem Traced.answer (traced : Traced run log) {job : Job} (busy : run.job = some job)
    (ans : Answer) : Traced (answerJob job ans run).1 (log ++ (answerJob job ans run).2) := by
  have fits := traced.fits busy
  cases ans with
  | refused failureCode =>
    cases job with
    | preparing requestId current =>
      obtain ⟨pending,_⟩ := fits.preparing rfl
      have free : run.pendingGeneration = none := by
        simpa [Job.generation] using fits.generation
      exact traced.dismiss pending free (fits.answered rfl) failureCode
    | starting slot current => exact traced.refuse busy rfl failureCode
    | resuming slot current => exact traced.refuse busy rfl failureCode
    | dispatching slot live generation => exact traced.refuse busy rfl failureCode
    | delivering slot live => exact traced.refuse busy rfl failureCode
    | reverting slot current generation => exact traced.refuse busy rfl failureCode
    | mutating slot current => exact traced.refuse busy rfl failureCode
    | listing slot => exact traced.refuse busy rfl failureCode
  | accepted =>
    cases job with
    | preparing requestId current => exact traced.prepared busy
    | starting slot current =>
      exact @Traced.accept_begin _ _ _ traced _ busy rfl rfl current rfl _ (fits.exactly rfl slot rfl)
    | resuming slot current => exact traced.replace busy
    | dispatching slot live generation =>
      exact @Traced.accept_begin _ _ _ traced _ busy rfl rfl live rfl _ rfl
    | delivering slot live =>
      exact @Traced.accept_advance _ _ _ traced _ busy rfl rfl live rfl _ rfl
    | reverting slot current generation =>
      exact @Traced.accept_advance _ _ _ traced _ busy rfl rfl current rfl _ (fits.exactly rfl slot rfl)
    | mutating slot current =>
      exact @Traced.accept_advance _ _ _ traced _ busy rfl rfl current rfl _ (fits.exactly rfl slot rfl)
    | listing slot =>
      obtain ⟨holds,_⟩ := fits.holds slot rfl
      have free : run.pendingGeneration = none := by
        simpa [Job.generation] using fits.generation
      exact refuseOperation_traced traced.ruled holds.pending free
        (fun _ _ waiting => absurd waiting (fits.answered rfl _ _)) _ [] rfl (.inl rfl)

end Jobs

section Operations

variable {run : Run} {log : List Note}

theorem Traced.skip (traced : Traced run log) : Traced (Effect.skip run : Run × List Note).1
      (log ++ (Effect.skip run : Run × List Note).2) := by
  rw [Effect.skip,append_nil]
  exact traced

theorem finish_free (free : run.job = none) : finish run = (run,[]) := by
  rw [finish,Effect.update,← free]

theorem advanceRevision_job (current : Snapshot) (run : Run) : (advanceRevision current run).1.job = run.job := by
  rw [advanceRevision]
  split <;> rfl

theorem Traced.reject (traced : Traced run log) (free : run.job = none) (failureCode : Text) :
    Traced (RunOperation.refuse failureCode run).1 (log ++ (RunOperation.refuse failureCode run).2) := by
  obtain ⟨pending,settled,answered⟩ := traced.idle free
  have dismissed := traced.dismiss pending settled answered failureCode
  rw [Effect.andThen,RunOperation.refuse,Effect.note,finish_free free] at dismissed
  exact dismissed

theorem current_row (run : Run) (snapshot : Snapshot) (hit : run.current = some snapshot) : snapshot = run.row := by
  rw [Run.current] at hit
  split at hit
  · exact (some.inj hit).symm
  · cases hit

theorem held_row (run : Run) (snapshot : Snapshot) (hit : run.held = some snapshot) : snapshot = run.row := by
  rw [Run.held] at hit
  split at hit
  · exact (some.inj hit).symm
  · cases hit

theorem prepare_job {tgt : Option Snapshot} {states : List CodingWorkbenchRuntimeStateName}
    {requestId : Text} {expected : Nat} {policy : RevisionPolicy} {run' : Run}
    {prepared : Except Text (Snapshot × Reservation)}
    (same : prepare run tgt states requestId expected policy = (run',prepared)) :
    run'.job = run.job := by
  rw [prepare] at same
  split at same
  · cases same
    rfl
  next snapshot _ =>
    rcases reserve_cases run requestId snapshot.revision with ⟨rejection,rejected⟩ | ⟨_,taken⟩
    · rw [rejected] at same
      cases same
      rfl
    · rw [taken] at same
      cases same
      rfl

theorem Traced.submitFollowUp (traced : Traced run log) (free : run.job = none)
    (req : FollowUp) : Traced (submitFollowUp req run).1
      (log ++ (RunOperation.submitFollowUp req run).2) := by
  rw [RunOperation.submitFollowUp]
  split
  next run' failureCode same =>
    exact (traced.prepare free (current_row run) same).reject ((prepare_job same).trans free) _
  next run' current reservation same =>
    obtain ⟨admitted,newest⟩ := traced.prepare free (current_row run) same
    have live : (run'.current.getD current).revision = current.revision := by
      rw [Run.current,newest]
      split <;> rfl
    simp only
    split
    · split
      · exact admitted.send rfl live rfl rfl
      · split
        · exact admitted.await rfl rfl rfl rfl
        · exact admitted.send rfl live rfl rfl
    · exact admitted.refuse _

theorem Traced.submitRevert (traced : Traced run log) (free : run.job = none)
    (req : Revert) : Traced (submitRevert req run).1 (log ++ (RunOperation.submitRevert req run).2) := by
  obtain ⟨tgt,states,row,chosen⟩ : ∃ tgt states, (∀ snapshot, tgt = some snapshot → snapshot = run.row) ∧
      (if run.isHeld && !run.isCurrent then
        RunOperation.prepare run run.held heldStates req.requestId req.expectedRevision .exact
      else RunOperation.prepare run run.current followUpStates req.requestId req.expectedRevision .exact) =
        RunOperation.prepare run tgt states req.requestId req.expectedRevision .exact := by
    split
    · exact ⟨_,_,held_row run,rfl⟩
    · exact ⟨_,_,current_row run,rfl⟩
  rw [RunOperation.submitRevert,chosen]
  split
  next run' failureCode same =>
    exact (traced.prepare free row same).reject ((prepare_job same).trans free) _
  next run' current reservation same =>
    obtain ⟨admitted,_⟩ := traced.prepare free row same
    split
    · exact admitted.refuse _
    next action _ =>
      split
      · exact replaceTurn_traced admitted.ruled admitted.holds admitted.settled admitted.answered
          rfl rfl rfl admitted.current admitted.live.le (fun _ => admitted.live)
      · exact admitted.send rfl rfl rfl rfl

theorem Traced.submitMutation (traced : Traced run log) (free : run.job = none)
    (req : Mutation) : Traced (submitMutation req run).1
      (log ++ (RunOperation.submitMutation req run).2) := by
  rw [RunOperation.submitMutation]
  split
  next run' failureCode same =>
    exact (traced.prepare free (current_row run) same).reject ((prepare_job same).trans free) _
  next run' current reservation same =>
    obtain ⟨admitted,_⟩ := traced.prepare free (current_row run) same
    split
    · exact admitted.send rfl rfl rfl rfl
    · exact admitted.refuse _

theorem Traced.listQuestions (traced : Traced run log) (free : run.job = none) (requestId : Text)
    (expectedRevision : Nat) : Traced (listQuestions requestId expectedRevision run).1
      (log ++ (RunOperation.listQuestions requestId expectedRevision run).2) := by
  rw [RunOperation.listQuestions]
  split
  next run' failureCode same =>
    exact (traced.prepare free (current_row run) same).reject ((prepare_job same).trans free) _
  next run' current reservation same =>
    obtain ⟨admitted,_⟩ := traced.prepare free (current_row run) same
    exact admitted.await rfl admitted.live rfl rfl

theorem Traced.startRun (traced : Traced run log) (free : run.job = none) (requestId : Text) :
    Traced (startRun requestId run).1 (log ++ (RunOperation.startRun requestId run).2) := by
  obtain ⟨pending,settled,answered⟩ := traced.idle free
  rw [RunOperation.startRun]
  split
  · exact traced.skip
  next current hit =>
    have own := current_row run current hit
    subst own
    simp only [await,Effect.update,append_nil]
    refine ⟨traced.lawful,⟨traced.replayed.records,traced.replayed.kept⟩,traced.advanced,
      traced.turned.same rfl rfl rfl rfl,?_⟩
    refine ⟨le_refl _,?_,?_,?_,?_,?_,?_⟩
    · intro reservation own
      cases own
    · intro _ reservation own
      cases own
    · intro isSent
      cases isSent
    · rw [settled]
      rfl
    · intro _
      refine ⟨pending,?_⟩
      intro requestId expected applied accepted
      exact ⟨(traced.advanced requestId expected applied accepted).2,
        traced.replayed.kept requestId expected applied accepted⟩
    · intro requestId expected waiting
      exact absurd waiting (answered requestId expected)

theorem Traced.observeContinuation (traced : Traced run log) (free : run.job = none) :
    Traced (observeContinuation run).1 (log ++ (RunOperation.observeContinuation run).2) := by
  obtain ⟨pending,settled,answered⟩ := traced.idle free
  rw [RunOperation.observeContinuation]
  split
  · exact traced.skip
  next current hit =>
    have own := current_row run current hit
    subst own
    have idle : Committed run log run.row := by
      refine ⟨traced.lawful,traced.replayed,traced.turned,?_,pending,settled,answered⟩
      intro requestId expected applied accepted
      obtain ⟨a,behind⟩ := traced.advanced requestId expected applied accepted
      exact ⟨a,.inl behind⟩
    have older : ∀ turn prev, .began turn prev ∈ log → prev < run.generation + 1 := by
      intro turn prev began
      have below := (traced.turned.began turn prev began).2
      rw [Run.base,settled] at below
      exact Nat.lt_succ_of_le below
    have begun := @Committed.begin run log _ _ idle older none rfl (by simp)
    have done := begun.advance (le_refl _)
    have stays : (advanceRevision run.row (observeTaskCompletion none run).1).1.job = none :=
      (advanceRevision_job _ _).trans free
    rw [Effect.andThen,finish_free stays,append_nil,append_assoc] at done
    exact done

theorem Traced.step (traced : Traced run log) (ev : Event) :
    Traced (effect ev run).1 (log ++ (effect ev run).2) := by
  have whenFree_traced {operation : Effect} (idle : run.job = none →
      Traced (operation run).1 (log ++ (operation run).2)) :
      Traced (whenFree operation run).1 (log ++ (whenFree operation run).2) := by
    rw [whenFree]
    split
    next free => exact idle (isNone_iff_eq_none.mp free)
    next => exact traced.skip
  cases ev with
  | followUp req => exact whenFree_traced fun free => traced.submitFollowUp free req
  | revert req => exact whenFree_traced fun free => traced.submitRevert free req
  | mutation req => exact whenFree_traced fun free => traced.submitMutation free req
  | listQuestions requestId expectedRevision =>
    exact whenFree_traced fun free => traced.listQuestions free requestId expectedRevision
  | startRun requestId => exact whenFree_traced fun free => traced.startRun free requestId
  | continuation => exact whenFree_traced traced.observeContinuation
  | answered ans =>
    rw [effect]
    cases busy : run.job with
    | none => simpa only [busy] using traced.skip
    | some job => simpa only [busy] using traced.answer busy ans
  | turnEnded turn outcome => exact traced.completeTurn turn outcome
  | moved row isCurrent isHeld => exact traced.move row isCurrent isHeld

end Operations

section Runs

variable (row : Snapshot) (events : List Event)

theorem machine_traced : Traced ((machine row).run events) ((machine row).noted events) := by
  apply Machine.holds_of_step Traced
  · refine ⟨Lawful.nil,⟨?_,?_⟩,?_,⟨?_,?_,?_,?_,?_,?_,?_⟩,rfl,rfl,?_⟩
    · intro r mem
      cases mem
    · intro requestId expected applied accepted
      cases accepted
    · intro requestId expected applied accepted
      cases accepted
    · intro turn generation began
      cases began
    · intro turn generation other next began
      cases began
    · intro turn generation other began
      cases began
    · intro turn generation
      simp [machine,Run.new]
    · intro pending reserved
      cases reserved
    · intro turn outcome ended
      cases ended
    · intro turn generation began
      cases began
    · intro requestId expected waiting
      obtain ⟨front,back,same,_⟩ := waiting
      simp at same
  · intro run log ev traced
    exact traced.step ev

variable {run : Run} {log : List Note}

/-- An id is refused as a duplicate for a request that was accepted at this revision or the one
before. -/
theorem Traced.duplicate (traced : Traced run log) (free : run.job = none) {requestId : Text}
    {live : Nat} (refused : (reserve run requestId live).2 = .error .duplicate) :
    ∃ expected applied, .accepted requestId expected applied ∈ log ∧ live ≤ applied + 1 := by
  obtain ⟨pending,_,_⟩ := traced.idle free
  rw [reserve,pending] at refused
  simp only at refused
  split at refused
  · cases refused
  · split at refused
    next taken =>
      have hit : hasId (evictSuperseded run.committed live) requestId = true := by
        simpa using taken
      obtain ⟨r,mem,same⟩ := any_eq_true.mp hit
      obtain ⟨stored,recent⟩ := mem_filter.mp mem
      obtain ⟨expected,accepted⟩ := traced.replayed.records r stored
      rw [beq_iff_eq] at same
      subst same
      refine ⟨expected,r.2,accepted,?_⟩
      simpa using recent
    next => cases refused

theorem Traced.settled (traced : Traced run log) (free : run.pendingGeneration = none)
    {turn : Nat} {outcome : TaskOutcome} (ended : .ended turn outcome ∈ log)
    (newest : ¬ Overtaken log turn) : .settled turn outcome ∈ log := by
  obtain ⟨before,after,same⟩ := append_of_mem ended
  obtain ⟨⟨generation,early⟩,_⟩ := traced.lawful before _ after same
  have began : .began turn generation ∈ log := by
    rw [same]
    exact mem_append_left _ early
  rcases (traced.turned.began turn generation began).2.lt_or_eq with below | rfl
  · exact absurd (traced.turned.overtaken turn generation began below) newest
  · rcases traced.turned.settles turn outcome ended began with settled | ⟨pending,reserved,_⟩
    · exact settled
    · rw [free] at reserved
      cases reserved

/-- In every run no request is sent twice, unless it was released between, and no id is sent again
at the revision behind its acceptance; an id is refused as a duplicate only for a request that was
accepted; only the newest turn settles the run, once; and the outcome of a turn that no other
overtook is settled, whatever was reserved and released meanwhile. -/
theorem machine_operations :
    Lawful Allowed ((machine row).noted events) ∧
      (((machine row).run events).job = none → ∀ requestId live,
        (reserve ((machine row).run events) requestId live).2 = .error .duplicate →
          ∃ expected applied, .accepted requestId expected applied ∈ (machine row).noted events ∧
            live ≤ applied + 1) ∧
      (((machine row).run events).pendingGeneration = none → ∀ turn outcome,
        .ended turn outcome ∈ (machine row).noted events →
          ¬ Overtaken ((machine row).noted events) turn →
            .settled turn outcome ∈ (machine row).noted events) := by
  have traced := machine_traced row events
  refine ⟨traced.lawful,?_,?_⟩
  · exact fun free _ _ refused => traced.duplicate free refused
  · exact fun free _ _ ended newest => traced.settled free ended newest

end Runs

end Keiko.RunOperation
