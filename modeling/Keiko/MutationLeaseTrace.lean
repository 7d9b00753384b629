import Keiko.MutationLease
import Mathlib.Data.List.Nodup

/-! What the notes of the coordinator tell in any run. Each note is allowed behind the notes before
it, because the records are the leases that are outstanding and the waiters are the waits that are
not answered; both are kept by every operation, with exceptions inside an operation only. -/
namespace Keiko.MutationLease
open Keiko.Library List

section Law

variable (before : List Note)

def Outstanding (lease : Nat) : Prop :=
  (∃ runId, .registered lease runId ∈ before) ∧ ∀ cause outcome, .settled lease cause outcome ∉ before

def marks : Note → Option Bool
  | .settled _ (.completed _) .rejected => none
  | .settled _ (.completed _) outcome => some (outcome == .succeeded)
  | .settled _ .refused _ => some false
  | .settled _ (.abandoned claimed) _ => if claimed then some false else none
  | .closed _ => some false
  | _ => none

def verdicts : List Bool := before.filterMap marks

structure SettledAs (lease : Nat) (cause : Cause) (outcome : MutationOutcome) : Prop where
  outstanding : Outstanding before lease
  succeeded : outcome = .succeeded → cause = .completed .succeeded ∧ .claimed lease ∈ before
  rejected : outcome = .rejected → cause = .completed .rejected ∧ .claimed lease ∉ before
  abandoned : ∀ claimed, cause = .abandoned claimed → (claimed = true ↔ .claimed lease ∈ before)

def ResolvedAs (signal : Nat) (outcome : MutationOutcome) : Option Nat → Prop
  | none => outcome = .failed
  | some lease => (∃ cause, .settled lease cause outcome ∈ before) ∨
      outcome = .cancelled ∧ .aborted signal ∈ before

def IdleAs (signal : Nat) : MutationIdleOutcome → Prop
  | .notIdle => .aborted signal ∈ before ∨ .disposed ∈ before
  | verdict => (∀ lease, ¬ Outstanding before lease) ∧
      (false ∉ verdicts before → verdict = .idleSucceeded) ∧
      ((verdicts before).getLast? = some false → verdict = .idleFailed)

def Allowed : Note → Prop
  | .registered lease runId =>
    (∀ other, .registered lease other ∉ before) ∧ .revoked runId ∉ before ∧ .disposed ∉ before
  | .claimed lease => Outstanding before lease ∧ .claimed lease ∉ before ∧
      ∀ runId, .registered lease runId ∈ before → .revoked runId ∉ before
  | .settled lease cause outcome => SettledAs before lease cause outcome
  | .waits waiter _ _ => ∀ signal lease, .waits waiter signal lease ∉ before
  | .resolved waiter outcome => (∀ other, .resolved waiter other ∉ before) ∧
      ∃ signal lease, .waits waiter signal lease ∈ before ∧ ResolvedAs before signal outcome lease
  | .waitsIdle waiter _ => ∀ signal, .waitsIdle waiter signal ∉ before
  | .idle waiter verdict => (∀ other, .idle waiter other ∉ before) ∧
      ∃ signal, .waitsIdle waiter signal ∈ before ∧ IdleAs before signal verdict
  | _ => True

end Law

section Agreement

/-- The records are the outstanding leases, none of a revoked run but the one that is being
revoked. -/
structure Leases (revoking : Option Text) (coord : Coordinator) (notes : List Note) :
    Prop where
  outstanding : ∀ lease, Outstanding notes lease ↔ ∃ record ∈ coord.records, record.id = lease
  named : ∀ record ∈ coord.records, ∀ runId, .registered record.id runId ∈ notes → runId = record.runId
  claimed : ∀ record ∈ coord.records, record.claimed = true ↔ .claimed record.id ∈ notes
  ids : (coord.records.map (·.id)).Nodup
  keys : (coord.records.map (·.key)).Nodup
  open_runs : ∀ record ∈ coord.records,
    .revoked record.runId ∈ notes → some record.runId = revoking
  revoked : ∀ runId, .revoked runId ∈ notes ↔ runId ∈ coord.revokedRuns
  fresh : ∀ lease runId, .registered lease runId ∈ notes → lease < coord.registered

def Unanswered (notes : List Note) (waiter : Waiter) : Prop :=
  match waiter.awaits with
  | .mutation lease => .waits waiter.id waiter.signal (some lease) ∈ notes ∧
      ∀ outcome, .resolved waiter.id outcome ∉ notes
  | .idle => .waitsIdle waiter.id waiter.signal ∈ notes ∧ ∀ verdict, .idle waiter.id verdict ∉ notes

/-- The waiters, with those that are about to be answered, are the waits that are not answered. -/
structure Waits (leaving : List Waiter) (coord : Coordinator) (notes : List Note) :
    Prop where
  unanswered : ∀ waiter ∈ leaving ++ coord.waiters, Unanswered notes waiter
  distinct : ((leaving ++ coord.waiters).map (·.id)).Nodup
  waiting : ∀ waiter signal lease, .waits waiter signal (some lease) ∈ notes →
    (∃ outcome, .resolved waiter outcome ∈ notes) ∨ ⟨waiter,signal,.mutation lease⟩ ∈ leaving ++ coord.waiters
  missing : ∀ waiter signal, .waits waiter signal none ∈ notes → ∃ outcome, .resolved waiter outcome ∈ notes
  waitingIdle : ∀ waiter signal, .waitsIdle waiter signal ∈ notes →
    (∃ verdict, .idle waiter verdict ∈ notes) ∨ ⟨waiter,signal,.idle⟩ ∈ leaving ++ coord.waiters
  fresh : ∀ waiter signal, (∃ lease, .waits waiter signal lease ∈ notes) ∨
    .waitsIdle waiter signal ∈ notes → waiter < coord.waited

structure Traced (revoking : Option Text) (leaving : List Waiter) (coord : Coordinator)
    (notes : List Note) : Prop where
  lawful : Lawful Allowed notes
  leases : Leases revoking coord notes
  waits : Waits leaving coord notes
  live : ∀ waiter ∈ coord.waiters, ∀ lease, waiter.awaits = .mutation lease → Outstanding notes lease
  disposed : .disposed ∈ notes ↔ coord.disposed = true
  aborted : ∀ signal, .aborted signal ∈ notes ↔ signal ∈ coord.aborted
  verdict : coord.latestSucceeded = (verdicts notes).getLast?

def Busy (coord : Coordinator) : Prop :=
  ∀ waiter ∈ coord.waiters, waiter.awaits = .idle → coord.records ≠ []

end Agreement

section Frames

variable {revoking : Option Text} {leaving : List Waiter} {coord coord' : Coordinator}
variable {log more : List Note}

def concernsLeases : Note → Bool
  | .registered _ _ => true
  | .claimed _ => true
  | .settled _ _ _ => true
  | .revoked _ => true
  | _ => false

def concernsWaits : Note → Bool
  | .waits _ _ _ => true
  | .resolved _ _ => true
  | .waitsIdle _ _ => true
  | .idle _ _ => true
  | _ => false

theorem mem_append_plain {concerns : Note → Bool} {note : Note} (concerned : concerns note = true)
    (plain : ∀ other ∈ more, concerns other = false) : note ∈ log ++ more ↔ note ∈ log := by
  rw [mem_append,or_iff_left]
  intro mem
  rw [plain note mem] at concerned
  cases concerned

theorem outstanding_frame (plain : ∀ note ∈ more, concernsLeases note = false) (lease : Nat) :
    Outstanding (log ++ more) lease ↔ Outstanding log lease := by
  have registered (runId : Text) : Note.registered lease runId ∈ log ++ more ↔
      .registered lease runId ∈ log := mem_append_plain rfl plain
  have settled (cause : Cause) (outcome : MutationOutcome) :
      Note.settled lease cause outcome ∈ log ++ more ↔ .settled lease cause outcome ∈ log :=
    mem_append_plain rfl plain
  simp only [Outstanding,registered,settled]

theorem Leases.frame (leases : Leases revoking coord log) (records : coord'.records = coord.records)
    (runs : coord'.revokedRuns = coord.revokedRuns)
    (counted : coord'.registered = coord.registered)
    (plain : ∀ note ∈ more, concernsLeases note = false) :
    Leases revoking coord' (log ++ more) := by
  have registered (lease : Nat) (runId : Text) : Note.registered lease runId ∈ log ++ more ↔
      .registered lease runId ∈ log := mem_append_plain rfl plain
  have claimed (lease : Nat) : Note.claimed lease ∈ log ++ more ↔ .claimed lease ∈ log :=
    mem_append_plain rfl plain
  have revoked (runId : Text) : Note.revoked runId ∈ log ++ more ↔ .revoked runId ∈ log :=
    mem_append_plain rfl plain
  obtain ⟨outstanding,named,isClaimed,ids,keys,open_runs,isRevoked,fresh⟩ := leases
  refine ⟨?_,?_,?_,?_,?_,?_,?_,?_⟩ <;>
    simp only [records,runs,counted,registered,claimed,revoked,outstanding_frame plain]
  all_goals assumption

theorem Waits.frame (waits : Waits leaving coord log) (waiters : coord'.waiters = coord.waiters)
    (counted : coord'.waited = coord.waited)
    (plain : ∀ note ∈ more, concernsWaits note = false) :
    Waits leaving coord' (log ++ more) := by
  have began (waiter signal : Nat) (lease : Option Nat) :
      Note.waits waiter signal lease ∈ log ++ more ↔ .waits waiter signal lease ∈ log :=
    mem_append_plain rfl plain
  have resolved (waiter : Nat) (outcome : MutationOutcome) :
      Note.resolved waiter outcome ∈ log ++ more ↔ .resolved waiter outcome ∈ log :=
    mem_append_plain rfl plain
  have beganIdle (waiter signal : Nat) :
      Note.waitsIdle waiter signal ∈ log ++ more ↔ .waitsIdle waiter signal ∈ log :=
    mem_append_plain rfl plain
  have idle (waiter : Nat) (verdict : MutationIdleOutcome) :
      Note.idle waiter verdict ∈ log ++ more ↔ .idle waiter verdict ∈ log :=
    mem_append_plain rfl plain
  obtain ⟨unanswered,nodup,waiting,gone,waitingIdle,fresh⟩ := waits
  refine ⟨?_,?_,?_,?_,?_,?_⟩ <;>
    simp only [waiters,counted,Unanswered,began,resolved,beganIdle,idle] at unanswered ⊢
  all_goals assumption

theorem verdicts_append : verdicts (log ++ more) = verdicts log ++ verdicts more :=
  filterMap_append

theorem verdicts_frame (plain : ∀ note ∈ more, marks note = none) : verdicts (log ++ more) = verdicts log := by
  rw [verdicts_append,verdicts,verdicts,filterMap_eq_nil_iff.mpr plain,append_nil]

end Frames

section Answers

variable {revoking : Option Text} {leaving : List Waiter} {coord : Coordinator}
variable {log : List Note} {w : Waiter} {note : Note}

def Answered (log : List Note) (w : Waiter) (note : Note) : Prop :=
  match w.awaits with
  | .mutation lease => ∃ outcome, note = .resolved w.id outcome ∧
      ResolvedAs log w.signal outcome (some lease)
  | .idle => ∃ verdict, note = .idle w.id verdict ∧ IdleAs log w.signal verdict

theorem Answered.allowed (answered : Answered log w note)
    (unanswered : Unanswered log w) : Allowed log note := by
  rw [Answered] at answered
  rw [Unanswered] at unanswered
  cases awaits : w.awaits with
  | mutation lease =>
    rw [awaits] at answered unanswered
    obtain ⟨outcome,rfl,resolved⟩ := answered
    exact ⟨unanswered.2,_,_,unanswered.1,resolved⟩
  | idle =>
    rw [awaits] at answered unanswered
    obtain ⟨verdict,rfl,idle⟩ := answered
    exact ⟨unanswered.2,_,unanswered.1,idle⟩

theorem Answered.plain (answered : Answered log w note) :
    concernsLeases note = false ∧ marks note = none ∧ note ≠ .disposed ∧ ∀ signal, note ≠ .aborted signal := by
  rw [Answered] at answered
  split at answered <;> obtain ⟨_,rfl,_⟩ := answered <;> simp [concernsLeases,marks]

theorem Answered.later {other : Waiter} {more : Note} (answered : Answered log other more)
    (a : Answered log w note) : Answered (log ++ [note]) other more := by
  obtain ⟨leases,unmarked,notDisposed,notAborted⟩ := a.plain
  have plain : ∀ added ∈ [note], concernsLeases added = false := by
    simpa using leases
  have settled (lease : Nat) (cause : Cause) (outcome : MutationOutcome) :
      Note.settled lease cause outcome ∈ log ++ [note] ↔ .settled lease cause outcome ∈ log :=
    mem_append_plain rfl plain
  have aborted (signal : Nat) : Note.aborted signal ∈ log ++ [note] ↔ .aborted signal ∈ log := by
    simp [Ne.symm (notAborted signal)]
  have disposed : Note.disposed ∈ log ++ [note] ↔ .disposed ∈ log := by
    simp [Ne.symm notDisposed]
  have same : verdicts (log ++ [note]) = verdicts log := by
    apply verdicts_frame
    simpa using unmarked
  rw [Answered] at answered ⊢
  cases awaits : other.awaits with
  | mutation lease =>
    rw [awaits] at answered
    obtain ⟨outcome,rfl,resolved⟩ := answered
    refine ⟨outcome,rfl,?_⟩
    simpa only [ResolvedAs,settled,aborted] using resolved
  | idle =>
    rw [awaits] at answered
    obtain ⟨verdict,rfl,idle⟩ := answered
    refine ⟨verdict,rfl,?_⟩
    cases verdict <;>
      simpa only [IdleAs,aborted,disposed,same,outstanding_frame plain] using idle

theorem Waits.answer (waits : Waits (w :: leaving) coord log)
    (answered : Answered log w note) : Waits leaving coord (log ++ [note]) := by
  have apart : ∀ other ∈ leaving ++ coord.waiters, other.id ≠ w.id := by
    intro other mem same
    have nodup := waits.distinct
    rw [cons_append,map_cons,nodup_cons] at nodup
    exact nodup.1 (same ▸ mem_map_of_mem mem)
  rw [Answered] at answered
  refine ⟨?_,?_,?_,?_,?_,?_⟩
  · intro other mem
    have unanswered := waits.unanswered other (mem_cons_of_mem _ mem)
    have nodup := apart other mem
    rw [Unanswered] at unanswered ⊢
    split at answered <;> obtain ⟨_,rfl,_⟩ := answered <;> split <;> rename_i awaited <;>
      simp_all
  · have nodup := waits.distinct
    rw [cons_append,map_cons,nodup_cons] at nodup
    exact nodup.2
  · intro id signal lease began
    have before : Note.waits id signal (some lease) ∈ log := by
      split at answered <;> obtain ⟨_,rfl,_⟩ := answered <;> simpa using began
    rcases waits.waiting id signal lease before with ⟨outcome,resolved⟩ | pending
    · exact .inl ⟨outcome,mem_append_left _ resolved⟩
    · rcases mem_cons.mp pending with rfl | post
      · obtain ⟨outcome,rfl,_⟩ := answered
        exact .inl ⟨outcome,by simp⟩
      · exact .inr post
  · intro id signal began
    have before : Note.waits id signal none ∈ log := by
      split at answered <;> obtain ⟨_,rfl,_⟩ := answered <;> simpa using began
    obtain ⟨outcome,resolved⟩ := waits.missing id signal before
    exact ⟨outcome,mem_append_left _ resolved⟩
  · intro id signal began
    have before : Note.waitsIdle id signal ∈ log := by
      split at answered <;> obtain ⟨_,rfl,_⟩ := answered <;> simpa using began
    rcases waits.waitingIdle id signal before with ⟨verdict,idle⟩ | pending
    · exact .inl ⟨verdict,mem_append_left _ idle⟩
    · rcases mem_cons.mp pending with rfl | post
      · obtain ⟨verdict,rfl,_⟩ := answered
        exact .inl ⟨verdict,by simp⟩
      · exact .inr post
  · intro id signal began
    apply waits.fresh id signal
    split at answered <;> obtain ⟨_,rfl,_⟩ := answered <;> simpa using began

theorem Traced.answer (traced : Traced revoking (w :: leaving) coord log)
    (answered : Answered log w note) :
    Traced revoking leaving coord (log ++ [note]) := by
  obtain ⟨leases,unmarked,notDisposed,notAborted⟩ := answered.plain
  have plain : ∀ added ∈ [note], concernsLeases added = false := by
    simpa using leases
  refine ⟨?_,traced.leases.frame rfl rfl rfl plain,traced.waits.answer answered,?_,?_,?_,?_⟩
  · apply traced.lawful.snoc
    exact answered.allowed (traced.waits.unanswered w mem_cons_self)
  · intro other mem lease awaits
    rw [outstanding_frame plain]
    exact traced.live other mem lease awaits
  · rw [← traced.disposed]
    simp [Ne.symm notDisposed]
  · intro signal
    rw [← traced.aborted]
    simp [Ne.symm (notAborted signal)]
  · rw [traced.verdict,verdicts_frame]
    simpa using unmarked

theorem Traced.answer_all {waiters : List Waiter} {f : Waiter → Note}
    (traced : Traced revoking (waiters ++ leaving) coord log)
    (answered : ∀ w ∈ waiters, Answered log w (f w)) :
    Traced revoking leaving coord (log ++ waiters.map f) := by
  induction waiters generalizing log with
  | nil =>
    rw [map_nil,append_nil]
    exact traced
  | cons w waiters ih =>
    have a := answered w mem_cons_self
    have rest := @ih (log ++ [f w]) (traced.answer a) (by
      intro other mem
      exact (answered other (mem_cons_of_mem _ mem)).later a)
    rw [append_assoc] at rest
    exact rest

theorem Waits.leave {mine others : List Waiter} (waits : Waits leaving coord log)
    (parts : (mine ++ others).Perm coord.waiters) {coord' : Coordinator}
    (left : coord'.waiters = others) (counted : coord'.waited = coord.waited) :
    Waits (mine ++ leaving) coord' log := by
  have perm : ((mine ++ leaving) ++ others).Perm (leaving ++ coord.waiters) := by
    rw [append_assoc]
    refine List.Perm.trans ?_ (parts.append_left leaving)
    rw [← append_assoc,← append_assoc]
    exact perm_append_comm.append_right others
  refine ⟨?_,?_,?_,waits.missing,?_,?_⟩
  · intro w mem
    rw [left] at mem
    exact waits.unanswered w (perm.subset mem)
  · rw [left]
    exact (perm.map _).nodup_iff.mpr waits.distinct
  · intro w signal lease began
    rw [left]
    exact (waits.waiting w signal lease began).imp_right fun mem =>
      perm.symm.subset mem
  · intro w signal began
    rw [left]
    exact (waits.waitingIdle w signal began).imp_right fun mem =>
      perm.symm.subset mem
  · intro w signal began
    rw [counted]
    exact waits.fresh w signal began

theorem Traced.leave {mine others : List Waiter} (traced : Traced revoking leaving coord log)
    (parts : (mine ++ others).Perm coord.waiters) :
    Traced revoking (mine ++ leaving) { coord with waiters := others } log := by
  have none_added := @Leases.frame revoking coord { coord with waiters := others } log []
    traced.leases rfl rfl rfl (by simp)
  rw [append_nil] at none_added
  refine { traced with leases := none_added, waits := traced.waits.leave parts rfl rfl, live := ?_ }
  intro w mem
  exact traced.live w (parts.subset (mem_append_right _ mem))

end Answers

section Settling

variable {revoking : Option Text} {leaving : List Waiter} {coord : Coordinator}
variable {log : List Note} {record : LeaseRecord} {cause : Cause} {out : MutationOutcome}

theorem Leases.same_record (leases : Leases revoking coord log) (mem : record ∈ coord.records) {other : LeaseRecord}
    (inside : other ∈ coord.records) : other.key = record.key ↔ other.id = record.id := by
  constructor
  · intro same
    rw [inj_on_of_nodup_map leases.keys inside mem same]
  · intro same
    rw [inj_on_of_nodup_map leases.ids inside mem same]

theorem outstanding_settled (log : List Note) (lease other : Nat) (cause : Cause)
    (out : MutationOutcome) : Outstanding (log ++ [.settled lease cause out]) other ↔
      Outstanding log other ∧ other ≠ lease := by
  constructor
  · intro ⟨⟨runId,registered⟩,unsettled⟩
    refine ⟨⟨⟨runId,by simpa using registered⟩,?_⟩,?_⟩
    · intro cause' outcome' settled
      exact unsettled cause' outcome' (mem_append_left _ settled)
    · intro same
      exact unsettled cause out (by simp [same])
  · intro ⟨⟨⟨runId,registered⟩,unsettled⟩,nodup⟩
    refine ⟨⟨runId,mem_append_left _ registered⟩,?_⟩
    intro cause' outcome' settled
    rcases mem_append.mp settled with before | last
    · exact unsettled cause' outcome' before
    · simp only [mem_singleton,Note.settled.injEq] at last
      exact nodup last.1

theorem Leases.settle (leases : Leases revoking coord log) (mem : record ∈ coord.records) {coord' : Coordinator}
    (records : coord'.records = coord.records.filter (·.key != record.key))
    (runs : coord'.revokedRuns = coord.revokedRuns)
    (counted : coord'.registered = coord.registered) :
    Leases revoking coord' (log ++ [.settled record.id cause out]) := by
  have left (other : LeaseRecord) : other ∈ coord'.records ↔ other ∈ coord.records ∧ other.id ≠ record.id := by
    rw [records,mem_filter,bne_iff_ne]
    apply and_congr_right
    intro inside
    exact not_congr (leases.same_record mem inside)
  have part : coord'.records.Sublist coord.records := by
    rw [records]
    exact filter_sublist
  refine ⟨?_,?_,?_,leases.ids.sublist (part.map _),leases.keys.sublist (part.map _),?_,?_,?_⟩
  · intro lease
    rw [outstanding_settled,leases.outstanding]
    constructor
    · intro ⟨⟨other,inside,same⟩,nodup⟩
      exact ⟨other,(left other).mpr ⟨inside,same ▸ nodup⟩,same⟩
    · intro ⟨other,inside,same⟩
      obtain ⟨before,nodup⟩ := (left other).mp inside
      exact ⟨⟨other,before,same⟩,same ▸ nodup⟩
  · intro other inside runId registered
    apply leases.named other (part.subset inside)
    simpa using registered
  · intro other inside
    rw [leases.claimed other (part.subset inside)]
    simp
  · intro other inside revoked
    apply leases.open_runs other (part.subset inside)
    simpa using revoked
  · intro runId
    rw [runs,← leases.revoked]
    simp
  · intro lease runId registered
    rw [counted]
    apply leases.fresh lease runId
    simpa using registered

theorem getLast?_verdicts (log : List Note) (note : Note) :
    (verdicts (log ++ [note])).getLast? = (marks note).or (verdicts log).getLast? := by
  rw [verdicts_append]
  cases marked : marks note <;> simp [verdicts,marked]

theorem Traced.settle {mine others : List Waiter} (traced : Traced revoking leaving coord log)
    (mem : record ∈ coord.records) (as : SettledAs log record.id cause out)
    (parts : (mine ++ others).Perm coord.waiters)
    (unrelated : ∀ waiter ∈ others, waiter.awaits ≠ .mutation record.id) :
    Traced revoking (mine ++ leaving) { coord with
        records := coord.records.filter (·.key != record.key)
        waiters := others
        latestSucceeded :=
          (marks (.settled record.id cause out)).or coord.latestSucceeded }
      (log ++ [.settled record.id cause out]) := by
  have plain : ∀ note ∈ [Note.settled record.id cause out], concernsWaits note = false := by
    simp [concernsWaits]
  have left := traced.leave parts
  refine ⟨traced.lawful.snoc as,traced.leases.settle mem rfl rfl rfl,left.waits.frame rfl rfl plain,?_,?_,?_,?_⟩
  · intro waiter inside lease awaits
    rw [outstanding_settled]
    refine ⟨left.live waiter inside lease awaits,?_⟩
    intro same
    exact unrelated waiter inside (same ▸ awaits)
  · rw [← traced.disposed]
    simp
  · intro signal
    rw [← traced.aborted]
    simp
  · rw [getLast?_verdicts,traced.verdict]

theorem awaiting_perm (waiters : List Waiter) (awaited : Awaited) :
    (waiters.filter (·.awaits == awaited) ++ waiters.filter (·.awaits != awaited)).Perm waiters :=
  filter_append_perm _ _

theorem Traced.release (traced : Traced revoking leaving coord log)
    (mem : record ∈ coord.records) (as : SettledAs log record.id cause out) :
    Traced revoking leaving { coord with
        records := coord.records.filter (·.key != record.key)
        waiters := coord.waiters.filter (·.awaits != .mutation record.id)
        latestSucceeded :=
          (marks (.settled record.id cause out)).or coord.latestSucceeded }
      (log ++ (settleMutation record cause out coord).2) := by
  have settled := traced.settle mem as (awaiting_perm coord.waiters (.mutation record.id)) (by
    intro waiter inside
    simpa using (mem_filter.mp inside).2)
  have answered := @Traced.answer_all _ _ _ _ _ (MutationLease.answer · out coord.aborted) settled (by
    intro waiter inside
    have awaits : waiter.awaits = .mutation record.id := by
      simpa using (mem_filter.mp inside).2
    rw [Answered,awaits]
    refine ⟨_,rfl,?_⟩
    split
    next aborted =>
      refine .inr ⟨rfl,mem_append_left _ ?_⟩
      exact (traced.aborted waiter.signal).mpr aborted
    next => exact .inl ⟨cause,by simp⟩)
  rw [append_assoc] at answered
  exact answered

theorem Traced.settleIdleWaiters {verdict : MutationIdleOutcome} (traced : Traced revoking leaving coord log)
    (reason : ∀ waiter ∈ coord.waiters, waiter.awaits = .idle → IdleAs log waiter.signal verdict) :
    Traced revoking leaving (settleIdleWaiters verdict coord).1
      (log ++ (MutationLease.settleIdleWaiters verdict coord).2) := by
  have left := traced.leave (awaiting_perm coord.waiters .idle)
  apply left.answer_all
  intro waiter inside
  obtain ⟨mem,awaits⟩ := mem_filter.mp inside
  rw [beq_iff_eq] at awaits
  rw [Answered,awaits]
  exact ⟨verdict,rfl,reason waiter mem awaits⟩

theorem Traced.idleAs (traced : Traced revoking leaving coord log) (free : coord.records = []) (signal : Nat) :
    IdleAs log signal (idleOutcome coord) := by
  have nobody : ∀ lease, ¬ Outstanding log lease := by
    intro lease outstanding
    obtain ⟨record,mem,_⟩ := (traced.leases.outstanding lease).mp outstanding
    rw [free] at mem
    cases mem
  rw [idleOutcome,traced.verdict]
  split
  next failed =>
    refine ⟨nobody,?_,fun _ => rfl⟩
    intro unfailed
    exact absurd (mem_of_getLast? (beq_iff_eq.mp failed)) unfailed
  next notFailed =>
    refine ⟨nobody,fun _ => rfl,?_⟩
    intro failed
    rw [failed] at notFailed
    exact absurd rfl notFailed

theorem Traced.settleIfIdle (traced : Traced revoking leaving coord log) :
    Traced revoking leaving (settleIfIdle coord).1 (log ++ (MutationLease.settleIfIdle coord).2) ∧
      Busy (MutationLease.settleIfIdle coord).1 := by
  rw [MutationLease.settleIfIdle]
  split
  next free =>
    refine ⟨traced.settleIdleWaiters fun waiter _ _ =>
      traced.idleAs (isEmpty_iff.mp free) waiter.signal,?_⟩
    intro waiter mem awaits
    have other := (mem_filter.mp mem).2
    rw [awaits] at other
    simp at other
  next busy =>
    rw [Effect.skip,append_nil]
    refine ⟨traced,?_⟩
    intro _ _ _ none
    rw [none] at busy
    exact busy rfl

end Settling

section Cancelling

variable {revoking : Option Text} {leaving : List Waiter} {coord : Coordinator}
variable {log : List Note} {record : LeaseRecord}

structure Steady (revoking : Option Text) (leaving : List Waiter) (coord : Coordinator)
    (log : List Note) : Prop where
  traced : Traced revoking leaving coord log
  busy : Busy coord

theorem Leases.outstanding_record (leases : Leases revoking coord log)
    (mem : record ∈ coord.records) : Outstanding log record.id :=
  (leases.outstanding record.id).mpr ⟨record,mem,rfl⟩

theorem Steady.cancelsPending (steady : Steady revoking leaving coord log) (runId : Text) :
    Steady revoking leaving coord (log ++ [.cancelsPending runId]) := by
  have traced := steady.traced
  have leases : ∀ note ∈ [Note.cancelsPending runId], concernsLeases note = false := by
    simp [concernsLeases]
  have waits : ∀ note ∈ [Note.cancelsPending runId], concernsWaits note = false := by
    simp [concernsWaits]
  refine ⟨⟨traced.lawful.snoc trivial,traced.leases.frame rfl rfl rfl leases,
    traced.waits.frame rfl rfl waits,?_,?_,?_,?_⟩,steady.busy⟩
  · intro waiter mem lease awaits
    rw [outstanding_frame leases]
    exact traced.live waiter mem lease awaits
  · rw [← traced.disposed]
    simp
  · intro signal
    rw [← traced.aborted]
    simp
  · rw [traced.verdict,getLast?_verdicts]
    rfl

theorem Steady.cancelUnclaimedMutation (steady : Steady revoking leaving coord log)
    (lease : Nat) : Steady revoking leaving (cancelUnclaimedMutation lease coord).1
      (log ++ (MutationLease.cancelUnclaimedMutation lease coord).2) := by
  rw [MutationLease.cancelUnclaimedMutation]
  split
  · rw [Effect.skip,append_nil]
    exact steady
  next record hit =>
    have mem := mem_of_find?_eq_some hit
    split
    · rw [Effect.skip,append_nil]
      exact steady
    · have as : SettledAs log record.id .aborted .cancelled := by
        refine ⟨steady.traced.leases.outstanding_record mem,?_,?_,?_⟩ <;> intros <;> contradiction
      obtain ⟨traced,busy⟩ := (steady.traced.release mem as).settleIfIdle
      have done := (Steady.mk traced busy).cancelsPending record.runId
      rw [append_assoc,append_assoc] at done
      exact done

theorem Steady.onAbort (steady : Steady revoking [] coord log) {waiter : Waiter}
    (aborted : waiter.signal ∈ coord.aborted) :
    Steady revoking [] (onAbort waiter coord).1 (log ++ (MutationLease.onAbort waiter coord).2) := by
  rw [MutationLease.onAbort]
  split
  next mem =>
    have parts : ([waiter] ++ coord.waiters.filter (· != waiter)).Perm coord.waiters := by
      have nodup : coord.waiters.Nodup := steady.traced.waits.distinct.of_map _
      rw [← nodup.erase_eq_filter]
      exact (perm_cons_erase mem).symm
    have left := steady.traced.leave parts
    have busy : Busy { coord with
        waiters := coord.waiters.filter (· != waiter) } := by
      intro other inside
      exact steady.busy other (mem_filter.mp inside).1
    have told := (steady.traced.aborted waiter.signal).mpr aborted
    simp only
    split
    next awaits =>
      refine ⟨?_,busy⟩
      apply left.answer
      rw [Answered,awaits]
      exact ⟨_,rfl,.inl told⟩
    next lease awaits =>
      obtain ⟨traced,busy⟩ := (Steady.mk left busy).cancelUnclaimedMutation lease
      refine ⟨?_,busy⟩
      have answered : Traced revoking [] _ (_ ++ [.resolved waiter.id .cancelled]) :=
        traced.answer (by
          rw [Answered,awaits]
          exact ⟨_,rfl,.inr ⟨rfl,mem_append_left _ told⟩⟩)
      rw [append_assoc] at answered
      exact answered
  next =>
    rw [Effect.skip,append_nil]
    exact steady

theorem cancelUnclaimedMutation_aborted (lease : Nat) (coord : Coordinator) :
    (MutationLease.cancelUnclaimedMutation lease coord).1.aborted = coord.aborted := by
  rw [MutationLease.cancelUnclaimedMutation]
  split
  · rfl
  · split
    · rfl
    · simp only [Effect.andThen,Effect.note]
      rw [MutationLease.settleIfIdle]
      split <;> rfl

theorem onAbort_aborted (waiter : Waiter) (coord : Coordinator) :
    (MutationLease.onAbort waiter coord).1.aborted = coord.aborted := by
  rw [MutationLease.onAbort]
  split
  · simp only
    split
    · rfl
    · exact cancelUnclaimedMutation_aborted _ _
  · rfl

theorem Steady.abort (steady : Steady revoking [] coord log) (signal : Nat) :
    Steady revoking [] (abort signal coord).1 (log ++ (MutationLease.abort signal coord).2) := by
  rw [MutationLease.abort]
  split
  · rw [Effect.skip,append_nil]
    exact steady
  · have traced := steady.traced
    have leases : ∀ note ∈ [Note.aborted signal], concernsLeases note = false := by
      simp [concernsLeases]
    have waits : ∀ note ∈ [Note.aborted signal], concernsWaits note = false := by
      simp [concernsWaits]
    have told : Steady revoking [] { coord with aborted := signal :: coord.aborted } (log ++ [.aborted signal]) := by
      refine ⟨⟨traced.lawful.snoc trivial,traced.leases.frame rfl rfl rfl leases,
        traced.waits.frame rfl rfl waits,?_,?_,?_,?_⟩,steady.busy⟩
      · intro waiter mem lease awaits
        rw [outstanding_frame leases]
        exact traced.live waiter mem lease awaits
      · rw [← traced.disposed]
        simp
      · intro other
        simp [traced.aborted other,or_comm]
      · rw [traced.verdict,getLast?_verdicts]
        rfl
    have listening : ∀ waiter ∈ coord.waiters.filter (·.signal == signal), waiter.signal ∈ signal :: coord.aborted := by
      intro waiter mem
      have own : waiter.signal = signal := by
        simpa using (mem_filter.mp mem).2
      rw [own]
      exact mem_cons_self
    -- Every listener that is left to call is one of this signal.
    have called := @Effect.forEach_holds _ _ _ MutationLease.onAbort
      (fun waiters coord log => (∀ waiter ∈ waiters, waiter.signal ∈ coord.aborted) ∧
        Steady revoking [] coord log) (by
      rintro waiter waiters s log ⟨listening,steady⟩
      refine ⟨?_,steady.onAbort (listening waiter mem_cons_self)⟩
      intro other mem
      rw [onAbort_aborted]
      exact listening other (mem_cons_of_mem _ mem))
      (coord.waiters.filter (·.signal == signal)) _ _ ⟨listening,told⟩
    have done := called.2
    rw [append_assoc] at done
    exact done

end Cancelling

section Operating

variable {coord : Coordinator} {log : List Note} {record : LeaseRecord}
variable {req : LeaseRequest}

theorem findRecord_some (hit : findRecord coord req = some record) : record ∈ coord.records := by
  rw [findRecord] at hit
  split at hit
  · cases hit
  · exact mem_of_find?_eq_some (Option.filter_eq_some_iff.mp hit).1

theorem Steady.skip (steady : Steady none [] coord log) : Steady none [] coord (log ++ []) := by
  rw [append_nil]
  exact steady

theorem Steady.register (steady : Steady none [] coord log) (registration : LeaseRegistration) :
    Steady none [] (registerRecord registration coord).2.1 (log ++ (registerRecord registration coord).2.2) := by
  rw [registerRecord]
  simp only
  split
  · exact steady.skip
  next admitted =>
    simp only [Bool.or_eq_true,decide_eq_true_eq,Bool.not_eq_true',not_or,Bool.not_eq_true] at admitted
    obtain ⟨⟨⟨⟨notDisposed,notRevoked⟩,_⟩,newKey⟩,_⟩ := admitted
    have traced := steady.traced
    have new : ∀ runId, Note.registered coord.registered runId ∉ log := by
      intro runId registered
      exact absurd (traced.leases.fresh _ runId registered) (Nat.lt_irrefl _)
    have unrevoked : Note.revoked registration.authorityRef.runId ∉ log := by
      rw [traced.leases.revoked]
      simpa using notRevoked
    have undisposed : Note.disposed ∉ log := by
      rw [traced.disposed,notDisposed]
      exact Bool.false_ne_true
    have older : ∀ other ∈ coord.records, other.id ≠ coord.registered := by
      intro other mem same
      obtain ⟨runId,registered⟩ := (traced.leases.outstanding_record mem).1
      exact new runId (same ▸ registered)
    have unclaimed : Note.claimed coord.registered ∉ log := by
      intro claimed
      obtain ⟨before,after,rfl⟩ := append_of_mem claimed
      obtain ⟨⟨⟨runId,registered⟩,_⟩,_⟩ := traced.lawful before _ after rfl
      exact new runId (mem_append_left _ registered)
    have waits : ∀ note ∈ [Note.registered coord.registered registration.authorityRef.runId],
        concernsWaits note = false := by
      simp [concernsWaits]
    have outstanding (lease : Nat) : Outstanding (log ++
        [.registered coord.registered registration.authorityRef.runId]) lease ↔
          Outstanding log lease ∨ lease = coord.registered := by
      constructor
      · intro ⟨⟨runId,registered⟩,unsettled⟩
        by_cases own : lease = coord.registered
        · exact .inr own
        · refine .inl ⟨⟨runId,by simpa [own] using registered⟩,?_⟩
          intro cause outcome settled
          exact unsettled cause outcome (mem_append_left _ settled)
      · intro either
        rcases either with ⟨⟨runId,registered⟩,unsettled⟩ | rfl
        · refine ⟨⟨runId,mem_append_left _ registered⟩,?_⟩
          intro cause outcome settled
          exact unsettled cause outcome (by simpa using settled)
        · refine ⟨⟨_,mem_append_right _ mem_cons_self⟩,?_⟩
          intro cause outcome settled
          have before : Note.settled coord.registered cause outcome ∈ log := by
            simpa using settled
          obtain ⟨front,after,rfl⟩ := append_of_mem before
          obtain ⟨⟨⟨runId,registered⟩,_⟩,_⟩ := traced.lawful front _ after rfl
          exact new runId (mem_append_left _ registered)
    refine ⟨⟨traced.lawful.snoc ⟨new,unrevoked,undisposed⟩,?_,traced.waits.frame rfl rfl waits,?_,?_,?_,?_⟩,?_⟩
    · refine ⟨?_,?_,?_,?_,?_,?_,?_,?_⟩
      · intro lease
        rw [outstanding,traced.leases.outstanding]
        simp [or_and_right,exists_or,eq_comm]
      · intro other mem runId registered
        rcases mem_append.mp mem with before | last
        · apply traced.leases.named other before
          simpa [older other before] using registered
        · obtain rfl := mem_singleton.mp last
          have either : Note.registered coord.registered runId ∈ log ∨ runId = registration.authorityRef.runId := by
            simpa using registered
          exact either.resolve_left (new runId)
      · intro other mem
        rcases mem_append.mp mem with before | last
        · rw [traced.leases.claimed other before]
          simp
        · obtain rfl := mem_singleton.mp last
          simp [unclaimed]
      · rw [map_append,nodup_append]
        refine ⟨traced.leases.ids,nodup_singleton _,?_⟩
        intro id mem last single same
        obtain ⟨other,inside,rfl⟩ := mem_map.mp mem
        rw [map_singleton,mem_singleton] at single
        exact older other inside (same.trans single)
      · rw [map_append,nodup_append]
        refine ⟨traced.leases.keys,nodup_singleton _,?_⟩
        intro key mem last single same
        obtain ⟨other,inside,rfl⟩ := mem_map.mp mem
        rw [map_singleton,mem_singleton] at single
        rw [any_eq_false] at newKey
        exact newKey other inside (by simpa using same.trans single)
      · intro other mem revoked
        have before : Note.revoked other.runId ∈ log := by
          simpa using revoked
        rcases mem_append.mp mem with inside | last
        · exact traced.leases.open_runs other inside before
        · obtain rfl := mem_singleton.mp last
          exact absurd before unrevoked
      · intro runId
        rw [← traced.leases.revoked]
        simp
      · intro lease runId registered
        have either : Note.registered lease runId ∈ log ∨
            lease = coord.registered ∧ runId = registration.authorityRef.runId := by
          simpa using registered
        rcases either with before | ⟨rfl,_⟩
        · exact Nat.lt_succ_of_lt (traced.leases.fresh lease runId before)
        · exact Nat.lt_succ_self _
    · intro waiter mem lease awaits
      exact (outstanding lease).mpr (.inl (traced.live waiter mem lease awaits))
    · rw [← traced.disposed]
      simp
    · intro signal
      rw [← traced.aborted]
      simp
    · rw [traced.verdict,getLast?_verdicts]
      rfl
    · intro waiter _ _ none
      simp at none

theorem Steady.claimed (steady : Steady none [] coord log)
    (mem : record ∈ coord.records) (unclaimed : record.claimed = false) :
    Steady none [] { coord with records := coord.records.map fun other =>
        if other.id == record.id then { other with claimed := true } else other }
      (log ++ [.claimed record.id]) := by
  have traced := steady.traced
  have waits : ∀ note ∈ [Note.claimed record.id], concernsWaits note = false := by
    simp [concernsWaits]
  have outstanding (lease : Nat) : Outstanding (log ++ [.claimed record.id]) lease ↔ Outstanding log lease := by
    simp [Outstanding]
  -- A claim changes nothing of a record but its flag.
  have fs (other : LeaseRecord) :
      (if other.id == record.id then { other with claimed := true } else other).id = other.id ∧
      (if other.id == record.id then { other with claimed := true } else other).key = other.key ∧
      (if other.id == record.id then { other with claimed := true } else other).runId =
        other.runId := by
    split <;> exact ⟨rfl,rfl,rfl⟩
  have ids : (coord.records.map fun other : LeaseRecord =>
      if other.id == record.id then { other with claimed := true } else other).map (·.id) =
        coord.records.map (·.id) := by
    rw [map_map]
    exact map_congr_left fun other _ => (fs other).1
  have keys : (coord.records.map fun other : LeaseRecord =>
      if other.id == record.id then { other with claimed := true } else other).map (·.key) =
        coord.records.map (·.key) := by
    rw [map_map]
    exact map_congr_left fun other _ => (fs other).2.1
  have next : Allowed log (.claimed record.id) := by
    refine ⟨traced.leases.outstanding_record mem,?_,?_⟩
    · rw [← traced.leases.claimed record mem,unclaimed]
      exact Bool.false_ne_true
    · intro runId registered revoked
      rw [traced.leases.named record mem runId registered] at revoked
      cases traced.leases.open_runs record mem revoked
  refine ⟨⟨traced.lawful.snoc next,?_,traced.waits.frame rfl rfl waits,?_,?_,?_,?_⟩,?_⟩
  · refine ⟨?_,?_,?_,?_,?_,?_,?_,?_⟩
    · intro lease
      rw [outstanding,traced.leases.outstanding]
      constructor
      · intro ⟨other,inside,same⟩
        exact ⟨_,mem_map_of_mem inside,(fs other).1.trans same⟩
      · intro ⟨other,inside,same⟩
        obtain ⟨before,old,rfl⟩ := mem_map.mp inside
        exact ⟨before,old,(fs before).1.symm.trans same⟩
    · intro other inside runId registered
      obtain ⟨before,old,rfl⟩ := mem_map.mp inside
      rw [(fs before).1] at registered
      rw [(fs before).2.2]
      exact traced.leases.named before old runId (by simpa using registered)
    · intro other inside
      obtain ⟨before,old,rfl⟩ := mem_map.mp inside
      by_cases own : before.id = record.id
      · simp [own]
      · have flag := traced.leases.claimed before old
        simp [own,flag]
    · rw [ids]
      exact traced.leases.ids
    · rw [keys]
      exact traced.leases.keys
    · intro other inside revoked
      obtain ⟨before,old,rfl⟩ := mem_map.mp inside
      rw [(fs before).2.2] at revoked ⊢
      exact traced.leases.open_runs before old (by simpa using revoked)
    · intro runId
      rw [← traced.leases.revoked]
      simp
    · intro lease runId registered
      exact traced.leases.fresh lease runId (by simpa using registered)
  · intro waiter inside lease awaits
    rw [outstanding]
    exact traced.live waiter inside lease awaits
  · rw [← traced.disposed]
    simp
  · intro signal
    rw [← traced.aborted]
    simp
  · rw [traced.verdict,getLast?_verdicts]
    rfl
  · intro waiter inside awaits none
    exact steady.busy waiter inside awaits (map_eq_nil_iff.mp none)

theorem Steady.claim (steady : Steady none [] coord log) (req : LeaseRequest)
    (allowed : Bool) : Steady none [] (claimRecord req allowed coord).2.1
      (log ++ (claimRecord req allowed coord).2.2) := by
  rw [claimRecord]
  split
  · exact steady.skip
  next record hit =>
    have mem := findRecord_some hit
    split
    · exact steady.skip
    next unclaimed =>
      split
      · exact steady.claimed mem (by simpa using unclaimed)
      · have as : SettledAs log record.id .refused .failed := by
          refine ⟨steady.traced.leases.outstanding_record mem,?_,?_,?_⟩ <;> intros <;>
            contradiction
        obtain ⟨traced,busy⟩ := (steady.traced.release mem as).settleIfIdle
        rw [append_assoc] at traced
        exact ⟨traced,busy⟩

theorem settledMutationOutcome_as (steady : Steady none [] coord log)
    (mem : record ∈ coord.records) (completion : MutationCompletion) :
    SettledAs log record.id (.completed completion) (settledMutationOutcome completion record.claimed) := by
  have claimed := steady.traced.leases.claimed record mem
  refine ⟨steady.traced.leases.outstanding_record mem,?_,?_,?_⟩
  · intro succeeded
    rw [← claimed]
    cases completion <;> cases flag : record.claimed <;>
      simp [settledMutationOutcome,flag] at succeeded ⊢
  · intro rejected
    rw [← claimed]
    cases completion <;> cases flag : record.claimed <;>
      simp [settledMutationOutcome,flag] at rejected ⊢
  · intro _ same
    cases same

theorem Steady.complete (steady : Steady none [] coord log) (req : LeaseRequest)
    (completion : MutationCompletion) : Steady none [] (completeRecord req completion coord).2.1
      (log ++ (completeRecord req completion coord).2.2) := by
  rw [completeRecord]
  split
  · exact steady.skip
  next record hit =>
    have mem := findRecord_some hit
    have as := settledMutationOutcome_as steady mem completion
    obtain ⟨traced,busy⟩ := (steady.traced.release mem as).settleIfIdle
    rw [append_assoc] at traced
    simp only
    cases outcome : settledMutationOutcome completion record.claimed <;>
      rw [outcome] at traced busy <;> exact ⟨traced,busy⟩

theorem Steady.discard (steady : Steady none [] coord log) (req : LeaseRequest) :
    Steady none [] (discardUnclaimedLease req coord).2.1 (log ++ (discardUnclaimedLease req coord).2.2) := by
  rw [discardUnclaimedLease]
  split
  · exact steady.skip
  next record hit =>
    have mem := findRecord_some hit
    have claimed := steady.traced.leases.claimed record mem
    have as : SettledAs log record.id (.abandoned record.claimed) .failed := by
      refine ⟨steady.traced.leases.outstanding_record mem,?_,?_,?_⟩
      · intro same
        cases same
      · intro same
        cases same
      · intro flag same
        rw [← claimed]
        cases same
        exact Iff.rfl
    obtain ⟨traced,busy⟩ := (steady.traced.release mem as).settleIfIdle
    rw [append_assoc] at traced
    simp only
    cases flag : record.claimed <;> rw [flag] at traced busy <;> exact ⟨traced,busy⟩

end Operating

section Revoking

variable {coord : Coordinator} {log : List Note}

theorem Steady.revoked (steady : Steady none [] coord log) (runId : Text) :
    Steady (some runId) [] { coord with revokedRuns := runId :: coord.revokedRuns } (log ++ [.revoked runId]) := by
  have traced := steady.traced
  have waits : ∀ note ∈ [Note.revoked runId], concernsWaits note = false := by
    simp [concernsWaits]
  have outstanding (lease : Nat) : Outstanding (log ++ [.revoked runId]) lease ↔ Outstanding log lease := by
    simp [Outstanding]
  refine ⟨⟨traced.lawful.snoc trivial,?_,traced.waits.frame rfl rfl waits,?_,?_,?_,?_⟩,steady.busy⟩
  · refine ⟨?_,?_,?_,traced.leases.ids,traced.leases.keys,?_,?_,?_⟩
    · intro lease
      rw [outstanding,traced.leases.outstanding]
    · intro record mem other registered
      exact traced.leases.named record mem other (by simpa using registered)
    · intro record mem
      rw [traced.leases.claimed record mem]
      simp
    · intro record mem revoked
      have either : Note.revoked record.runId ∈ log ∨ record.runId = runId := by
        simpa using revoked
      rcases either with before | own
      · cases traced.leases.open_runs record mem before
      · rw [own]
    · intro other
      simp [traced.leases.revoked,or_comm]
    · intro lease other registered
      exact traced.leases.fresh lease other (by simpa using registered)
  · intro waiter mem lease awaits
    rw [outstanding]
    exact traced.live waiter mem lease awaits
  · rw [← traced.disposed]
    simp
  · intro signal
    rw [← traced.aborted]
    simp
  · rw [traced.verdict,getLast?_verdicts]
    rfl

structure Revoking (runId : Text) (left : List LeaseRecord) (coord : Coordinator)
    (log : List Note) : Prop where
  traced : Traced (some runId) [] coord log
  distinct : left.Nodup
  inside : ∀ record ∈ left, record ∈ coord.records
  whole : ∀ record ∈ coord.records, record.runId = runId → record ∈ left

theorem Revoking.step {runId : Text} {record : LeaseRecord} {left : List LeaseRecord}
    (revoking : Revoking runId (record :: left) coord log) :
    Revoking runId left ((deleteRecord record).andThen (settleMutation record .revoked .cancelled) coord).1
      (log ++ ((deleteRecord record).andThen (settleMutation record .revoked .cancelled) coord).2) := by
  have mem := revoking.inside record mem_cons_self
  obtain ⟨fresh,nodup⟩ := nodup_cons.mp revoking.distinct
  have leases := revoking.traced.leases
  have as : SettledAs log record.id .revoked .cancelled := by
    refine ⟨leases.outstanding_record mem,?_,?_,?_⟩ <;> intros <;> contradiction
  refine ⟨revoking.traced.release mem as,nodup,?_,?_⟩
  · intro other post
    have inside := revoking.inside other (mem_cons_of_mem _ post)
    refine mem_filter.mpr ⟨inside,?_⟩
    rw [bne_iff_ne,ne_eq]
    intro same
    rw [inj_on_of_nodup_map leases.keys inside mem same] at post
    exact fresh post
  · intro other post own
    obtain ⟨inside,differ⟩ := mem_filter.mp post
    rcases mem_cons.mp (revoking.whole other inside own) with rfl | rest
    · simp at differ
    · exact rest

theorem Revoking.closed {runId : Text} (revoking : Revoking runId [] coord log) :
    Traced none [] { coord with latestSucceeded := some false } (log ++ [.closed runId]) := by
  have traced := revoking.traced
  have leases : ∀ note ∈ [Note.closed runId], concernsLeases note = false := by
    simp [concernsLeases]
  have waits : ∀ note ∈ [Note.closed runId], concernsWaits note = false := by
    simp [concernsWaits]
  have framed := @Leases.frame _ coord { coord with latestSucceeded := some false } log
    _ traced.leases rfl rfl rfl leases
  refine ⟨traced.lawful.snoc trivial,?_,traced.waits.frame rfl rfl waits,?_,?_,?_,?_⟩
  · refine { framed with open_runs := ?_ }
    intro record mem revoked
    have own := framed.open_runs record mem revoked
    rw [Option.some_inj] at own
    cases revoking.whole record mem own
  · intro waiter mem lease awaits
    rw [outstanding_frame leases]
    exact traced.live waiter mem lease awaits
  · rw [← traced.disposed]
    simp
  · intro signal
    rw [← traced.aborted]
    simp
  · rw [getLast?_verdicts]
    rfl

theorem Steady.revokeRun (steady : Steady none [] coord log) (runId : Text)
    (aborts : List Nat) : Steady none [] (revokeRun runId aborts coord).2.1
      (log ++ (MutationLease.revokeRun runId aborts coord).2.2) := by
  rw [MutationLease.revokeRun]
  split
  · exact steady.skip
  · have keeps : Effect.Keeps (Steady (some runId) []) (Effect.forEach MutationLease.abort aborts) := by
      apply Effect.Keeps.forEach
      intro signal coord log steady
      exact steady.abort signal
    have aborted := keeps _ _ (steady.revoked runId)
    simp only [Effect.andThen]
    generalize Effect.forEach MutationLease.abort aborts
      { coord with revokedRuns := runId :: coord.revokedRuns } = after at aborted ⊢
    have begun : Revoking runId (after.1.records.filter (·.runId == runId)) after.1
        (log ++ [.revoked runId] ++ after.2) := by
      refine ⟨aborted.traced,?_,?_,?_⟩
      · exact (aborted.traced.leases.ids.of_map _).filter _
      · intro record mem
        exact (mem_filter.mp mem).1
      · intro record mem own
        exact mem_filter.mpr ⟨mem,beq_iff_eq.mpr own⟩
    have cancelled := Effect.forEach_holds
      (fun record left s log revoking => @Revoking.step s log runId record left revoking)
      _ begun
    generalize Effect.forEach _ (after.1.records.filter (·.runId == runId)) after.1 = settled at cancelled
    obtain ⟨traced,busy⟩ := cancelled.closed.settleIfIdle
    have done := (Steady.mk traced busy).cancelsPending runId
    simp only [append_assoc] at done ⊢
    exact done

end Revoking

section Waiting

variable {leaving : List Waiter} {coord : Coordinator} {log : List Note} {w : Waiter}

def beginning (w : Waiter) : Note :=
  match w.awaits with
  | .mutation lease => .waits w.id w.signal (some lease)
  | .idle => .waitsIdle w.id w.signal

theorem waits_eq_beginning {id signal : Nat} {lease : Option Nat} : Note.waits id signal lease = beginning w ↔
      ∃ awaited, lease = some awaited ∧ w = ⟨id,signal,.mutation awaited⟩ := by
  obtain ⟨waiterId,waiterSignal,awaits⟩ := w
  cases awaits with
  | mutation awaited =>
    simp only [beginning,Note.waits.injEq,Waiter.mk.injEq,Awaited.mutation.injEq]
    constructor
    · intro ⟨sameId,sameSignal,same⟩
      exact ⟨awaited,same,sameId.symm,sameSignal.symm,rfl⟩
    · intro ⟨_,same,sameId,sameSignal,sameLease⟩
      exact ⟨sameId.symm,sameSignal.symm,same.trans (congrArg some sameLease.symm)⟩
  | idle => simp [beginning]

theorem waitsIdle_eq_beginning {id signal : Nat} :
    Note.waitsIdle id signal = beginning w ↔ w = ⟨id,signal,.idle⟩ := by
  obtain ⟨waiterId,waiterSignal,awaits⟩ := w
  cases awaits <;> simp [beginning,eq_comm]

theorem beginning_ne_answer (w : Waiter) : (∀ id outcome, Note.resolved id outcome ≠ beginning w) ∧
    ∀ id verdict, Note.idle id verdict ≠ beginning w := by
  obtain ⟨waiterId,waiterSignal,awaits⟩ := w
  cases awaits <;> simp [beginning]

theorem unresolved_new (traced : Traced none [] coord log) :
    (∀ signal lease, Note.waits coord.waited signal lease ∉ log) ∧
      (∀ signal, Note.waitsIdle coord.waited signal ∉ log) ∧
      (∀ outcome, Note.resolved coord.waited outcome ∉ log) ∧
      ∀ verdict, Note.idle coord.waited verdict ∉ log := by
  have noWait : ∀ signal lease, Note.waits coord.waited signal lease ∉ log := by
    intro signal lease began
    exact Nat.lt_irrefl _ (traced.waits.fresh _ signal (Or.inl ⟨lease,began⟩))
  have noIdle : ∀ signal, Note.waitsIdle coord.waited signal ∉ log := by
    intro signal began
    exact Nat.lt_irrefl _ (traced.waits.fresh _ signal (Or.inr began))
  refine ⟨noWait,noIdle,?_,?_⟩
  · intro outcome resolved
    obtain ⟨before,after,rfl⟩ := append_of_mem resolved
    obtain ⟨_,signal,lease,began,_⟩ := traced.lawful before _ after rfl
    exact noWait signal lease (mem_append_left _ began)
  · intro verdict idle
    obtain ⟨before,after,rfl⟩ := append_of_mem idle
    obtain ⟨_,signal,began,_⟩ := traced.lawful before _ after rfl
    exact noIdle signal (mem_append_left _ began)

theorem Traced.begin (traced : Traced none [] coord log) (next : w.id = coord.waited) :
    Traced none [w] { coord with waited := coord.waited + 1 } (log ++ [beginning w]) := by
  obtain ⟨noWait,noIdle,unresolved,unanswered⟩ := unresolved_new traced
  have leases : ∀ note ∈ [beginning w], concernsLeases note = false := by
    simp only [mem_singleton,forall_eq,beginning]
    split <;> rfl
  have marked : marks (beginning w) = none := by
    rw [beginning]
    split <;> rfl
  have other_ids : ∀ other ∈ coord.waiters, other.id ≠ coord.waited := by
    intro other mem same
    have open_wait := traced.waits.unanswered other mem
    rw [Unanswered] at open_wait
    split at open_wait
    · exact noWait _ _ (same ▸ open_wait.1)
    · exact noIdle _ (same ▸ open_wait.1)
  have kept (other : Waiter) (open_wait : Unanswered log other) : Unanswered (log ++ [beginning w]) other := by
    obtain ⟨notResolved,notIdle⟩ := beginning_ne_answer w
    rw [Unanswered] at open_wait ⊢
    split at open_wait
    · refine ⟨mem_append_left _ open_wait.1,?_⟩
      intro outcome resolved
      simp [open_wait.2,notResolved] at resolved
    · refine ⟨mem_append_left _ open_wait.1,?_⟩
      intro verdict idle
      simp [open_wait.2,notIdle] at idle
  refine ⟨traced.lawful.snoc ?_,traced.leases.frame rfl rfl rfl leases,?_,?_,?_,?_,?_⟩
  · rw [beginning]
    split
    · intro signal lease
      rw [next]
      exact noWait signal lease
    · intro signal
      rw [next]
      exact noIdle signal
  · refine ⟨?_,?_,?_,?_,?_,?_⟩
    · intro other mem
      rcases mem_cons.mp mem with rfl | old
      · rw [Unanswered,beginning]
        split <;> simp [next,unresolved,unanswered]
      · exact kept other (traced.waits.unanswered other old)
    · refine nodup_cons.mpr ⟨?_,traced.waits.distinct⟩
      intro mem
      obtain ⟨other,inside,same⟩ := mem_map.mp mem
      exact other_ids other inside (same.trans next)
    · intro id signal lease began
      rcases mem_append.mp began with before | last
      · rcases traced.waits.waiting id signal lease before with ⟨outcome,resolved⟩ | pending
        · exact .inl ⟨outcome,mem_append_left _ resolved⟩
        · exact .inr (mem_cons_of_mem _ pending)
      · obtain ⟨awaited,same,rfl⟩ := waits_eq_beginning.mp (mem_singleton.mp last)
        cases same
        exact .inr mem_cons_self
    · intro id signal began
      rcases mem_append.mp began with before | last
      · obtain ⟨outcome,resolved⟩ := traced.waits.missing id signal before
        exact ⟨outcome,mem_append_left _ resolved⟩
      · obtain ⟨awaited,same,_⟩ := waits_eq_beginning.mp (mem_singleton.mp last)
        cases same
    · intro id signal began
      rcases mem_append.mp began with before | last
      · rcases traced.waits.waitingIdle id signal before with ⟨verdict,idle⟩ | pending
        · exact .inl ⟨verdict,mem_append_left _ idle⟩
        · exact .inr (mem_cons_of_mem _ pending)
      · obtain rfl := waitsIdle_eq_beginning.mp (mem_singleton.mp last)
        exact .inr mem_cons_self
    · intro id signal began
      have either : ((∃ lease, Note.waits id signal lease ∈ log) ∨ Note.waitsIdle id signal ∈ log) ∨
          id = w.id := by
        rcases began with ⟨lease,began⟩ | began
        · rcases mem_append.mp began with before | last
          · exact .inl (.inl ⟨lease,before⟩)
          · obtain ⟨_,_,rfl⟩ := waits_eq_beginning.mp (mem_singleton.mp last)
            exact .inr rfl
        · rcases mem_append.mp began with before | last
          · exact .inl (.inr before)
          · obtain rfl := waitsIdle_eq_beginning.mp (mem_singleton.mp last)
            exact .inr rfl
      rcases either with before | rfl
      · exact Nat.lt_succ_of_lt (traced.waits.fresh id signal before)
      · rw [next]
        exact Nat.lt_succ_self _
  · intro other mem lease awaits
    rw [outstanding_frame leases]
    exact traced.live other mem lease awaits
  · rw [← traced.disposed,beginning]
    split <;> simp
  · intro signal
    rw [← traced.aborted,beginning]
    split <;> simp
  · rw [getLast?_verdicts,marked]
    exact traced.verdict

theorem Traced.join (traced : Traced none [w] coord log)
    (live : ∀ lease, w.awaits = .mutation lease → Outstanding log lease) :
    Traced none [] { coord with waiters := coord.waiters ++ [w] } log := by
  have perm : (coord.waiters ++ [w]).Perm ([w] ++ coord.waiters) :=
    perm_append_comm
  have waits := traced.waits
  have none_added := @Leases.frame none coord
    { coord with waiters := coord.waiters ++ [w] } log [] traced.leases rfl rfl rfl
    (by simp)
  rw [append_nil] at none_added
  refine { traced with leases := none_added, waits := ?_, live := ?_ }
  · refine ⟨?_,?_,?_,waits.missing,?_,waits.fresh⟩
    · intro other mem
      exact waits.unanswered other (perm.subset mem)
    · exact (perm.map _).nodup_iff.mpr waits.distinct
    · intro id signal lease began
      exact (waits.waiting id signal lease began).imp_right fun mem => perm.symm.subset mem
    · intro id signal began
      exact (waits.waitingIdle id signal began).imp_right fun mem => perm.symm.subset mem
  · intro other mem lease awaits
    rcases mem_append.mp mem with old | last
    · exact traced.live other old lease awaits
    · obtain rfl := mem_singleton.mp last
      exact live lease awaits

theorem Steady.missing (steady : Steady none [] coord log) (signal : Nat) :
    Steady none [] { coord with waited := coord.waited + 1 }
      (log ++ [.waits coord.waited signal none,.resolved coord.waited .failed]) := by
  have traced := steady.traced
  obtain ⟨noWait,_,unresolved,_⟩ := unresolved_new traced
  have leases : ∀ note ∈ [Note.waits coord.waited signal none,
      .resolved coord.waited .failed], concernsLeases note = false := by
    simp [concernsLeases]
  refine ⟨⟨?_,traced.leases.frame rfl rfl rfl leases,?_,?_,?_,?_,?_⟩,steady.busy⟩
  · have began : Lawful Allowed (log ++ [.waits coord.waited signal none]) :=
      traced.lawful.snoc noWait
    have answered : Lawful Allowed (log ++ [.waits coord.waited signal none] ++
        [.resolved coord.waited .failed]) := by
      apply began.snoc
      refine ⟨?_,signal,none,by simp,rfl⟩
      intro other resolved
      exact unresolved other (by simpa using resolved)
    rw [append_assoc] at answered
    exact answered
  · have waits := traced.waits
    have old : ∀ w ∈ coord.waiters, w.id ≠ coord.waited := by
      intro w mem same
      have open_wait := waits.unanswered w mem
      rw [Unanswered] at open_wait
      split at open_wait
      · exact noWait _ _ (same ▸ open_wait.1)
      · exact Nat.lt_irrefl _ (waits.fresh _ _ (Or.inr (same ▸ open_wait.1)))
    refine ⟨?_,waits.distinct,?_,?_,?_,?_⟩
    · intro w mem
      have open_wait := waits.unanswered w mem
      rw [Unanswered] at open_wait ⊢
      split at open_wait <;> simpa [old w mem] using open_wait
    · intro w id lease began
      rcases waits.waiting w id lease (by simpa using began) with ⟨outcome,resolved⟩ | pending
      · exact .inl ⟨outcome,mem_append_left _ resolved⟩
      · exact .inr pending
    · intro w id began
      have either : Note.waits w id none ∈ log ∨ w = coord.waited ∧ id = signal := by
        simpa using began
      rcases either with before | ⟨rfl,_⟩
      · obtain ⟨outcome,resolved⟩ := waits.missing w id before
        exact ⟨outcome,mem_append_left _ resolved⟩
      · exact ⟨.failed,by simp⟩
    · intro w id began
      rcases waits.waitingIdle w id (by simpa using began) with ⟨verdict,idle⟩ | pending
      · exact .inl ⟨verdict,mem_append_left _ idle⟩
      · exact .inr pending
    · intro w id began
      by_cases own : w = coord.waited
      · rw [own]
        exact Nat.lt_succ_self _
      · apply Nat.lt_succ_of_lt
        apply waits.fresh w id
        simpa [own] using began
  · intro w mem lease awaits
    rw [outstanding_frame leases]
    exact traced.live w mem lease awaits
  · rw [← traced.disposed]
    simp
  · intro id
    rw [← traced.aborted]
    simp
  · rw [traced.verdict,verdicts_frame]
    simp [marks]

theorem Steady.waitForMutation (steady : Steady none [] coord log) (request : LeaseRequest)
    (signal : Nat) : Steady none [] (waitForMutation request signal coord).1
      (log ++ (MutationLease.waitForMutation request signal coord).2) := by
  have traced := steady.traced
  rw [MutationLease.waitForMutation]
  split
  · exact steady.missing signal
  next record hit =>
    have mem := findRecord_some hit
    simp only
    have began := @Traced.begin _ _ ⟨coord.waited,signal,.mutation record.id⟩ traced rfl
    have live := began.leases.outstanding_record mem
    split
    next aborted =>
      obtain ⟨cancelled,busy⟩ := Steady.cancelUnclaimedMutation ⟨began,steady.busy⟩ record.id
      have told : Note.aborted signal ∈ log := (traced.aborted signal).mpr aborted
      have answered : Traced none [] _ (_ ++ [.resolved coord.waited .cancelled]) :=
        cancelled.answer ⟨_,rfl,.inr ⟨rfl,mem_append_left _ (mem_append_left _ told)⟩⟩
      refine ⟨?_,busy⟩
      rw [append_assoc,append_assoc] at answered
      exact answered
    next =>
      refine ⟨began.join ?_,?_⟩
      · intro lease same
        cases same
        exact live
      · intro w inside awaits
        rcases mem_append.mp inside with old | last
        · exact steady.busy w old awaits
        · rw [mem_singleton.mp last] at awaits
          cases awaits

theorem Steady.waitForIdle (steady : Steady none [] coord log) (signal : Nat) :
    Steady none [] (waitForIdle signal coord).1 (log ++ (MutationLease.waitForIdle signal coord).2) := by
  have traced := steady.traced
  have began := @Traced.begin _ _ ⟨coord.waited,signal,.idle⟩ traced rfl
  have answered (verdict : MutationIdleOutcome)
      (reason : IdleAs (log ++ [.waitsIdle coord.waited signal]) signal verdict) :
      Steady none [] { coord with waited := coord.waited + 1 }
        (log ++ ([.waitsIdle coord.waited signal] ++ [.idle coord.waited verdict])) := by
    rw [← append_assoc]
    exact ⟨began.answer ⟨verdict,rfl,reason⟩,steady.busy⟩
  rw [MutationLease.waitForIdle]
  split
  next ended =>
    apply answered
    rcases ended with disposed | aborted
    · exact .inr (mem_append_left _ (traced.disposed.mpr disposed))
    · exact .inl (mem_append_left _ ((traced.aborted signal).mpr aborted))
  · split
    next free =>
      apply answered
      exact began.idleAs (isEmpty_iff.mp free) signal
    next busy =>
      refine ⟨began.join ?_,?_⟩
      · intro lease same
        cases same
      · intro _ _ _ none
        exact busy (isEmpty_iff.mpr none)

theorem Steady.dispose (steady : Steady none [] coord log) : Steady none [] (dispose coord).1
      (log ++ (MutationLease.dispose coord).2) := by
  have traced := steady.traced
  have leases : ∀ note ∈ [Note.disposed], concernsLeases note = false := by
    simp [concernsLeases]
  have waits : ∀ note ∈ [Note.disposed], concernsWaits note = false := by
    simp [concernsWaits]
  have told : Traced none [] { coord with disposed := true } (log ++ [.disposed]) := by
    refine ⟨traced.lawful.snoc trivial,traced.leases.frame rfl rfl rfl leases,
      traced.waits.frame rfl rfl waits,?_,?_,?_,?_⟩
    · intro w mem lease awaits
      rw [outstanding_frame leases]
      exact traced.live w mem lease awaits
    · simp
    · intro signal
      rw [← traced.aborted]
      simp
    · rw [traced.verdict,getLast?_verdicts]
      rfl
  -- The records that are left are those whose waits are not settled yet.
  have settled := @Effect.forEach_holds _ _ _ (settleMutation · .disposed .cancelled)
    (fun left coord log => .disposed ∈ log ∧ Traced none [] { coord with records := left } log) (by
    intro record left s log ⟨disposed,traced⟩
    refine ⟨mem_append_left _ disposed,?_⟩
    have as : SettledAs log record.id .disposed .cancelled := by
      refine ⟨traced.leases.outstanding_record mem_cons_self,?_,?_,?_⟩ <;> intros <;>
        contradiction
    have released := traced.release mem_cons_self as
    have others : (record :: left).filter (·.key != record.key) = left := by
      obtain ⟨fresh,_⟩ := nodup_cons.mp traced.leases.keys
      rw [filter_cons_of_neg (by simp),filter_eq_self]
      intro other mem
      rw [bne_iff_ne,ne_eq]
      intro same
      apply fresh
      have inside : other.key ∈ left.map (·.key) := mem_map_of_mem mem
      rw [same] at inside
      exact inside
    rw [others] at released
    exact released) coord.records { coord with disposed := true }
      (log ++ [.disposed]) ⟨mem_append_right _ mem_cons_self,told⟩
  rw [MutationLease.dispose]
  simp only [Effect.andThen,Effect.update]
  generalize Effect.forEach (settleMutation · .disposed .cancelled) coord.records
    { coord with disposed := true } = after at settled
  obtain ⟨disposed,cleared⟩ := settled
  have done := @Traced.settleIdleWaiters _ _ _ _ .notIdle cleared fun _ _ _ => .inr disposed
  refine ⟨?_,?_⟩
  · rw [append_assoc,append_assoc] at done
    exact done
  · intro w inside awaits
    have other := (mem_filter.mp inside).2
    rw [awaits] at other
    simp at other

end Waiting

section Runs

theorem machine_steady (calls : List Call) : Steady none [] (machine.run calls) (machine.noted calls) := by
  apply Machine.holds_of_step (Steady none [])
  · have nothing (lease : Nat) : ¬ Outstanding [] lease := by
      intro ⟨⟨runId,registered⟩,_⟩
      cases registered
    refine ⟨⟨Lawful.nil,?_,?_,?_,?_,?_,rfl⟩,?_⟩
    · refine ⟨?_,?_,?_,nodup_nil,nodup_nil,?_,?_,?_⟩ <;>
        simp [machine,Coordinator.empty,nothing]
    · refine ⟨?_,nodup_nil,?_,?_,?_,?_⟩ <;> simp [machine,Coordinator.empty]
    all_goals simp [machine,Coordinator.empty,Busy]
  · intro coord notes call steady
    cases call with
    | register registration => exact steady.register registration
    | claim request allowed => exact steady.claim request allowed
    | complete request succeeded => exact steady.complete request _
    | reject request => exact steady.complete request .rejected
    | discardLease request => exact steady.complete request .failed
    | discard request => exact steady.discard request
    | revokeRun runId aborts => exact steady.revokeRun runId aborts
    | waitForMutation request signal => exact steady.waitForMutation request signal
    | waitForIdle signal => exact steady.waitForIdle signal
    | abort signal => exact steady.abort signal
    | dispose => exact steady.dispose

/-- Every note of a run is allowed behind those before it, and a wait that is not answered is one for
a lease that is outstanding, or for idle while one is. -/
theorem machine_leases (calls : List Call) :
    Lawful Allowed (machine.noted calls) ∧
    (∀ waiter signal lease, .waits waiter signal lease ∈ machine.noted calls →
      (∃ outcome, .resolved waiter outcome ∈ machine.noted calls) ∨
        ∃ awaited, lease = some awaited ∧ Outstanding (machine.noted calls) awaited) ∧
    ∀ waiter signal, .waitsIdle waiter signal ∈ machine.noted calls →
      (∃ verdict, .idle waiter verdict ∈ machine.noted calls) ∨
        ∃ lease, Outstanding (machine.noted calls) lease := by
  obtain ⟨traced,busy⟩ := machine_steady calls
  refine ⟨traced.lawful,?_,?_⟩
  · intro waiter signal lease began
    cases lease with
    | none => exact .inl (traced.waits.missing waiter signal began)
    | some lease =>
      rcases traced.waits.waiting waiter signal lease began with resolved | pending
      · exact .inl resolved
      · exact .inr ⟨lease,rfl,traced.live _ pending lease rfl⟩
  · intro waiter signal began
    rcases traced.waits.waitingIdle waiter signal began with answered | pending
    · exact .inl answered
    · obtain ⟨record,member⟩ := exists_mem_of_ne_nil _ (busy _ pending rfl)
      exact .inr ⟨record.id,traced.leases.outstanding_record member⟩

def exampleRegistration : LeaseRegistration :=
  ⟨⟨"run-a".toList,List.replicate 64 'a'⟩,"workspace".toList,List.replicate 64 'b',"action".toList,
    "key".toList,false⟩

/-- A revoked run is a failure although nothing was claimed. -/
theorem machine_revoked_fails : ¬ ∀ (calls : List Call) (before after : List Note) (waiter : Nat)
    (verdict : MutationIdleOutcome), machine.noted calls = before ++ .idle waiter verdict :: after →
      (verdict = .idleSucceeded ↔ (∀ lease, ¬ Outstanding before lease) ∧
        ∀ lease cause, .claimed lease ∈ before → .settled lease cause .failed ∉ before) := by
  intro exactly
  have noted : machine.noted
      [.register exampleRegistration,.waitForIdle 0,.revokeRun "run-a".toList []] =
        [.registered 0 "run-a".toList,.waitsIdle 0 0,.revoked "run-a".toList,
          .settled 0 .revoked .cancelled,.closed "run-a".toList] ++
        .idle 0 .idleFailed :: [.cancelsPending "run-a".toList] := by decide +kernel
  have succeeded := (exactly _ _ _ _ _ noted).mpr (by
    refine ⟨?_,?_⟩
    · intro lease ⟨⟨runId,registered⟩,unsettled⟩
      have first : lease = 0 := by
        simp only [mem_cons,Note.registered.injEq,reduceCtorEq,not_mem_nil,or_false] at registered
        exact registered.1
      exact unsettled .revoked .cancelled (by simp [first])
    · intro lease cause claimed
      simp at claimed)
  cases succeeded

end Runs

end Keiko.MutationLease
