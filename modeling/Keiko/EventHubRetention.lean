import Keiko.EventHub
import Mathlib.Algebra.Order.BigOperators.Group.List

/-! What the hub retains. A publish shrinks the buffer of its run and then adds at most one event;
every byte and every event that it takes away is accounted for, whatever it decides in the end. -/
namespace Keiko.EventHub
open Keiko.Library Keiko.Runtime List

section Shrinking

structure Shrinks (run run' : RunBuffer) : Prop where
  history : run'.history.Sublist run.history
  balance : run'.bytes - totalBytes run'.events = run.bytes - totalBytes run.events
  measured : ∀ retained ∈ run'.events, ∃ before ∈ run.events,
    before.event = retained.event ∧ before.bytes = retained.bytes
  nextSequence : run'.nextSequence = run.nextSequence
  terminal : run'.terminal = run.terminal
  subscribers : run'.subscribers = run.subscribers

theorem Shrinks.refl (run : RunBuffer) : Shrinks run run :=
  ⟨List.Sublist.refl _,rfl,fun retained mem => ⟨retained,mem,rfl,rfl⟩,rfl,rfl,rfl⟩

theorem Shrinks.trans {a b third : RunBuffer} (one : Shrinks a b)
    (two : Shrinks b third) : Shrinks a third := by
  refine ⟨two.history.trans one.history,two.balance.trans one.balance,?_,
    two.nextSequence.trans one.nextSequence,two.terminal.trans one.terminal,
    two.subscribers.trans one.subscribers⟩
  intro retained mem
  obtain ⟨middle,inMiddle,sameEvent,sameBytes⟩ := two.measured retained mem
  obtain ⟨pre,inBefore,event,bytes⟩ := one.measured middle inMiddle
  exact ⟨pre,inBefore,event.trans sameEvent,bytes.trans sameBytes⟩

theorem totalBytes_filter (evs : List RetainedEvent) : totalBytes (evs.filter RetainedEvent.critical) +
      totalBytes (evs.filter fun retained => !retained.critical) = totalBytes evs := by
  induction evs with
  | nil => rfl
  | cons retained evs ih =>
    simp only [totalBytes] at ih ⊢
    cases critical : retained.critical <;> simp [critical,← ih] <;> omega

theorem removeLossy_shrinks (run : RunBuffer) : Shrinks run (removeLossy run) := by
  have split := totalBytes_filter run.events
  refine ⟨?_,?_,?_,rfl,rfl,rfl⟩
  · exact (filter_sublist (l := run.events)).map _
  · simp only [removeLossy,totalBytes] at split ⊢
    omega
  · intro retained mem
    exact ⟨retained,(mem_filter.mp mem).1,rfl,rfl⟩

theorem demotePriorTurnFailures_shrinks (run : RunBuffer) : Shrinks run (demotePriorTurnFailures run) := by
  have evs : (demotePriorTurnFailures run).history = run.history := by
    simp only [demotePriorTurnFailures,RunBuffer.history,map_map]
    apply map_congr_left
    intro retained _
    simp only [Function.comp_apply]
    split <;> rfl
  have bytes : totalBytes (demotePriorTurnFailures run).events = totalBytes run.events := by
    simp only [demotePriorTurnFailures,totalBytes,map_map]
    congr 1
    apply map_congr_left
    intro retained _
    simp only [Function.comp_apply]
    split <;> rfl
  refine ⟨evs ▸ List.Sublist.refl _,?_,?_,rfl,rfl,rfl⟩
  · rw [bytes]
    rfl
  · intro retained mem
    obtain ⟨pre,inside,rfl⟩ := mem_map.mp mem
    refine ⟨pre,inside,?_,?_⟩ <;> split <;> rfl

theorem prepared_shrinks (run : RunBuffer) (event : CodingWorkbenchRuntimeSseEvent) :
    Shrinks run (prepared run event) := by
  simp only [prepared]
  split_ifs
  · exact (removeLossy_shrinks run).trans (demotePriorTurnFailures_shrinks _)
  · exact demotePriorTurnFailures_shrinks run
  · exact removeLossy_shrinks run
  · exact Shrinks.refl run

end Shrinking

section Eviction

theorem firstLossy_some {evs left : List RetainedEvent} {removed : RetainedEvent}
    (hit : firstLossy evs = some (removed,left)) : ∃ front back,
      evs = front ++ removed :: back ∧ left = front ++ back ∧ removed.critical = false := by
  induction evs generalizing left with
  | nil => simp [firstLossy] at hit
  | cons retained evs ih =>
    rw [firstLossy] at hit
    cases critical : retained.critical with
    | false =>
      simp only [critical,Bool.false_eq_true,if_false,Option.some_inj,Prod.mk.injEq] at hit
      obtain ⟨rfl,rfl⟩ := hit
      exact ⟨[],evs,rfl,rfl,critical⟩
    | true =>
      simp only [critical,if_true,Option.map_eq_some_iff,Prod.mk.injEq] at hit
      obtain ⟨⟨lossy,rest⟩,post,rfl,rfl⟩ := hit
      obtain ⟨front,back,rfl,rfl,plain⟩ := ih post
      exact ⟨retained :: front,back,rfl,rfl,plain⟩

theorem firstLossy_none {evs : List RetainedEvent} :
    firstLossy evs = none ↔ ∀ retained ∈ evs, retained.critical = true := by
  induction evs with
  | nil => simp [firstLossy]
  | cons retained evs ih =>
    rw [firstLossy]
    cases critical : retained.critical <;> simp [critical,ih]

theorem remove_shrinks {run : RunBuffer} {left : List RetainedEvent} {removed : RetainedEvent}
    (hit : firstLossy run.events = some (removed,left)) :
    Shrinks run (run.remove removed left) ∧ left.length + 1 = run.events.length ∧
      left.filter RetainedEvent.critical = criticalEvents run := by
  obtain ⟨front,back,evs,rfl,lossy⟩ := firstLossy_some hit
  have shorter : (front ++ back).Sublist run.events := by
    rw [evs]
    exact List.Sublist.append_left (sublist_cons_self _ _) _
  refine ⟨⟨shorter.map _,?_,?_,rfl,rfl,rfl⟩,?_,?_⟩
  · simp only [RunBuffer.remove,evs,totalBytes,map_append,map_cons,sum_append,sum_cons]
    omega
  · intro retained mem
    exact ⟨retained,shorter.subset mem,rfl,rfl⟩
  · rw [evs]
    simp only [length_append,length_cons]
    omega
  · rw [criticalEvents,evs,filter_append,filter_append,filter_cons_of_neg]
    simp [lossy]

theorem evictLossy_spec {limits : EventHubLimits} {incoming : RetainedEvent} {rounds : Nat}
    {run : RunBuffer} (enough : run.events.length < rounds) :
    Shrinks run (evictLossy limits incoming rounds run).2 ∧
      criticalEvents (evictLossy limits incoming rounds run).2 = criticalEvents run ∧
      (overfull limits (evictLossy limits incoming rounds run).2 incoming =
        !(evictLossy limits incoming rounds run).1) ∧
      ((evictLossy limits incoming rounds run).1 = false →
        (evictLossy limits incoming rounds run).2.events = criticalEvents run) := by
  induction rounds generalizing run with
  | zero => omega
  | succ rounds ih =>
    rw [evictLossy]
    cases full : overfull limits run incoming with
    | false => simp [Shrinks.refl run,full]
    | true =>
      simp only [if_true]
      cases hit : firstLossy run.events with
      | none =>
        refine ⟨Shrinks.refl run,rfl,full,fun _ => ?_⟩
        rw [criticalEvents,filter_eq_self.mpr (firstLossy_none.mp hit)]
      | some pair =>
        obtain ⟨removed,left⟩ := pair
        obtain ⟨shrinks,length,critical⟩ := remove_shrinks hit
        have fewer : (run.remove removed left).events.length < rounds := by
          change left.length < rounds
          omega
        obtain ⟨more,same,decided,gone⟩ := ih fewer
        have kept : criticalEvents (run.remove removed left) = criticalEvents run := critical
        exact ⟨shrinks.trans more,same.trans kept,decided,fun refused => (gone refused).trans kept⟩

theorem makeCapacity_shrinks (limits : EventHubLimits) (run : RunBuffer) (incoming : RetainedEvent) :
    Shrinks run (makeCapacity limits run incoming).2 ∧ ((makeCapacity limits run incoming).1 = true →
        overfull limits (makeCapacity limits run incoming).2 incoming = false) := by
  rw [makeCapacity]
  split_ifs
  · exact ⟨Shrinks.refl run,fun same => by contradiction⟩
  · exact ⟨Shrinks.refl run,fun same => by contradiction⟩
  · obtain ⟨shrinks,_,decided,_⟩ := @evictLossy_spec limits incoming _ run (Nat.lt_succ_self run.events.length)
    exact ⟨shrinks,fun admitted => by rw [decided,admitted]; rfl⟩

end Eviction

section Step

theorem publishTo_cases (lim : EventHubLimits) (run : RunBuffer)
    (input : CodingRuntimeEventHubInput) (occurredAt : Text) :
    (∃ run' refusal, publishTo lim run input occurredAt = (run',.error refusal) ∧ Shrinks run run') ∨
      ∃ kept event, event = sseEvent input run.nextSequence occurredAt ∧
        publishTo lim run input occurredAt = (accept kept (retain event),.ok event) ∧
        Shrinks run kept ∧ overfull lim kept (retain event) = false ∧
        validateCodingWorkbenchRuntimeSseEvent event = true ∧ run.nextSequence < maxSafeInteger := by
  rw [publishTo]
  split
  next => exact .inl ⟨run,_,rfl,Shrinks.refl run⟩
  next more =>
    simp only
    cases valid : validateCodingWorkbenchRuntimeSseEvent (sseEvent input run.nextSequence occurredAt)
    with
    | false => exact .inl ⟨run,_,rfl,Shrinks.refl run⟩
    | true =>
      obtain ⟨shrinks,room⟩ := makeCapacity_shrinks lim (prepared run (sseEvent input run.nextSequence occurredAt))
        (retain (sseEvent input run.nextSequence occurredAt))
      have whole := (prepared_shrinks run (sseEvent input run.nextSequence occurredAt)).trans shrinks
      generalize makeCapacity lim _ _ = made at whole room ⊢
      obtain ⟨admitted,kept⟩ := made
      cases admitted with
      | false => exact .inl ⟨kept,_,rfl,whole⟩
      | true => exact .inr ⟨kept,_,rfl,rfl,whole,room rfl,valid,Nat.lt_of_not_le more⟩

/-- A buffer whose counters tell what it holds, within its bounds, in the order of the events. -/
structure Sound (lim : EventHubLimits) (runId : Text) (run : RunBuffer) : Prop where
  ordered : (run.history.map (·.sequence)).Pairwise (· < ·)
  issued : ∀ event ∈ run.history, event.sequence < run.nextSequence
  own : ∀ event ∈ run.history, event.runId = runId
  counted : run.bytes = totalBytes run.events
  measured : ∀ retained ∈ run.events, retained.bytes = retained.event.bytes
  count : run.events.length ≤ lim.maxEvents
  size : run.bytes ≤ lim.maxBytes

theorem newRun_sound (lim : EventHubLimits) (runId : Text) : Sound lim runId newRun := by
  refine ⟨List.Pairwise.nil,?_,?_,rfl,?_,Nat.zero_le _,Int.natCast_nonneg _⟩ <;>
    · intro _ mem
      simp [newRun,RunBuffer.history] at mem

theorem totalBytes_measured {evs : List RetainedEvent}
    (measured : ∀ retained ∈ evs, retained.bytes = retained.event.bytes) :
    totalBytes evs = ((evs.map RetainedEvent.event).map CodingWorkbenchRuntimeSseEvent.bytes).sum := by
  induction evs with
  | nil => rfl
  | cons retained evs ih =>
    have rest := ih fun post mem => measured post (mem_cons_of_mem _ mem)
    rw [totalBytes] at rest ⊢
    rw [map_cons,map_cons,map_cons,sum_cons,sum_cons,rest,measured retained mem_cons_self]

variable {lim : EventHubLimits} {runId : Text} {run run' : RunBuffer}

theorem Sound.shrink (sound : Sound lim runId run) (shrinks : Shrinks run run') : Sound lim runId run' := by
  have inside := shrinks.history.subset
  have total : run'.bytes = totalBytes run'.events := by
    have balance := shrinks.balance
    rw [sound.counted,sub_self] at balance
    exact sub_eq_zero.mp balance
  have fewer : run'.events.length ≤ run.events.length := by
    simpa [RunBuffer.history] using shrinks.history.length_le
  have measured : ∀ retained ∈ run'.events, retained.bytes = retained.event.bytes := by
    intro retained mem
    obtain ⟨pre,inBefore,event,bytes⟩ := shrinks.measured retained mem
    rw [← bytes,← event]
    exact sound.measured pre inBefore
  refine ⟨sound.ordered.sublist (shrinks.history.map _),?_,fun event mem =>
    sound.own event (inside mem),total,measured,fewer.trans sound.count,?_⟩
  · intro event mem
    rw [shrinks.nextSequence]
    exact sound.issued event (inside mem)
  · have less : totalBytes run'.events ≤ totalBytes run.events := by
      rw [totalBytes_measured measured,totalBytes_measured sound.measured]
      apply List.Sublist.sum_le_sum (shrinks.history.map _)
      intro bytes _
      exact Nat.zero_le bytes
    have whole := sound.size
    rw [sound.counted] at whole
    omega

theorem Sound.accept {event : CodingWorkbenchRuntimeSseEvent} (sound : Sound lim runId run)
    (named : event.runId = runId) (next : event.sequence = run.nextSequence)
    (room : overfull lim run (retain event) = false) :
    Sound lim runId (accept run (retain event)) := by
  have history : (EventHub.accept run (retain event)).history = run.history ++ [event] := by
    rw [RunBuffer.history,EventHub.accept,map_append]
    rfl
  simp only [overfull,Bool.or_eq_false_iff,decide_eq_false_iff_not,not_le,not_lt] at room
  obtain ⟨few,small⟩ := room
  refine ⟨?_,?_,?_,?_,?_,?_,small⟩
  · rw [history,map_append,pairwise_append]
    refine ⟨sound.ordered,by simp,?_⟩
    intro a inside last single
    obtain ⟨early,mem,rfl⟩ := mem_map.mp inside
    obtain rfl : last = event.sequence := by simpa using single
    rw [next]
    exact sound.issued early mem
  · intro other mem
    rw [history] at mem
    change other.sequence < run.nextSequence + 1
    rcases mem_append.mp mem with inside | single
    · exact Nat.lt_succ_of_lt (sound.issued other inside)
    · rw [mem_singleton.mp single,next]
      exact Nat.lt_succ_self _
  · intro other mem
    rw [history] at mem
    rcases mem_append.mp mem with inside | single
    · exact sound.own other inside
    · rw [mem_singleton.mp single,named]
  · have total := sound.counted
    simp only [EventHub.accept,totalBytes,map_append,sum_append,map_singleton,sum_singleton] at total ⊢
    rw [total]
    rfl
  · intro retained mem
    rcases mem_append.mp mem with inside | single
    · exact sound.measured retained inside
    · rw [mem_singleton.mp single]
      rfl
  · rw [EventHub.accept,length_append,length_singleton]
    exact few

end Step

section Runs

def acceptedOf (runId : Text) (notes : List Note) : List CodingWorkbenchRuntimeSseEvent :=
  notes.filterMap fun
    | .accepted event => if event.runId = runId then some event else none
    | _ => none

@[simp] theorem acceptedOf_append (runId : Text) (a b : List Note) :
    acceptedOf runId (a ++ b) = acceptedOf runId a ++ acceptedOf runId b :=
  filterMap_append

theorem acceptedOf_eq_nil {runId : Text} {notes : List Note}
    (none_accepted : ∀ event, Note.accepted event ∉ notes) : acceptedOf runId notes = [] := by
  rw [acceptedOf,filterMap_eq_nil_iff]
  intro note mem
  cases note with
  | accepted event => exact absurd mem (none_accepted event)
  | written => rfl
  | attached => rfl
  | left => rfl
  | deleted => rfl

structure Remembers (runId : Text) (accepted : List CodingWorkbenchRuntimeSseEvent)
    (run : RunBuffer) : Prop where
  sequences : accepted.map (·.sequence) = List.range run.nextSequence
  retained : run.history.Sublist accepted
  cursors : ∀ event ∈ accepted, event.runId = runId ∧
    event.cursor = cursorText runId event.sequence ∧ event.sequence < maxSafeInteger ∧
    validateCodingWorkbenchRuntimeSseEvent event = true

theorem fanOut_accepted (takes : Nat → Bool) (event other : CodingWorkbenchRuntimeSseEvent)
    (subscribers : List Nat) : Note.accepted other ∉ (fanOut takes event subscribers).2 := by
  intro mem
  obtain ⟨subscriber,_,note⟩ := mem_flatMap.mp mem
  split at note <;> simp at note

theorem closeSubscribers_accepted (run : RunBuffer) (event : CodingWorkbenchRuntimeSseEvent) :
    Note.accepted event ∉ (closeSubscribers run).2 := by
  simp [closeSubscribers]

theorem publishRun_spec (lim : EventHubLimits) (run : RunBuffer) (call : Publish) :
    ∃ subscribers, (publishRun lim run call).1 =
        { (publishTo lim run call.input call.occurredAt).1 with subscribers } ∧
      (publishRun lim run call).2.1 = (publishTo lim run call.input call.occurredAt).2 ∧
      ∀ runId, acceptedOf runId (publishRun lim run call).2.2 =
        match (publishTo lim run call.input call.occurredAt).2 with
        | .ok event => if event.runId = runId then [event] else []
        | .error _ => [] := by
  have alone (runId : Text) (event : CodingWorkbenchRuntimeSseEvent) (notes : List Note)
      (none_more : ∀ other, Note.accepted other ∉ notes) :
      acceptedOf runId (.accepted event :: notes) = if event.runId = runId then [event] else [] := by
    have rest := @acceptedOf_eq_nil runId notes none_more
    unfold acceptedOf at rest ⊢
    rw [filterMap_cons,rest]
    by_cases own : event.runId = runId <;> simp [own]
  rw [publishRun]
  generalize publishTo lim run call.input call.occurredAt = made
  obtain ⟨next,refusal | event⟩ := made
  · exact ⟨next.subscribers,rfl,rfl,fun _ => rfl⟩
  · simp only
    split
    · refine ⟨[],rfl,rfl,fun runId => alone runId event _ fun other mem => ?_⟩
      rcases mem_append.mp mem with fanned | closed
      · exact fanOut_accepted _ _ _ _ fanned
      · exact closeSubscribers_accepted _ _ closed
    · exact ⟨_,rfl,rfl,fun runId => alone runId event _ fun other => fanOut_accepted _ _ _ _⟩

variable {lim : EventHubLimits} {runId : Text} {run : RunBuffer} {accepted : List CodingWorkbenchRuntimeSseEvent}

theorem Sound.attach (sound : Sound lim runId run) (subscribers : List Nat) :
    Sound lim runId { run with subscribers } :=
  { sound with }

theorem Remembers.attach (remembers : Remembers runId accepted run) (subscribers : List Nat) :
    Remembers runId accepted { run with subscribers } :=
  { remembers with }

theorem publishTo_sound (sound : Sound lim runId run) (input : CodingRuntimeEventHubInput)
    (named : input.runId = runId) (occurredAt : Text) :
    Sound lim runId (publishTo lim run input occurredAt).1 := by
  obtain ⟨run',refusal,same,shrinks⟩ | ⟨kept,event,rfl,same,shrinks,room,_,_⟩ :=
    publishTo_cases lim run input occurredAt
  · rw [same]
    exact sound.shrink shrinks
  · rw [same]
    exact (sound.shrink shrinks).accept named shrinks.nextSequence.symm room

theorem publishTo_remembers (remembers : Remembers runId accepted run)
    (input : CodingRuntimeEventHubInput) (named : input.runId = runId) (occurredAt : Text) :
    Remembers runId (accepted ++ match (publishTo lim run input occurredAt).2 with
      | .ok event => if event.runId = runId then [event] else []
      | .error _ => []) (publishTo lim run input occurredAt).1 := by
  obtain ⟨run',refusal,same,shrinks⟩ | ⟨kept,event,rfl,same,shrinks,_,valid,more⟩ :=
    publishTo_cases lim run input occurredAt
  · rw [same,append_nil]
    refine ⟨?_,shrinks.history.trans remembers.retained,remembers.cursors⟩
    rw [remembers.sequences,shrinks.nextSequence]
  · rw [same]
    have own : (sseEvent input run.nextSequence occurredAt).runId = runId := named
    simp only [own,if_true]
    refine ⟨?_,?_,?_⟩
    · rw [map_append,remembers.sequences]
      change _ = range (kept.nextSequence + 1)
      rw [range_succ,shrinks.nextSequence]
      rfl
    · have history : (accept kept (retain (sseEvent input run.nextSequence occurredAt))).history =
          kept.history ++ [sseEvent input run.nextSequence occurredAt] := by
        rw [RunBuffer.history,accept,map_append]
        rfl
      rw [history]
      exact (shrinks.history.trans remembers.retained).append_right _
    · intro other mem
      rcases mem_append.mp mem with inside | single
      · exact remembers.cursors other inside
      · rw [mem_singleton.mp single]
        refine ⟨own,?_,more,valid⟩
        rw [← named]
        rfl

def publishing (lim : EventHubLimits) : Machine Hub Publish Note where
  start := Hub.empty
  step hub call := (publish lim hub call).1
  notes hub call := (publish lim hub call).2.2

theorem buffer_set (hub : Hub) (runId other : Text) (run : RunBuffer) :
    (hub.set runId run).buffer other = if other = runId then run else hub.buffer other := by
  change (Function.update hub.runs runId (some run) other).getD newRun = _
  rw [Function.update_apply]
  split <;> rfl

theorem publishing_sound (lim : EventHubLimits) (calls : List Publish) (runId : Text) :
    Sound lim runId (((publishing lim).run calls).buffer runId) ∧
      Remembers runId (acceptedOf runId ((publishing lim).noted calls))
        (((publishing lim).run calls).buffer runId) := by
  revert runId
  apply @Machine.holds_of_step _ _ _ (publishing lim) fun hub notes => ∀ runId,
    Sound lim runId (hub.buffer runId) ∧ Remembers runId (acceptedOf runId notes) (hub.buffer runId)
  · intro runId
    refine ⟨newRun_sound lim runId,rfl,List.Sublist.refl _,?_⟩
    intro event mem
    simp [acceptedOf] at mem
  · intro hub notes call kept runId
    obtain ⟨sound,remembers⟩ := kept runId
    change Sound lim runId ((publish lim hub call).1.buffer runId) ∧
      Remembers runId (acceptedOf runId (notes ++ (publish lim hub call).2.2))
        ((publish lim hub call).1.buffer runId)
    rw [publish,acceptedOf_append]
    split
    · exact ⟨sound,by rw [show acceptedOf runId [] = [] from rfl,append_nil]; exact remembers⟩
    · obtain ⟨subscribers,made,_,noted⟩ :=
        publishRun_spec lim (hub.buffer call.input.runId) call
      simp only
      rw [buffer_set,noted,made]
      by_cases own : runId = call.input.runId
      · subst own
        rw [if_pos rfl]
        exact ⟨(publishTo_sound sound _ rfl _).attach _,(publishTo_remembers remembers _ rfl _).attach _⟩
      · rw [if_neg own]
        refine ⟨sound,?_⟩
        -- An event that is accepted belongs to the run it was published to.
        have other : (match (publishTo lim (hub.buffer call.input.runId) call.input call.occurredAt).2 with
            | .ok event => if event.runId = runId then [event] else []
            | .error _ => []) = [] := by
          obtain ⟨_,_,same,_⟩ | ⟨_,event,rfl,same,_⟩ :=
            publishTo_cases lim (hub.buffer call.input.runId) call.input call.occurredAt
          · rw [same]
          · rw [same]
            exact if_neg fun same => own same.symm
        rw [other,append_nil]
        exact remembers

end Runs

section Admission

variable (lim : EventHubLimits) (run : RunBuffer) (event : CodingWorkbenchRuntimeSseEvent)

def staysCritical (retained : RetainedEvent) : Bool :=
  retained.critical && !(isTurnFailure event && isTurnFailure retained.event)

def staying : List RetainedEvent := run.events.filter (staysCritical event)

/-- The slot and the bytes that a critical event leaves to the one that contains the run. -/
def LeavesReserve : Prop :=
  (staying run event).length < lim.maxEvents - 1 ∧ totalBytes (staying run event) + event.bytes * 2 ≤ lim.maxBytes

def HasRoom : Prop :=
  (staying run event).length < lim.maxEvents ∧ totalBytes (staying run event) + event.bytes ≤ lim.maxBytes ∧
    (isCritical event = true → isContainment event = false → LeavesReserve lim run event)

/-- A retained event that the next event purges, demotes or evicts before it is refused. -/
def Touches (retained : RetainedEvent) : Prop :=
  (retained.critical = false ∧ (isContainment event = true ∨ (event.bytes ≤ lim.maxBytes ∧
      (isCritical event = true → LeavesReserve lim run event)))) ∨
    (retained.critical = true ∧ isTurnFailure event = true ∧ isTurnFailure retained.event = true)

/-- A terminal event finds room, and an event that finds none meets no event that it would touch. -/
structure Orderly : Prop where
  terminal : isTerminal event = true → HasRoom lim run event
  refusal : ¬ HasRoom lim run event → ∀ retained ∈ run.events, ¬ Touches lim run event retained

variable {lim run event}

theorem criticalEvents_prepared : criticalEvents (prepared run event) = staying run event := by
  have demoted (evs : List RetainedEvent) : (evs.map fun retained => if isTurnFailure retained.event then
        { retained with critical := false } else retained).filter RetainedEvent.critical =
          evs.filter fun retained => retained.critical && !isTurnFailure retained.event := by
    induction evs with
    | nil => rfl
    | cons retained evs ih =>
      cases failure : isTurnFailure retained.event <;> cases critical : retained.critical <;>
        simp [failure,critical,ih]
  unfold prepared staying criticalEvents staysCritical
  cases contains : isContainment event <;> cases failure : isTurnFailure event
  · simp
  · simpa [demotePriorTurnFailures] using demoted run.events
  · simp [removeLossy,filter_filter]
  · have purged := demoted (run.events.filter RetainedEvent.critical)
    simp only [if_true,Bool.true_and,removeLossy,demotePriorTurnFailures] at purged ⊢
    rw [purged,filter_filter]
    congr 1
    ext retained
    cases retained.critical <;> simp

theorem demoted_eq_iff (evs : List RetainedEvent) : (evs.map fun retained => if isTurnFailure retained.event then
        { retained with critical := false } else retained) = evs ↔
      ∀ retained ∈ evs, ¬ (retained.critical = true ∧ isTurnFailure retained.event = true) := by
  induction evs with
  | nil => simp
  | cons retained evs ih =>
    obtain ⟨own,bytes,critical⟩ := retained
    rw [map_cons,cons.injEq,ih,forall_mem_cons]
    apply and_congr_left'
    cases critical <;> cases failure : isTurnFailure own <;> simp

theorem prepared_events_eq_iff : (prepared run event).events = run.events ↔
    (isContainment event = true → ∀ retained ∈ run.events, retained.critical = true) ∧
      (isTurnFailure event = true → ∀ retained ∈ run.events,
        ¬ (retained.critical = true ∧ isTurnFailure retained.event = true)) := by
  unfold prepared
  cases contains : isContainment event <;> cases failure : isTurnFailure event
  · simp
  · simpa [demotePriorTurnFailures] using demoted_eq_iff run.events
  · simp [removeLossy,filter_eq_self]
  · simp only [if_true,removeLossy,demotePriorTurnFailures,forall_const]
    constructor
    · intro same
      have whole : run.events.filter RetainedEvent.critical = run.events := by
        have lengths := congrArg length same
        rw [length_map] at lengths
        exact filter_sublist.eq_of_length lengths
      rw [whole] at same
      exact ⟨filter_eq_self.mp whole,(demoted_eq_iff run.events).mp same⟩
    · intro ⟨allCritical,noFailure⟩
      rw [filter_eq_self.mpr allCritical]
      exact (demoted_eq_iff run.events).mpr noFailure

theorem staying_eq_iff : staying run event = run.events ↔
    ∀ retained ∈ run.events, ¬ (retained.critical = false ∨ (retained.critical = true ∧
      isTurnFailure event = true ∧ isTurnFailure retained.event = true)) := by
  rw [staying,filter_eq_self]
  apply forall₂_congr
  intro retained _
  unfold staysCritical
  cases retained.critical <;> cases isTurnFailure event <;> cases isTurnFailure retained.event <;>
    simp

theorem reserveExceeded_prepared : reserveExceeded lim (prepared run event) (retain event) = true ↔
    isCritical event = true ∧ isContainment event = false ∧ ¬ LeavesReserve lim run event := by
  have bytes : (retain event).bytes = event.bytes := rfl
  have own : (retain event).event = event := rfl
  have critical : (retain event).critical = isCritical event := rfl
  rw [reserveExceeded,criticalEvents_prepared]
  simp only [Bool.and_eq_true,Bool.or_eq_true,decide_eq_true_eq,Bool.not_eq_true',and_assoc]
  rw [bytes,own,critical,LeavesReserve,not_and_or,not_lt,not_le]

theorem evictLossy_prepared {runId : Text} (sound : Sound lim runId run) :
    (evictLossy lim (retain event) ((prepared run event).events.length + 1) (prepared run event)).1 = true ↔
      (staying run event).length < lim.maxEvents ∧
        totalBytes (staying run event) + event.bytes ≤ lim.maxBytes := by
  obtain ⟨shrinks,same,decided,gone⟩ := @evictLossy_spec lim (retain event) _
    (prepared run event) (Nat.lt_succ_self (prepared run event).events.length)
  have whole := sound.shrink ((prepared_shrinks run event).trans shrinks)
  rw [criticalEvents_prepared] at same gone
  generalize evictLossy lim (retain event) _ (prepared run event) = made at same decided gone whole ⊢
  obtain ⟨admitted,left⟩ := made
  have bytes : (retain event).bytes = event.bytes := rfl
  simp only at same decided gone whole ⊢
  have counted := whole.counted
  cases admitted with
  | false =>
    have exhausted := gone rfl
    simp only [overfull,Bool.not_false,Bool.or_eq_true,decide_eq_true_iff,bytes,exhausted] at decided
    rw [exhausted] at counted
    simp only [Bool.false_eq_true,false_iff]
    omega
  | true =>
    have fewer : (staying run event).length ≤ left.events.length := by
      rw [← same]
      exact length_filter_le _ _
    have less : totalBytes (staying run event) ≤ totalBytes left.events := by
      rw [← same]
      have parts := totalBytes_filter left.events
      rw [criticalEvents]
      omega
    simp only [overfull,Bool.not_true,Bool.or_eq_false_iff,decide_eq_false_iff_not,not_le,not_lt,bytes] at decided
    simp only [true_iff]
    omega

theorem makeCapacity_prepared {runId : Text} (sound : Sound lim runId run) :
    (makeCapacity lim (prepared run event) (retain event)).1 = true ↔ HasRoom lim run event := by
  have bytes : (retain event).bytes = event.bytes := rfl
  rw [makeCapacity,bytes,HasRoom]
  by_cases large : lim.maxBytes < event.bytes
  · rw [if_pos large]
    simp only [Bool.false_eq_true,false_iff]
    omega
  · rw [if_neg large]
    by_cases exceeded : reserveExceeded lim (prepared run event) (retain event) = true
    · rw [if_pos exceeded]
      obtain ⟨critical,uncontained,noReserve⟩ := reserveExceeded_prepared.mp exceeded
      simp [critical,uncontained,noReserve]
    · rw [if_neg exceeded,evictLossy_prepared sound]
      rw [reserveExceeded_prepared] at exceeded
      simp only [not_and,not_not] at exceeded
      exact ⟨fun room => ⟨room.1,room.2,exceeded⟩,fun room => ⟨room.1,room.2.1⟩⟩

theorem makeCapacity_untouched (refused : (makeCapacity lim (prepared run event) (retain event)).1 = false) :
    (makeCapacity lim (prepared run event) (retain event)).2.events = run.events ↔
      ∀ retained ∈ run.events, ¬ Touches lim run event retained := by
  have bytes : (retain event).bytes = event.bytes := rfl
  rw [makeCapacity,bytes] at refused ⊢
  -- Without the eviction only the purge and the demotion have touched the buffer.
  have noEviction (small : ¬ (event.bytes ≤ lim.maxBytes ∧
      (isCritical event = true → LeavesReserve lim run event)) ∨ isContainment event = true) :
      (prepared run event).events = run.events ↔ ∀ retained ∈ run.events, ¬ Touches lim run event retained := by
    rw [prepared_events_eq_iff]
    unfold Touches
    constructor
    · intro ⟨purged,demoted⟩ retained mem touched
      rcases touched with ⟨lossy,contains | evicted⟩ | ⟨critical,failure,prior⟩
      · rw [purged contains retained mem] at lossy
        cases lossy
      · rcases small with notEvicted | contains
        · exact notEvicted evicted
        · rw [purged contains retained mem] at lossy
          cases lossy
      · exact demoted failure retained mem ⟨critical,prior⟩
    · intro untouched
      refine ⟨?_,?_⟩
      · intro contains retained mem
        by_contra lossy
        exact untouched retained mem (.inl ⟨by simpa using lossy,.inl contains⟩)
      · intro failure retained mem prior
        exact untouched retained mem (.inr ⟨prior.1,failure,prior.2⟩)
  by_cases large : lim.maxBytes < event.bytes
  · rw [if_pos large]
    exact noEviction (.inl fun small => absurd small.1 (Nat.not_le.mpr large))
  · rw [if_neg large] at refused ⊢
    by_cases exceeded : reserveExceeded lim (prepared run event) (retain event) = true
    · rw [if_pos exceeded]
      obtain ⟨critical,_,noReserve⟩ := reserveExceeded_prepared.mp exceeded
      exact noEviction (.inl fun small => noReserve (small.2 critical))
    · rw [if_neg exceeded] at refused ⊢
      obtain ⟨_,_,_,gone⟩ := @evictLossy_spec lim (retain event) _
        (prepared run event) (Nat.lt_succ_self (prepared run event).events.length)
      rw [gone refused,criticalEvents_prepared,staying_eq_iff]
      rw [reserveExceeded_prepared] at exceeded
      simp only [not_and,not_not] at exceeded
      apply forall₂_congr
      intro retained _
      rw [Touches,not_iff_not]
      apply or_congr_left
      constructor
      · intro lossy
        refine ⟨lossy,?_⟩
        by_cases contains : isContainment event = true
        · exact .inl contains
        · exact .inr ⟨Nat.le_of_not_lt large,fun critical =>
            exceeded critical (by simpa using contains)⟩
      · intro touched
        exact touched.1

end Admission

section Retention

def eventOf (hub : Hub) (call : Publish) : CodingWorkbenchRuntimeSseEvent :=
  sseEvent call.input (hub.buffer call.input.runId).nextSequence call.occurredAt

structure Publishable (hub : Hub) (call : Publish) : Prop where
  retry : validNativeRetryInput call.input = true
  more : (hub.buffer call.input.runId).nextSequence < maxSafeInteger
  valid : validateCodingWorkbenchRuntimeSseEvent (eventOf hub call) = true

/-- A refusal changes nothing that is retained, and no terminal event is refused for capacity. -/
structure RefusesCleanly (lim : EventHubLimits) (hub : Hub) (call : Publish) : Prop where
  unchanged : ∀ refusal, (publish lim hub call).2.1 = .error refusal → ∀ runId,
    ((publish lim hub call).1.buffer runId).events = (hub.buffer runId).events
  terminal : isTerminal (eventOf hub call) = true → (publish lim hub call).2.1 ≠ .error .capacityPressure

variable {lim : EventHubLimits} {hub : Hub} {call : Publish}

theorem publish_unpublishable (unpublishable : ¬ Publishable hub call) :
    ((publish lim hub call).2.1 = .error .invalidEvent ∨ (publish lim hub call).2.1 = .error .sequenceExhausted) ∧
      ∀ runId, ((publish lim hub call).1.buffer runId).events = (hub.buffer runId).events := by
  have same (runId : Text) : ((hub.set call.input.runId (hub.buffer call.input.runId)).buffer
      runId).events = (hub.buffer runId).events := by
    rw [buffer_set]
    split
    next own => rw [own]
    next => rfl
  rw [publish]
  by_cases retry : validNativeRetryInput call.input = true
  · rw [if_neg (by simp [retry])]
    obtain ⟨subscribers,made,decided,_⟩ := publishRun_spec lim (hub.buffer call.input.runId) call
    simp only [decided,made,buffer_set]
    have refused : publishTo lim (hub.buffer call.input.runId) call.input call.occurredAt =
        (hub.buffer call.input.runId,.error .sequenceExhausted) ∨
        publishTo lim (hub.buffer call.input.runId) call.input call.occurredAt =
          (hub.buffer call.input.runId,.error .invalidEvent) := by
      rw [publishTo]
      by_cases more : maxSafeInteger ≤ (hub.buffer call.input.runId).nextSequence
      · exact .inl (if_pos more)
      · refine .inr ?_
        rw [if_neg more]
        have invalid : validateCodingWorkbenchRuntimeSseEvent (eventOf hub call) = false := by
          by_contra valid
          exact unpublishable ⟨retry,Nat.lt_of_not_le more,by simpa using valid⟩
        simp only [eventOf] at invalid
        simp only [invalid,Bool.not_false,if_true]
    have kept (runId : Text) : (if runId = call.input.runId then
        { hub.buffer call.input.runId with subscribers } else hub.buffer runId).events = (hub.buffer runId).events := by
      split
      next own => rw [own]
      next => rfl
    rcases refused with exhausted | invalid
    · rw [exhausted]
      exact ⟨.inr rfl,kept⟩
    · rw [invalid]
      exact ⟨.inl rfl,kept⟩
  · rw [if_pos (by simpa using retry)]
    exact ⟨.inl rfl,fun _ => rfl⟩

theorem publish_publishable (publishable : Publishable hub call) :
    ((publish lim hub call).2.1 = .error .capacityPressure ↔
        (makeCapacity lim (prepared (hub.buffer call.input.runId) (eventOf hub call))
          (retain (eventOf hub call))).1 = false) ∧
      (∀ refusal, (publish lim hub call).2.1 = .error refusal → refusal = .capacityPressure) ∧
      ((publish lim hub call).2.1 = .error .capacityPressure → ∀ runId,
        ((publish lim hub call).1.buffer runId).events = if runId = call.input.runId then
          (makeCapacity lim (prepared (hub.buffer call.input.runId) (eventOf hub call))
            (retain (eventOf hub call))).2.events else (hub.buffer runId).events) := by
  obtain ⟨retry,more,valid⟩ := publishable
  obtain ⟨subscribers,made,decided,_⟩ := publishRun_spec lim (hub.buffer call.input.runId) call
  have asked (admitted : Bool) (run : RunBuffer)
      (room : makeCapacity lim (prepared (hub.buffer call.input.runId) (eventOf hub call))
        (retain (eventOf hub call)) = (admitted,run)) :
      publishTo lim (hub.buffer call.input.runId) call.input call.occurredAt =
        if admitted then (accept run (retain (eventOf hub call)),.ok (eventOf hub call))
        else (run,.error .capacityPressure) := by
    rw [publishTo,if_neg (Nat.not_le.mpr more)]
    rw [eventOf] at valid room ⊢
    simp only [valid,Bool.not_true,Bool.false_eq_true,if_false]
    rw [room]
    cases admitted <;> simp
  rw [publish,if_neg (by simp [retry])]
  simp only [decided,made,buffer_set]
  generalize room : makeCapacity lim (prepared (hub.buffer call.input.runId) (eventOf hub call))
    (retain (eventOf hub call)) = outcome
  obtain ⟨admitted,run⟩ := outcome
  rw [asked admitted run room]
  cases admitted with
  | false =>
    simp only [Bool.false_eq_true,if_false]
    refine ⟨by simp,?_,?_⟩
    · intro refusal same
      simpa using same.symm
    · intro _ runId
      split <;> rfl
  | true => simp

theorem refusesCleanly_iff (sound : Sound lim call.input.runId (hub.buffer call.input.runId)) :
    RefusesCleanly lim hub call ↔ (Publishable hub call →
      Orderly lim (hub.buffer call.input.runId) (eventOf hub call)) := by
  by_cases publishable : Publishable hub call
  · obtain ⟨refused_iff,only,left⟩ := @publish_publishable lim hub call publishable
    have room := @makeCapacity_prepared lim _ (eventOf hub call) _ sound
    simp only [publishable,forall_const]
    constructor
    · intro clean
      refine ⟨?_,?_⟩
      · intro terminal
        have admitted := clean.terminal terminal
        rw [ne_eq,refused_iff,Bool.not_eq_false] at admitted
        exact room.mp admitted
      · intro noRoom
        rw [← room,Bool.not_eq_true] at noRoom
        have refused := refused_iff.mpr noRoom
        have same := clean.unchanged _ refused call.input.runId
        rw [left refused,if_pos rfl] at same
        exact (makeCapacity_untouched noRoom).mp same
    · intro orderly
      refine ⟨?_,?_⟩
      · intro refusal refused runId
        obtain rfl := only refusal refused
        rw [left refused]
        split
        next own =>
          rw [own]
          have noRoom := refused_iff.mp refused
          apply (makeCapacity_untouched noRoom).mpr
          apply orderly.refusal
          rw [← room,noRoom]
          exact Bool.false_ne_true
        next => rfl
      · intro terminal refused
        have admitted := room.mpr (orderly.terminal terminal)
        rw [refused_iff.mp refused] at admitted
        cases admitted
  · obtain ⟨refused,same⟩ := @publish_unpublishable lim hub call publishable
    simp only [publishable,false_implies,iff_true]
    refine ⟨fun _ _ => same,?_⟩
    intro _ capacity
    rw [capacity] at refused
    simp at refused

/-- The retention of the hub after any publishes, and when the next one refuses cleanly. -/
theorem publishing_retention (options : EventHubOptions) (calls : List Publish) :
    (∀ runId, Sound options.limits runId (((publishing options.limits).run calls).buffer runId) ∧
      (acceptedOf runId ((publishing options.limits).noted calls)).map (·.sequence) =
        List.range (((publishing options.limits).run calls).buffer runId).nextSequence) ∧
    ∀ call, RefusesCleanly options.limits ((publishing options.limits).run calls) call ↔
      (Publishable ((publishing options.limits).run calls) call →
        Orderly options.limits
          (((publishing options.limits).run calls).buffer call.input.runId)
          (eventOf ((publishing options.limits).run calls) call)) := by
  have sound := publishing_sound options.limits calls
  refine ⟨fun runId => ⟨(sound runId).1,(sound runId).2.sequences⟩,?_⟩
  intro call
  exact refusesCleanly_iff (sound call.input.runId).1

def statusCall (state : CodingWorkbenchRuntimeStateName) (revision : Nat) : Publish where
  input := ⟨"run-a".toList,state,.ofNat revision,none,none⟩
  occurredAt := "2024-01-01T00:00:00.000Z".toList
  takes := fun _ => true

def twoEvents : EventHubOptions := ⟨some 2,none,none⟩

/-- Publishes of events that are no larger than half of the byte bound. -/
def smallFrom (lim : EventHubLimits) (hub : Hub) : List Publish → Bool
  | [] => true
  | call :: calls =>
    decide (2 * (eventOf hub call).bytes ≤ lim.maxBytes) && smallFrom lim (publish lim hub call).1 calls

/-- Two recovery-required events take the slot that is kept for the terminal one. -/
theorem publishing_terminal_refused : ¬ ∀ (options : EventHubOptions) (calls : List Publish)
    (call : Publish), smallFrom options.limits Hub.empty (calls ++ [call]) = true →
      RefusesCleanly options.limits ((publishing options.limits).run calls) call := by
  intro clean
  have small : smallFrom twoEvents.limits Hub.empty
      ([statusCall .recoveryRequired 1,statusCall .recoveryRequired 2] ++
        [statusCall .succeeded 3]) = true := by decide +kernel
  have terminal : isTerminal (eventOf ((publishing twoEvents.limits).run
      [statusCall .recoveryRequired 1,statusCall .recoveryRequired 2]) (statusCall .succeeded 3)) =
        true := by decide +kernel
  have refused : (publish twoEvents.limits ((publishing twoEvents.limits).run
      [statusCall .recoveryRequired 1,statusCall .recoveryRequired 2]) (statusCall .succeeded 3)).2.1 =
        .error .capacityPressure := by decide +kernel
  exact (clean _ _ _ small).terminal terminal refused

end Retention

end Keiko.EventHub
