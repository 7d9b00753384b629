import Keiko.EditorAgentRegistry

/-! What holds in every run of the registry of the editor sessions: the queues stay within their
bounds, every admission has one end, a report follows the ends that no browser reported, and what a
session says stays on its own bridges. -/
namespace Keiko.EditorAgent
open Keiko.Library List Bool OrderedMap

section Notes

variable {number : ℕ} {notes more : List Note}

def Note.isAdmission (number : ℕ) : Note → Bool
  | .admitted other _ => decide (other = number)
  | _ => false

def Note.isLeaving (number : ℕ) : Note → Bool
  | .left other _ => decide (other = number)
  | _ => false

def Cause.isReported : Cause → Bool
  | .timedOut | .cancelled => true
  | .taken | .reset => false

def Note.isLapse (number : ℕ) : Note → Bool
  | .left other cause => decide (other = number) && cause.isReported
  | _ => false

def Note.isReport (number : ℕ) : Note → Bool
  | .emitted (some other) _ => decide (other = number)
  | _ => false

def Note.isQuiet : Note → Bool
  | .admitted _ _ | .left _ _ => false
  | _ => true

def Said (notes : List Note) : Note → Prop
  | .emitted (some number) event => ∃ action result, .admitted number action ∈ notes ∧
      event.payload = .result result ∧ result.actionId = action.actionId ∧
      result.sessionId = action.sessionId
  | .delivered (.bridge sessionId _) event =>
    eventSessionId event = none ∨ eventSessionId event = some sessionId
  | .delivered (.observer _) event => ∃ original, observerEvent original = some event
  | _ => True

theorem Said.mono {note : Note} (said : Said notes note) (inside : notes ⊆ more) : Said more note := by
  cases note with
  | emitted about event =>
    cases about with
    | none => trivial
    | some number =>
      obtain ⟨action,res,mem,rest⟩ := said
      exact ⟨action,res,inside mem,rest⟩
  | delivered receiver event => cases receiver <;> exact said
  | _ => trivial

theorem countP_of_quiet (quiet : ∀ note ∈ more, note.isQuiet = true) :
    more.countP (Note.isAdmission number) = 0 ∧ more.countP (Note.isLeaving number) = 0 := by
  constructor
  · rw [countP_eq_zero]
    intro note mem
    have silent := quiet note mem
    cases note <;> simp_all [Note.isAdmission,Note.isQuiet]
  · rw [countP_eq_zero]
    intro note mem
    have silent := quiet note mem
    cases note <;> simp_all [Note.isLeaving,Note.isQuiet]

theorem mem_deliveries {reg : Registry} {event : AgentEvent} {note : Note} (mem : note ∈ deliveries reg event) :
    ∃ receiver received, note = .delivered receiver received ∧ Said notes note := by
  rcases mem_append.mp mem with observed | bridged
  · cases observable : observerEvent event with
    | none =>
      rw [observable] at observed
      cases observed
    | some projected =>
      rw [observable] at observed
      obtain ⟨send,_,rfl⟩ := mem_map.mp observed
      exact ⟨_,_,rfl,event,observable⟩
  · cases about : eventSessionId event with
    | none =>
      rw [about] at bridged
      obtain ⟨entry,_,inside⟩ := mem_flatMap.mp bridged
      obtain ⟨send,_,rfl⟩ := mem_map.mp inside
      exact ⟨_,_,rfl,.inl about⟩
    | some sessionId =>
      rw [about] at bridged
      obtain ⟨send,_,rfl⟩ := mem_map.mp bridged
      exact ⟨_,_,rfl,.inr about⟩

end Notes

section Invariant

variable {lim : Limits} {reg next : Registry} {notes more : List Note}
  {sid actionId : Text} {entry : PendingAction} {inner : OrderedMap Text PendingAction}

structure Kept (lim : Limits) (reg : Registry) (notes : List Note) : Prop where
  count : ∀ sid, reg.pendingCount sid ≤ lim.maxQueuedPerSession
  bytes : ∀ sid, reg.sessionQueuedBytes sid ≤ lim.maxQueuedBytesPerSession
  total : reg.processQueuedBytes ≤ lim.maxQueuedBytesTotal
  single : ∀ sid first second entry other, NestedMap.find? reg.pending sid first = some entry →
    NestedMap.find? reg.pending sid second = some other →
    isMutatingEditorAgentAction entry.action.type = true →
    isMutatingEditorAgentAction other.action.type = true → first = second
  slots : ∀ sid actionId entry, NestedMap.find? reg.pending sid actionId = some entry →
    entry.action.sessionId = sid ∧ entry.action.actionId = actionId ∧
      entry.bytes = serializedActionBytes entry.action ∧
      (reg.timers.get? entry.timer).map Timer.action = some entry.action ∧
      .admitted entry.timer entry.action ∈ notes
  armed : ∀ (handle : ℕ) timer, reg.timers.get? handle = some timer →
    handle < reg.armed ∧ ∃ entry, NestedMap.find? reg.pending timer.action.sessionId
      timer.action.actionId = some entry ∧ entry.timer = handle
  admissions : ∀ number, notes.countP (Note.isAdmission number) = if number < reg.armed then 1 else 0
  leavings : ∀ number, notes.countP (Note.isLeaving number) +
    (if reg.timers.has number then 1 else 0) = notes.countP (Note.isAdmission number)
  said : ∀ note ∈ notes, Said notes note

theorem Kept.start : Kept lim createRegistryState [] := by
  refine ⟨fun _ => Nat.zero_le _,fun _ => Nat.zero_le _,Nat.zero_le _,?_,?_,?_,?_,?_,?_⟩
  · intro sid a b entry other hit
    cases hit
  · intro sid actionId entry hit
    cases hit
  · intro handle timer hit
    cases hit
  · intro number
    rfl
  · intro number
    rfl
  · intro note mem
    cases mem

theorem Kept.quiet (kept : Kept lim reg notes)
    (queue : next.pending = reg.pending) (timers : next.timers = reg.timers)
    (handles : next.armed = reg.armed)
    (silent : ∀ note ∈ more, note.isQuiet = true ∧ Said notes note) :
    Kept lim next (notes ++ more) := by
  have nothing {number : ℕ} := @countP_of_quiet number more fun note mem => (silent note mem).1
  refine ⟨?_,?_,?_,?_,?_,?_,?_,?_,?_⟩
  · intro sid
    rw [Registry.pendingCount,queue]
    exact kept.count sid
  · intro sid
    rw [Registry.sessionQueuedBytes,queue]
    exact kept.bytes sid
  · rw [Registry.processQueuedBytes,queue]
    exact kept.total
  · rw [queue]
    exact kept.single
  · intro sid actionId entry hit
    rw [queue] at hit
    obtain ⟨own,name,size,running,noted⟩ := kept.slots sid actionId entry hit
    rw [timers]
    exact ⟨own,name,size,running,mem_append_left _ noted⟩
  · rw [timers,queue,handles]
    exact kept.armed
  · intro number
    rw [countP_append,nothing.1,handles]
    exact kept.admissions number
  · intro number
    rw [countP_append,countP_append,nothing.1,nothing.2,timers]
    exact kept.leavings number
  · intro note mem
    rcases mem_append.mp mem with old | new
    · exact (kept.said note old).mono (subset_append_left _ _)
    · exact (silent note new).2.mono (subset_append_left _ _)

theorem Kept.emit (kept : Kept lim reg notes) (about : Option ℕ) (payload : Payload)
    (said : Said notes (.emitted about ⟨reg.eventSeq + 1,payload⟩)) :
    Kept lim (emit about payload reg).1 (notes ++ (emit about payload reg).2) := by
  refine kept.quiet rfl rfl rfl ?_
  intro note mem
  rcases mem_cons.mp mem with rfl | delivered
  · exact ⟨rfl,said⟩
  · obtain ⟨receiver,received,rfl,addressed⟩ := mem_deliveries delivered
    exact ⟨rfl,addressed⟩

theorem Kept.note (kept : Kept lim reg notes) (note : Note) (quiet : note.isQuiet = true)
    (said : Said notes note) : Kept lim reg (notes ++ [note]) := by
  apply kept.quiet rfl rfl rfl
  intro other mem
  rw [mem_singleton] at mem
  rw [mem]
  exact ⟨quiet,said⟩

theorem Kept.same_slot (kept : Kept lim reg notes)
    (hit : NestedMap.find? reg.pending sid actionId = some entry)
    {otherSession otherId : Text} {other : PendingAction}
    (here : NestedMap.find? reg.pending otherSession otherId = some other)
    (same : other.timer = entry.timer) : otherSession = sid ∧ otherId = actionId := by
  obtain ⟨own,name,_,running,_⟩ := kept.slots _ _ _ hit
  obtain ⟨other_own,other_name,_,other_running,_⟩ := kept.slots _ _ _ here
  rw [same,running] at other_running
  rw [← own,← name,← other_own,← other_name,Option.some.inj other_running]
  exact ⟨rfl,rfl⟩

theorem Kept.clear (kept : Kept lim reg notes)
    (hit : NestedMap.find? reg.pending sid actionId = some entry) (cause : Cause)
    (queue : next.pending = NestedMap.remove reg.pending sid actionId)
    (timers : next.timers = reg.timers.delete entry.timer)
    (handles : next.armed = reg.armed) :
    Kept lim next (notes ++ [.left entry.timer cause]) := by
  have elsewhere {otherSession otherId : Text} {other : PendingAction}
      (present : NestedMap.find? reg.pending otherSession otherId = some other)
      (moved : ¬ (otherSession = sid ∧ otherId = actionId)) : other.timer ≠ entry.timer :=
    fun same => moved (kept.same_slot hit present same)
  have remaining {otherSession otherId : Text} {other : PendingAction}
      (present : NestedMap.find? next.pending otherSession otherId = some other) :
      ¬ (otherSession = sid ∧ otherId = actionId) ∧
        NestedMap.find? reg.pending otherSession otherId = some other := by
    rw [queue,NestedMap.find?_remove] at present
    split at present
    next => cases present
    next moved => exact ⟨moved,present⟩
  obtain ⟨own,name,_,running,noted⟩ := kept.slots _ _ _ hit
  refine ⟨?_,?_,?_,?_,?_,?_,?_,?_,?_⟩
  · intro other
    rw [Registry.pendingCount,queue,NestedMap.size_inner]
    apply (NestedMap.innerTotal_remove_le _ hit other).trans
    rw [← NestedMap.size_inner]
    exact kept.count other
  · intro other
    rw [Registry.sessionQueuedBytes,queue]
    exact (NestedMap.innerTotal_remove_le _ hit other).trans (kept.bytes other)
  · have lighter := NestedMap.total_remove PendingAction.bytes hit
    have bound := kept.total
    rw [Registry.processQueuedBytes] at bound ⊢
    rw [queue]
    omega
  · intro session a b one two here there
    exact kept.single session a b one two (remaining here).2 (remaining there).2
  · intro session id other present
    obtain ⟨moved,stayed⟩ := remaining present
    obtain ⟨other_own,other_name,size,armed,admitted⟩ := kept.slots _ _ _ stayed
    refine ⟨other_own,other_name,size,?_,mem_append_left _ admitted⟩
    rw [timers,get?_delete_of_ne (elsewhere stayed moved)]
    exact armed
  · intro handle timer present
    rw [timers,get?_delete] at present
    split at present
    next => cases present
    next differ =>
      obtain ⟨bound,other,stayed,same⟩ := kept.armed handle timer present
      rw [handles]
      refine ⟨bound,other,?_,same⟩
      rw [queue,NestedMap.find?_remove,if_neg]
      · exact stayed
      · intro here
        rw [here.1,here.2,hit] at stayed
        exact differ (same.symm.trans (congrArg PendingAction.timer (Option.some.inj stayed)).symm)
  · intro number
    rw [countP_append,handles]
    exact kept.admissions number
  · intro number
    have pre := kept.leavings number
    rw [countP_append,countP_append,timers]
    by_cases same : number = entry.timer
    · subst same
      have was : reg.timers.has entry.timer = true := by
        rw [has_iff]
        obtain ⟨timer,present,_⟩ := Option.map_eq_some_iff.mp running
        exact ⟨timer,present⟩
      have gone : (reg.timers.delete entry.timer).has entry.timer = false := by
        rw [has_eq_false]
        exact get?_delete_self
      rw [was] at pre
      rw [gone]
      simp only [countP_singleton,Note.isLeaving,Note.isAdmission,decide_true] at pre ⊢
      simpa using pre
    · have still : (reg.timers.delete entry.timer).has number = reg.timers.has number := by
        rw [has,get?_delete_of_ne same]
        rfl
      rw [still]
      simpa [countP_singleton,Note.isLeaving,Note.isAdmission,Ne.symm same] using pre
  · intro note mem
    rcases mem_append.mp mem with old | new
    · exact (kept.said note old).mono (subset_append_left _ _)
    · rw [mem_singleton] at new
      rw [new]
      trivial

theorem hasPendingMutation_eq_false
    (none_pending : hasPendingMutation inner = false) (hit : inner.get? actionId = some entry) :
    isMutatingEditorAgentAction entry.action.type = false := by
  rw [hasPendingMutation,any_eq_false] at none_pending
  have mem : entry ∈ inner.values := mem_map.mpr ⟨_,mem_entries.mpr hit,rfl⟩
  exact eq_false_iff.mpr (none_pending entry mem)

variable {action : Action}

theorem queueRejection_eq_none
    (unrejected : queueRejection action inner = none) : inner.get? action.actionId = none ∧
      (isMutatingEditorAgentAction action.type = true → hasPendingMutation inner = false) := by
  rw [queueRejection] at unrejected
  split at unrejected
  next => cases unrejected
  next absent =>
    split at unrejected
    next => cases unrejected
    next free =>
      refine ⟨has_eq_false.mp (eq_false_iff.mpr absent),?_⟩
      intro mutating
      rw [mutating,Bool.true_and] at free
      exact eq_false_iff.mpr free

theorem capacityRefusal_eq_none {actionBytes : ℕ} (room : capacityRefusal lim reg action actionBytes = none) :
    reg.pendingCount action.sessionId < lim.maxQueuedPerSession ∧
      reg.sessionQueuedBytes action.sessionId + actionBytes ≤ lim.maxQueuedBytesPerSession ∧
      reg.processQueuedBytes + actionBytes ≤ lim.maxQueuedBytesTotal := by
  rw [capacityRefusal] at room
  split at room
  next => cases room
  next slots =>
    split at room
    next => cases room
    next own =>
      split at room
      next => cases room
      next total => exact ⟨not_le.mp slots,not_lt.mp own,not_lt.mp total⟩

theorem Kept.fillSlot (kept : Kept lim reg notes) (runtimeOwned : Bool)
    (unrejected : queueRejection action (NestedMap.inner reg.pending action.sessionId) = none)
    (room : capacityRefusal lim reg action (serializedActionBytes action) = none) :
    Kept lim (fillSlot lim action runtimeOwned reg).1 (notes ++ [.admitted reg.armed action]) := by
  obtain ⟨fresh,free⟩ := queueRejection_eq_none unrejected
  obtain ⟨slots,own,total⟩ := capacityRefusal_eq_none room
  have absent : reg.timers.get? reg.armed = none := by
    cases present : reg.timers.get? reg.armed with
    | none => rfl
    | some timer => exact absurd (kept.armed _ _ present).1 (lt_irrefl _)
  have running {handle : ℕ} {timer : Timer} (present : reg.timers.get? handle = some timer) :
      handle ≠ reg.armed := (kept.armed _ _ present).1.ne
  refine ⟨?_,?_,?_,?_,?_,?_,?_,?_,?_⟩
  · intro sid
    rw [Registry.pendingCount,EditorAgent.fillSlot,NestedMap.size_inner]
    have bound := kept.count sid
    rw [Registry.pendingCount,NestedMap.size_inner] at bound slots
    by_cases same : sid = action.sessionId
    · rw [same,NestedMap.innerTotal_insert _ fresh]
      exact slots
    · rw [NestedMap.innerTotal_insert_of_ne _ same]
      exact bound
  · intro sid
    rw [Registry.sessionQueuedBytes,EditorAgent.fillSlot]
    by_cases same : sid = action.sessionId
    · rw [same,NestedMap.innerTotal_insert _ fresh]
      exact own
    · rw [NestedMap.innerTotal_insert_of_ne _ same]
      exact kept.bytes sid
  · rw [Registry.processQueuedBytes,EditorAgent.fillSlot,NestedMap.total_insert _ fresh]
    exact total
  · intro sid a b one two here there changing also
    rw [EditorAgent.fillSlot,NestedMap.find?_insert] at here there
    have alone {id : Text} {other : PendingAction}
        (stands : NestedMap.find? reg.pending action.sessionId id = some other)
        (mutating : isMutatingEditorAgentAction action.type = true) :
        isMutatingEditorAgentAction other.action.type ≠ true := by
      rw [hasPendingMutation_eq_false (free mutating) stands]
      exact false_ne_true
    split at here
    next new =>
      split at there
      next also_new => rw [new.2,also_new.2]
      next =>
        cases here
        rw [new.1] at there
        exact absurd also (alone there changing)
    next =>
      split at there
      next new =>
        cases there
        rw [new.1] at here
        exact absurd changing (alone here also)
      next => exact kept.single sid a b one two here there changing also
  · intro sid actionId entry hit
    rw [EditorAgent.fillSlot,NestedMap.find?_insert] at hit
    rw [EditorAgent.fillSlot]
    split at hit
    next new =>
      cases hit
      refine ⟨new.1.symm,new.2.symm,rfl,?_,?_⟩
      · rw [get?_set_self]
        rfl
      · exact mem_append_right _ mem_cons_self
    next =>
      obtain ⟨session,name,size,armed,noted⟩ := kept.slots _ _ _ hit
      obtain ⟨timer,present,_⟩ := Option.map_eq_some_iff.mp armed
      refine ⟨session,name,size,?_,mem_append_left _ noted⟩
      rw [get?_set_of_ne _ (running present)]
      exact armed
  · intro handle timer present
    rw [EditorAgent.fillSlot,get?_set] at present
    rw [EditorAgent.fillSlot]
    split at present
    next new =>
      cases present
      rw [new]
      refine ⟨Nat.lt_succ_self _,⟨action,reg.armed,runtimeOwned,serializedActionBytes action⟩,?_,rfl⟩
      rw [NestedMap.find?_insert,if_pos ⟨rfl,rfl⟩]
    next =>
      obtain ⟨bound,entry,hit,same⟩ := kept.armed handle timer present
      refine ⟨bound.trans (Nat.lt_succ_self _),entry,?_,same⟩
      rw [NestedMap.find?_insert,if_neg]
      · exact hit
      · intro here
        rw [here.1] at hit
        have gone : NestedMap.find? reg.pending action.sessionId action.actionId = none :=
          fresh
        rw [here.2,gone] at hit
        cases hit
  · intro number
    rw [countP_append,kept.admissions,EditorAgent.fillSlot]
    simp only [countP_singleton,Note.isAdmission,decide_eq_true_eq]
    by_cases new : reg.armed = number
    · rw [if_pos new,if_neg (by omega),if_pos (by omega)]
    · rw [if_neg new]
      split
      next => rw [if_pos (by omega)]
      next => rw [if_neg (by omega)]
  · intro number
    have pre := kept.leavings number
    rw [countP_append,countP_append,EditorAgent.fillSlot]
    by_cases new : number = reg.armed
    · rw [new] at pre ⊢
      have now : (reg.timers.set reg.armed ⟨action,actionTimeoutMs lim action⟩).has reg.armed = true := by
        rw [has,get?_set_self]
        rfl
      rw [has_eq_false.mpr absent] at pre
      rw [now]
      simpa [countP_singleton,Note.isLeaving,Note.isAdmission] using pre
    · have still : (reg.timers.set reg.armed
          ⟨action,actionTimeoutMs lim action⟩).has number = reg.timers.has number := by
        rw [has,get?_set_of_ne _ new]
        rfl
      rw [still]
      simpa [countP_singleton,Note.isLeaving,Note.isAdmission,Ne.symm new] using pre
  · intro note mem
    rcases mem_append.mp mem with old | new
    · exact (kept.said note old).mono (subset_append_left _ _)
    · rw [mem_singleton] at new
      rw [new]
      trivial

end Invariant

section Steps

variable {lim : Limits} {tests : SnapshotTests} {reg next : Registry}
  {notes more : List Note} {sid actionId : Text} {entry : PendingAction}

theorem Kept.release (kept : Kept lim reg notes)
    (hit : NestedMap.find? reg.pending sid actionId = some entry) (cause : Cause) :
    Kept lim (release cause sid actionId entry reg).1
      (notes ++ (release cause sid actionId entry reg).2) :=
  kept.clear hit cause rfl rfl rfl

theorem Kept.queueAction (kept : Kept lim reg notes) (action emitAction : Action) (runtimeOwned : Bool) :
    Kept lim (queueAction lim action emitAction runtimeOwned reg).1
      (notes ++ (queueAction lim action emitAction runtimeOwned reg).2) := by
  rw [EditorAgent.queueAction]
  split
  next => exact kept.note _ rfl trivial
  next unrejected =>
    split
    next => exact kept.note _ rfl trivial
    next room =>
      have filled := kept.fillSlot runtimeOwned unrejected room
      have emitted := filled.emit none (.action emitAction) trivial
      have answered := emitted.note (.outcome (.queued (queuedResult action))) rfl trivial
      rw [append_assoc,append_assoc] at answered
      rw [Effect.andThen,Effect.andThen,append_assoc]
      exact answered

theorem Kept.takePendingAction (kept : Kept lim reg notes) (sid actionId digest : Text) :
    Kept lim (takePendingAction sid actionId digest reg).1
      (notes ++ (takePendingAction sid actionId digest reg).2) := by
  rw [EditorAgent.takePendingAction]
  split
  next =>
    split
    next => exact kept.note _ rfl trivial
    next entry hit =>
      have released := kept.release hit .taken
      have answered := released.note (.claimed (some entry.action)) rfl trivial
      rw [append_assoc] at answered
      exact answered
  next => exact kept.note _ rfl trivial

theorem Kept.timer_eq (kept : Kept lim reg notes) {handle : ℕ} {armed : Timer}
    (here : reg.timers.get? handle = some armed) : ∃ entry,
      NestedMap.find? reg.pending armed.action.sessionId armed.action.actionId = some entry ∧
      entry.timer = handle ∧ entry.action = armed.action ∧
      EditorAgent.timer handle reg = ((EditorAgent.release .timedOut armed.action.sessionId
        armed.action.actionId entry).andThen (EditorAgent.emit (some entry.timer)
          (.result (lifecycleFailure armed.action .timedOut timedOutMessage)))) reg := by
  obtain ⟨_,entry,hit,rfl⟩ := kept.armed handle armed here
  obtain ⟨_,_,_,running,_⟩ := kept.slots _ _ _ hit
  refine ⟨entry,hit,rfl,?_,?_⟩
  · rw [here] at running
    exact (Option.some.inj running).symm
  · rw [EditorAgent.timer,here]
    simp only [Effect.andThen,onTimeout,clearTimer,Effect.update,hit]
    rfl

theorem Kept.report (kept : Kept lim reg notes)
    (hit : NestedMap.find? reg.pending sid actionId = some entry) (cause : Cause)
    {res : ActionResult} (named : res.actionId = entry.action.actionId)
    (addressed : res.sessionId = entry.action.sessionId) :
    Kept lim (((EditorAgent.release cause sid actionId entry).andThen
        (EditorAgent.emit (some entry.timer) (.result res))) reg).1
      (notes ++ (((EditorAgent.release cause sid actionId entry).andThen
        (EditorAgent.emit (some entry.timer) (.result res))) reg).2) := by
  obtain ⟨_,_,_,_,noted⟩ := kept.slots _ _ _ hit
  have released := kept.release hit cause
  have emitted := released.emit (some entry.timer) (.result res)
    ⟨entry.action,res,mem_append_left _ noted,rfl,named,addressed⟩
  rw [append_assoc] at emitted
  exact emitted

theorem Kept.timer (kept : Kept lim reg notes) (handle : ℕ) :
    Kept lim (timer handle reg).1 (notes ++ (timer handle reg).2) := by
  cases here : reg.timers.get? handle with
  | none =>
    rw [EditorAgent.timer,here]
    simpa using kept
  | some armed =>
    obtain ⟨entry,hit,_,same,fires⟩ := kept.timer_eq here
    rw [fires]
    apply kept.report hit
    · rw [same]
      rfl
    · rw [same]
      rfl

structure Ahead (lim : Limits) (items : List ((Text × Text) × PendingAction))
    (reg : Registry) (notes : List Note) : Prop where
  kept : Kept lim reg notes
  distinct : (items.map Prod.fst).Nodup
  found : ∀ item ∈ items, NestedMap.find? reg.pending item.1.1 item.1.2 = some item.2

theorem Kept.ahead (kept : Kept lim reg notes) : Ahead lim (NestedMap.items reg.pending) reg notes :=
  ⟨kept,NestedMap.nodup_items _,fun _ mem => NestedMap.mem_items.mp mem⟩

variable {items : List ((Text × Text) × PendingAction)} {item : (Text × Text) × PendingAction}

theorem Ahead.step (ahead : Ahead lim (item :: items) reg notes) (kept : Kept lim next (notes ++ more))
    (queue : next.pending = NestedMap.remove reg.pending item.1.1 item.1.2) :
    Ahead lim items next (notes ++ more) := by
  have keys := ahead.distinct
  rw [map_cons,nodup_cons] at keys
  refine ⟨kept,keys.2,?_⟩
  intro other mem
  rw [queue,NestedMap.find?_remove,if_neg]
  · exact ahead.found other (mem_cons_of_mem _ mem)
  · intro same
    have twice : other.1 = item.1 := Prod.ext same.1 same.2
    exact keys.1 (mem_map.mpr ⟨other,mem,twice⟩)

theorem Ahead.cancelEntry (runId : Text) (ahead : Ahead lim (item :: items) reg notes) :
    Ahead lim items (cancelEntry runId item reg).1 (notes ++ (cancelEntry runId item reg).2) := by
  rw [EditorAgent.cancelEntry]
  split
  next =>
    have hit := ahead.found item mem_cons_self
    exact ahead.step (ahead.kept.report hit .cancelled rfl rfl) rfl
  next =>
    rw [Effect.skip,append_nil]
    have keys := ahead.distinct
    rw [map_cons,nodup_cons] at keys
    exact ⟨ahead.kept,keys.2,fun other mem => ahead.found other (mem_cons_of_mem _ mem)⟩

theorem Kept.cancelPendingByAuthorityRun (kept : Kept lim reg notes) (runId : Text) :
    Kept lim (cancelPendingByAuthorityRun runId reg).1 (notes ++ (cancelPendingByAuthorityRun runId reg).2) := by
  have loop : Ahead lim [] _ _ := Effect.forEach_holds
    (fun item items reg notes ahead => ahead.cancelEntry runId) _ kept.ahead
  have answered := loop.kept.note (.cancelled ((NestedMap.items reg.pending).countP
    fun item => isRuntimeActionForRun item.2 runId)) rfl trivial
  rw [append_assoc] at answered
  exact answered

structure Draining (lim : Limits) (items : List ((Text × Text) × PendingAction))
    (reg : Registry) (notes : List Note) : Prop where
  ahead : Ahead lim items reg notes
  only : ∀ sid actionId entry, NestedMap.find? reg.pending sid actionId = some entry →
    ((sid,actionId),entry) ∈ items

theorem Draining.release (draining : Draining lim (item :: items) reg notes) (cause : Cause) :
    Draining lim items (release cause item.1.1 item.1.2 item.2 reg).1
      (notes ++ (release cause item.1.1 item.1.2 item.2 reg).2) := by
  have hit := draining.ahead.found item mem_cons_self
  refine ⟨draining.ahead.step (draining.ahead.kept.release hit cause) rfl,?_⟩
  intro sid actionId entry here
  rw [EditorAgent.release,Effect.andThen,leave,clearTimer,Effect.update,NestedMap.find?_remove] at here
  split at here
  next => cases here
  next moved =>
    apply (mem_cons.mp (draining.only _ _ _ here)).resolve_left
    intro same
    exact moved ⟨congrArg (fun item => item.1.1) same,congrArg (fun item => item.1.2) same⟩

theorem Kept.empty (kept : Kept lim reg notes)
    (nothing : ∀ sid actionId, NestedMap.find? reg.pending sid actionId = none)
    (queue : next.pending = .empty) (timers : next.timers = reg.timers)
    (handles : next.armed = reg.armed) : Kept lim next notes := by
  refine ⟨?_,?_,?_,?_,?_,?_,?_,?_,kept.said⟩
  · intro sid
    rw [Registry.pendingCount,queue]
    exact Nat.zero_le _
  · intro sid
    rw [Registry.sessionQueuedBytes,queue]
    exact Nat.zero_le _
  · rw [Registry.processQueuedBytes,queue]
    exact Nat.zero_le _
  · intro sid a b one two here
    rw [queue] at here
    cases here
  · intro sid actionId entry hit
    rw [queue] at hit
    cases hit
  · intro handle timer present
    rw [timers] at present
    obtain ⟨_,entry,hit,_⟩ := kept.armed handle timer present
    rw [nothing] at hit
    cases hit
  · rw [handles]
    exact kept.admissions
  · rw [timers]
    exact kept.leavings

theorem Kept.reset (kept : Kept lim reg notes) : Kept lim (reset reg).1 (notes ++ (reset reg).2) := by
  have start : Draining lim (NestedMap.items reg.pending) reg notes :=
    ⟨kept.ahead,fun _ _ _ hit => NestedMap.mem_items.mpr hit⟩
  have loop : Draining lim [] _ _ := Effect.forEach_holds
    (fun item items reg notes draining => draining.release .reset) _ start
  have nothing : ∀ sid actionId, NestedMap.find? (Effect.forEach (fun item : (Text × Text) × PendingAction =>
        EditorAgent.release .reset item.1.1 item.1.2 item.2)
      (NestedMap.items reg.pending) reg).1.pending sid actionId = none := by
    intro sid actionId
    apply Option.eq_none_iff_forall_ne_some.mpr
    intro entry hit
    cases loop.only sid actionId entry hit
  rw [EditorAgent.reset,Effect.andThen,Effect.update,append_nil]
  exact loop.ahead.kept.empty nothing rfl rfl rfl

end Steps

section Aside

variable {lim : Limits} {tests : SnapshotTests} {reg next : Registry} {log : List Note}

structure SameQueue (reg next : Registry) : Prop where
  pending : next.pending = reg.pending
  timers : next.timers = reg.timers
  armed : next.armed = reg.armed

theorem Kept.aside (kept : Kept lim reg log) (same : SameQueue reg next) : Kept lim next log := by
  have moved := @Kept.quiet lim reg next log [] kept same.pending same.timers same.armed
    (fun note mem => by cases mem)
  rw [append_nil] at moved
  exact moved

theorem Kept.accepted (kept : Kept lim reg log) (same : SameQueue reg next)
    (ans : Bool) : Kept lim next (log ++ [.accepted ans]) :=
  (kept.aside same).note _ rfl trivial

theorem Kept.announced (kept : Kept lim reg log) (same : SameQueue reg next) (snapshot : Snapshot) :
    Kept lim (((EditorAgent.emit none (.session snapshot)).andThen (Effect.note (.accepted true))) next).1
      (log ++ (((EditorAgent.emit none (.session snapshot)).andThen (Effect.note (.accepted true))) next).2) := by
  have emitted := (kept.aside same).emit none (.session snapshot) trivial
  have answered := emitted.note (.accepted true) rfl trivial
  rw [append_assoc] at answered
  exact answered

theorem SameQueue.refl (reg : Registry) : SameQueue reg reg := ⟨rfl,rfl,rfl⟩

theorem SameQueue.evict (same : SameQueue reg next) (sessionId : Text) :
    SameQueue reg (evictOldestIdleSession next sessionId) := by
  rw [evictOldestIdleSession]
  split
  next => exact same
  next => exact ⟨same.pending,same.timers,same.armed⟩

theorem SameQueue.makeRoom (same : SameQueue reg next) (full : Prop) [Decidable full] (sessionId : Text) :
    SameQueue reg (if full then evictOldestIdleSession next sessionId else next) := by
  split
  next => exact same.evict sessionId
  next => exact same

theorem Kept.connect (kept : Kept lim reg log) (sessionId : Option Text) (send : ℕ) :
    Kept lim (connect sessionId send reg).1 (log ++ (connect sessionId send reg).2) := by
  cases sessionId with
  | none =>
    apply kept.accepted
    exact ⟨rfl,rfl,rfl⟩
  | some sessionId =>
    rw [EditorAgent.connect]
    split
    next => exact kept.accepted (.refl _) _
    next =>
      apply kept.accepted
      exact ⟨rfl,rfl,rfl⟩

theorem Kept.connectAuthenticated (kept : Kept lim reg log) (sessionId digest : Text)
    (send : ℕ) : Kept lim (connectAuthenticated sessionId digest send reg).1
      (log ++ (connectAuthenticated sessionId digest send reg).2) := by
  rw [EditorAgent.connectAuthenticated]
  split
  next => exact kept.accepted (.refl _) _
  next =>
    split
    next => exact kept.connect _ _
    next => exact kept.accepted (.refl _) _

theorem Kept.disconnect (kept : Kept lim reg log) (sessionId : Option Text) (send : ℕ) :
    Kept lim (disconnect sessionId send reg).1 (log ++ (disconnect sessionId send reg).2) := by
  cases sessionId with
  | none =>
    rw [EditorAgent.disconnect,append_nil]
    exact kept.aside ⟨rfl,rfl,rfl⟩
  | some sessionId =>
    rw [EditorAgent.disconnect]
    split
    next =>
      rw [append_nil]
      exact kept
    next =>
      simp only
      split
      next =>
        rw [append_nil]
        exact kept.aside ⟨rfl,rfl,rfl⟩
      next =>
        rw [append_nil]
        exact kept.aside ⟨rfl,rfl,rfl⟩

theorem Kept.registerSnapshot (kept : Kept lim reg log) (snapshot : Snapshot)
    (digest : Option Text) : Kept lim (registerSnapshot lim snapshot digest reg).1
      (log ++ (registerSnapshot lim snapshot digest reg).2) := by
  rw [EditorAgent.registerSnapshot]
  split
  next => exact kept.accepted (.refl _) _
  next =>
    cases digest with
    | none =>
      apply kept.announced
      apply SameQueue.makeRoom
      exact ⟨rfl,rfl,rfl⟩
    | some digest =>
      apply kept.announced
      apply SameQueue.makeRoom
      exact ⟨rfl,rfl,rfl⟩

theorem Kept.refreshSnapshot (kept : Kept lim reg log) (snapshot : Snapshot)
    (digest : Text) : Kept lim (refreshSnapshot snapshot digest reg).1
      (log ++ (refreshSnapshot snapshot digest reg).2) := by
  rw [EditorAgent.refreshSnapshot]
  split
  next => exact kept.accepted (.refl _) _
  next =>
    split
    next =>
      apply kept.announced
      exact ⟨rfl,rfl,rfl⟩
    next => exact kept.accepted (.refl _) _

theorem Kept.rotateSnapshotCapability (kept : Kept lim reg log) (snapshot : Snapshot)
    (digest : Text) : Kept lim (rotateSnapshotCapability snapshot digest reg).1
      (log ++ (rotateSnapshotCapability snapshot digest reg).2) := by
  rw [EditorAgent.rotateSnapshotCapability]
  split
  next => exact kept.accepted (.refl _) _
  next =>
    apply kept.announced
    exact ⟨rfl,rfl,rfl⟩

theorem Kept.registerBufferSnapshot (kept : Kept lim reg log) (snapshot : Snapshot) (digest : Text) :
    Kept lim (registerBufferSnapshot lim tests snapshot digest reg).1
      (log ++ (registerBufferSnapshot lim tests snapshot digest reg).2) := by
  rw [EditorAgent.registerBufferSnapshot]
  split
  next => exact kept.accepted (.refl _) _
  next =>
    have bounded := (SameQueue.refl reg).makeRoom (lim.maxSessions ≤ reg.sessions.size) snapshot.sessionId
    simp only
    generalize (if lim.maxSessions ≤ reg.sessions.size then
      evictOldestIdleSession reg snapshot.sessionId else reg) = evicted at bounded ⊢
    split
    next => exact kept.accepted bounded _
    next =>
      apply kept.accepted
      exact ⟨bounded.pending,bounded.timers,bounded.armed⟩

theorem Kept.refreshBufferSnapshot (kept : Kept lim reg log) (snapshot : Snapshot)
    (digest : Text) : Kept lim (refreshBufferSnapshot tests snapshot digest reg).1
      (log ++ (refreshBufferSnapshot tests snapshot digest reg).2) := by
  rw [EditorAgent.refreshBufferSnapshot]
  split
  next =>
    apply kept.accepted
    exact ⟨rfl,rfl,rfl⟩
  next => exact kept.accepted (.refl _) _

theorem Kept.releaseBufferSnapshot (kept : Kept lim reg log) (sessionId digest : Text) :
    Kept lim (releaseBufferSnapshot sessionId digest reg).1
      (log ++ (releaseBufferSnapshot sessionId digest reg).2) := by
  rw [EditorAgent.releaseBufferSnapshot]
  split
  next =>
    apply kept.accepted
    exact ⟨rfl,rfl,rfl⟩
  next => exact kept.accepted (.refl _) _

theorem Kept.effect (kept : Kept lim reg log) (event : Event) : Kept lim (effect lim tests event reg).1
      (log ++ (effect lim tests event reg).2) := by
  cases event with
  | connect sessionId send => exact kept.connect sessionId send
  | connectAuthenticated sessionId digest send => exact kept.connectAuthenticated _ _ _
  | disconnect sessionId send => exact kept.disconnect sessionId send
  | registerSnapshot snapshot digest => exact kept.registerSnapshot _ _
  | refreshSnapshot snapshot digest => exact kept.refreshSnapshot _ _
  | rotateSnapshotCapability snapshot digest => exact kept.rotateSnapshotCapability _ _
  | registerBufferSnapshot snapshot digest => exact kept.registerBufferSnapshot _ _
  | refreshBufferSnapshot snapshot digest => exact kept.refreshBufferSnapshot _ _
  | releaseBufferSnapshot sessionId digest => exact kept.releaseBufferSnapshot _ _
  | queueAction action emitAction runtimeOwned => exact kept.queueAction _ _ _
  | takePendingAction sessionId actionId digest => exact kept.takePendingAction _ _ _
  | timer handle => exact kept.timer handle
  | cancelPendingByAuthorityRun runId => exact kept.cancelPendingByAuthorityRun runId
  | reportResult res => exact kept.emit none _ trivial
  | reset => exact kept.reset

theorem kept_run (lim : Limits) (tests : SnapshotTests) (evs : List Event) :
    Kept lim ((machine lim tests).run evs) ((machine lim tests).noted evs) := by
  apply Machine.holds_of_step (Kept lim)
  · exact Kept.start
  · intro reg log event kept
    exact kept.effect event

end Aside

section Ends

variable {lim : Limits} {tests : SnapshotTests} {reg : Registry} {notes more : List Note}
  {number : ℕ} {event : Event} {cause : Cause}

def Silent (notes : List Note) : Prop :=
  ∀ note ∈ notes, (∀ number cause, note ≠ .left number cause) ∧ ∀ number event, note ≠ .emitted (some number) event

theorem Silent.nil : Silent [] := by
  intro note mem
  cases mem

theorem Silent.append (a : Silent notes) (b : Silent more) : Silent (notes ++ more) := by
  intro note mem
  rcases mem_append.mp mem with left | right
  · exact a note left
  · exact b note right

theorem silent_accepted (ans : Bool) : Silent [.accepted ans] := by
  intro note mem
  rw [mem_singleton] at mem
  rw [mem]
  exact ⟨fun _ _ => Note.noConfusion,fun _ _ => Note.noConfusion⟩

theorem silent_outcome (out : QueueOutcome) : Silent [.outcome out] := by
  intro note mem
  rw [mem_singleton] at mem
  rw [mem]
  exact ⟨fun _ _ => Note.noConfusion,fun _ _ => Note.noConfusion⟩

theorem silent_deliveries (reg : Registry) (event : AgentEvent) : Silent (deliveries reg event) := by
  intro note mem
  obtain ⟨receiver,received,rfl,_⟩ := @mem_deliveries [] _ _ _ mem
  exact ⟨fun _ _ => Note.noConfusion,fun _ _ => Note.noConfusion⟩

theorem silent_emit (payload : Payload) (reg : Registry) : Silent (emit none payload reg).2 := by
  intro note mem
  rcases mem_cons.mp mem with rfl | delivered
  · refine ⟨fun _ _ => Note.noConfusion,?_⟩
    intro number event same
    cases (Note.emitted.inj same).1
  · exact silent_deliveries _ _ note delivered

theorem silent_announce (snapshot : Snapshot) (reg : Registry) :
    Silent (((emit none (.session snapshot)).andThen (Effect.note (.accepted true))) reg).2 :=
  (silent_emit _ _).append (silent_accepted true)

theorem silent_connect (sessionId : Option Text) (send : ℕ) : Silent (connect sessionId send reg).2 := by
  cases sessionId with
  | none => exact silent_accepted true
  | some sessionId =>
    rw [connect]
    split <;> exact silent_accepted true

theorem silent_disconnect (sessionId : Option Text) (send : ℕ) : Silent (disconnect sessionId send reg).2 := by
  cases sessionId with
  | none => exact Silent.nil
  | some sessionId =>
    rw [disconnect]
    split
    next => exact Silent.nil
    next =>
      simp only
      split <;> exact Silent.nil

theorem silent_queueAction (action emitAction : Action) (runtimeOwned : Bool) :
    Silent (queueAction lim action emitAction runtimeOwned reg).2 := by
  rw [queueAction]
  split
  next => exact silent_outcome _
  next =>
    split
    next => exact silent_outcome _
    next =>
      have admitted : Silent [.admitted reg.armed action] := by
        intro note mem
        rw [mem_singleton] at mem
        rw [mem]
        exact ⟨fun _ _ => Note.noConfusion,fun _ _ => Note.noConfusion⟩
      exact (admitted.append (silent_emit _ _)).append (silent_outcome _)

def Event.mayEnd : Event → Bool
  | .takePendingAction _ _ _ | .timer _ | .cancelPendingByAuthorityRun _ | .reset => true
  | _ => false

theorem silent_effect (other : event.mayEnd = false) : Silent (effect lim tests event reg).2 := by
  cases event with
  | connect sessionId send => exact silent_connect _ _
  | connectAuthenticated sessionId digest send =>
    rw [effect,connectAuthenticated]
    split
    next => exact silent_accepted false
    next =>
      split
      next => exact silent_connect _ _
      next => exact silent_accepted false
  | disconnect sessionId send => exact silent_disconnect _ _
  | registerSnapshot snapshot digest =>
    rw [effect,registerSnapshot]
    split
    next => exact silent_accepted false
    next => exact silent_announce _ _
  | refreshSnapshot snapshot digest =>
    rw [effect,refreshSnapshot]
    split
    next => exact silent_accepted false
    next =>
      split
      next => exact silent_announce _ _
      next => exact silent_accepted false
  | rotateSnapshotCapability snapshot digest =>
    rw [effect,rotateSnapshotCapability]
    split
    next => exact silent_accepted false
    next => exact silent_announce _ _
  | registerBufferSnapshot snapshot digest =>
    rw [effect,registerBufferSnapshot]
    split
    next => exact silent_accepted false
    next =>
      simp only
      generalize (if lim.maxSessions ≤ reg.sessions.size then
        evictOldestIdleSession reg snapshot.sessionId else reg) = evicted
      split <;> exact silent_accepted _
  | refreshBufferSnapshot snapshot digest =>
    rw [effect,refreshBufferSnapshot]
    split <;> exact silent_accepted _
  | releaseBufferSnapshot sessionId digest =>
    rw [effect,releaseBufferSnapshot]
    split <;> exact silent_accepted _
  | queueAction action emitAction runtimeOwned => exact silent_queueAction _ _ _
  | reportResult res => exact silent_emit _ _
  | takePendingAction sessionId actionId digest => cases other
  | timer handle => cases other
  | cancelPendingByAuthorityRun runId => cases other
  | reset => cases other

def Balanced (notes : List Note) : Prop :=
  ∀ number, notes.countP (Note.isReport number) = notes.countP (Note.isLapse number)

theorem Balanced.append (a : Balanced notes) (b : Balanced more) : Balanced (notes ++ more) := by
  intro number
  rw [countP_append,countP_append,a number,b number]

theorem Silent.balanced (silent : Silent notes) : Balanced notes := by
  intro number
  rw [countP_eq_zero.mpr,countP_eq_zero.mpr]
  · intro note mem lapse
    cases note with
    | left other cause => exact (silent _ mem).1 other cause rfl
    | _ => cases lapse
  · intro note mem report
    cases note with
    | emitted about event =>
      cases about with
      | none => cases report
      | some other => exact (silent _ mem).2 other event rfl
    | _ => cases report

theorem balanced_left (reported : cause.isReported = false) : Balanced [.left number cause] := by
  intro other
  rw [countP_singleton,countP_singleton,Note.isLapse,reported,Bool.and_false]
  rfl

theorem balanced_report (reported : cause.isReported = true) (event : AgentEvent) (silent : Silent more) :
    Balanced (.left number cause :: .emitted (some number) event :: more) := by
  intro other
  simp only [countP_cons,Note.isReport,Note.isLapse,reported,Bool.and_true]
  rw [silent.balanced other]
  exact Nat.add_right_comm _ _ _

theorem balanced_release (reported : cause.isReported = true) (sessionId actionId : Text)
    (entry : PendingAction) (payload : Payload) :
    Balanced (((release cause sessionId actionId entry).andThen (emit (some entry.timer) payload)) reg).2 :=
  balanced_report reported _ (silent_deliveries _ _)

theorem silent_claimed (action : Option Action) : Silent [.claimed action] := by
  intro note mem
  rw [mem_singleton] at mem
  rw [mem]
  exact ⟨fun _ _ => Note.noConfusion,fun _ _ => Note.noConfusion⟩

theorem balanced_takePendingAction (sessionId actionId digest : Text) :
    Balanced (takePendingAction sessionId actionId digest reg).2 := by
  rw [takePendingAction]
  split
  next =>
    split
    next => exact (silent_claimed none).balanced
    next entry hit => exact (balanced_left rfl).append (silent_claimed _).balanced
  next => exact (silent_claimed none).balanced

theorem balanced_timer (handle : ℕ) : Balanced (timer handle reg).2 := by
  rw [timer]
  split
  next => exact Silent.nil.balanced
  next armed hit =>
    rw [Effect.andThen,onTimeout]
    split
    next => exact Silent.nil.balanced
    next entry stands => exact balanced_report rfl _ (silent_deliveries _ _)

theorem balanced_cancelPendingByAuthorityRun (runId : Text) : Balanced (cancelPendingByAuthorityRun runId reg).2 := by
  have each (item : (Text × Text) × PendingAction) :
      Effect.Keeps (fun _ notes => Balanced notes) (cancelEntry runId item) := by
    intro s notes balanced
    apply balanced.append
    rw [cancelEntry]
    split
    next => exact balanced_release rfl _ _ _ _
    next => exact Silent.nil.balanced
  have loop := Effect.Keeps.forEach each (NestedMap.items reg.pending) reg [] Silent.nil.balanced
  have counted : Silent [.cancelled ((NestedMap.items reg.pending).countP fun item =>
      isRuntimeActionForRun item.2 runId)] := by
    intro note mem
    rw [mem_singleton] at mem
    rw [mem]
    exact ⟨fun _ _ => Note.noConfusion,fun _ _ => Note.noConfusion⟩
  exact loop.append counted.balanced

theorem balanced_reset : Balanced (reset reg).2 := by
  have each (item : (Text × Text) × PendingAction) :
      Effect.Keeps (fun _ notes => Balanced notes) (release .reset item.1.1 item.1.2 item.2) := by
    intro s notes balanced
    exact balanced.append (balanced_left rfl)
  have loop := Effect.Keeps.forEach each (NestedMap.items reg.pending) reg [] Silent.nil.balanced
  exact loop.append Silent.nil.balanced

theorem balanced_run (lim : Limits) (tests : SnapshotTests) (evs : List Event) :
    Balanced ((machine lim tests).noted evs) := by
  apply Machine.holds_of_step (fun _ notes => Balanced notes)
  · exact Silent.nil.balanced
  · intro reg notes event balanced
    apply balanced.append
    change Balanced (effect lim tests event reg).2
    cases ends : event.mayEnd with
    | false => exact (silent_effect ends).balanced
    | true =>
      cases event with
      | takePendingAction sessionId actionId digest => exact balanced_takePendingAction _ _ _
      | timer handle => exact balanced_timer handle
      | cancelPendingByAuthorityRun runId => exact balanced_cancelPendingByAuthorityRun runId
      | reset => exact balanced_reset
      | _ => cases ends

def Caused (reg : Registry) (number : ℕ) : Cause → Event → Prop
  | .taken, .takePendingAction sessionId actionId digest =>
    reg.hasValidBridgeLease sessionId digest = true ∧ ∃ entry,
      NestedMap.find? reg.pending sessionId actionId = some entry ∧ entry.timer = number
  | .timedOut, .timer handle => handle = number
  | .cancelled, .cancelPendingByAuthorityRun runId => ∃ sessionId actionId entry,
      NestedMap.find? reg.pending sessionId actionId = some entry ∧
      isRuntimeActionForRun entry runId = true ∧ entry.timer = number
  | .reset, .reset => True
  | _, _ => False

theorem left_of_report {about : ℕ} {payload : Payload} {sessionId actionId : Text}
    {entry : PendingAction} {ended : Cause}
    (mem : .left number cause ∈ (((release ended sessionId actionId entry).andThen
      (emit (some about) payload)) reg).2) : number = entry.timer ∧ cause = ended := by
  rcases mem_cons.mp mem with same | reported
  · exact ⟨(Note.left.inj same).1,(Note.left.inj same).2⟩
  · rcases mem_cons.mp reported with same | delivered
    · cases same
    · exact absurd rfl ((silent_deliveries _ _ _ delivered).1 number cause)

theorem Kept.caused (kept : Kept lim reg notes)
    (mem : .left number cause ∈ (EditorAgent.effect lim tests event reg).2) :
    Caused reg number cause event := by
  cases ends : event.mayEnd with
  | false => exact absurd rfl ((silent_effect ends _ mem).1 number cause)
  | true =>
    cases event with
    | takePendingAction sessionId actionId digest =>
      rw [EditorAgent.effect,EditorAgent.takePendingAction] at mem
      split at mem
      next lease =>
        split at mem
        next => exact absurd rfl ((silent_claimed none _ mem).1 number cause)
        next entry hit =>
          rcases mem_cons.mp mem with same | claimed
          · cases same
            exact ⟨lease,entry,hit,rfl⟩
          · exact absurd rfl ((silent_claimed _ _ claimed).1 number cause)
      next => exact absurd rfl ((silent_claimed none _ mem).1 number cause)
    | timer handle =>
      rw [EditorAgent.effect] at mem
      cases here : reg.timers.get? handle with
      | none =>
        rw [EditorAgent.timer,here] at mem
        cases mem
      | some armed =>
        obtain ⟨entry,_,same,_,fires⟩ := kept.timer_eq here
        rw [fires] at mem
        obtain ⟨rfl,rfl⟩ := left_of_report mem
        exact same.symm
    | cancelPendingByAuthorityRun runId =>
      rw [EditorAgent.effect,EditorAgent.cancelPendingByAuthorityRun] at mem
      rcases mem_append.mp mem with loop | counted
      · obtain ⟨item,inside,reached,noted⟩ := Effect.mem_forEach loop
        rw [EditorAgent.cancelEntry] at noted
        split at noted
        next wanted =>
          obtain ⟨rfl,rfl⟩ := left_of_report noted
          exact ⟨item.1.1,item.1.2,item.2,NestedMap.mem_items.mp inside,wanted,rfl⟩
        next => cases noted
      · rw [Effect.note,mem_singleton] at counted
        cases counted
    | reset =>
      rw [EditorAgent.effect,EditorAgent.reset] at mem
      rcases mem_append.mp mem with loop | nothing
      · obtain ⟨item,inside,reached,noted⟩ := Effect.mem_forEach loop
        rcases mem_cons.mp noted with same | nothing
        · cases same
          trivial
        · cases nothing
      · cases nothing
    | _ => cases ends

end Ends

section Run

variable {limits : Limits} {reg : Registry} {notes : List Note} {number : ℕ}

def Registry.isPending (reg : Registry) (number : ℕ) : Bool :=
  (NestedMap.items reg.pending).any fun item => decide (item.2.timer = number)

theorem Kept.isPending (kept : Kept limits reg notes) (number : ℕ) : reg.isPending number = reg.timers.has number := by
  rw [Bool.eq_iff_iff,Registry.isPending,any_eq_true,has_iff]
  constructor
  · intro ⟨item,mem,same⟩
    obtain ⟨_,_,_,running,_⟩ := kept.slots _ _ _ (NestedMap.mem_items.mp mem)
    obtain ⟨timer,here,_⟩ := Option.map_eq_some_iff.mp running
    rw [of_decide_eq_true same] at here
    exact ⟨timer,here⟩
  · intro ⟨timer,here⟩
    obtain ⟨_,entry,hit,same⟩ := kept.armed _ _ here
    exact ⟨_,NestedMap.mem_items.mpr hit,decide_eq_true same⟩

theorem eq_of_countP_le_one {α : Type*} {p : α → Bool} {items : List α}
    (few : items.countP p ≤ 1) {first b : α} (here : first ∈ items) (there : b ∈ items)
    (one : p first = true) (two : p b = true) : first = b := by
  rw [countP_eq_length_filter] at few
  have in_first : first ∈ items.filter p := mem_filter.mpr ⟨here,one⟩
  have in_second : b ∈ items.filter p := mem_filter.mpr ⟨there,two⟩
  match kept : items.filter p with
  | [] =>
    rw [kept] at in_first
    cases in_first
  | [only] =>
    rw [kept,mem_singleton] at in_first in_second
    exact in_first.trans in_second.symm
  | _ :: _ :: rest =>
    rw [kept] at few
    simp at few

theorem Kept.one_end (kept : Kept limits reg notes) (number : ℕ) : notes.countP (Note.isLeaving number) ≤ 1 := by
  have admitted := kept.admissions number
  have left := kept.leavings number
  split at admitted <;> omega

theorem Kept.same_end (kept : Kept limits reg notes) {a b : Cause}
    (one : .left number a ∈ notes) (two : .left number b ∈ notes) : a = b := by
  have same := eq_of_countP_le_one (kept.one_end number) one two (decide_eq_true rfl) (decide_eq_true rfl)
  exact (Note.left.inj same).2

theorem Kept.timer_ends (kept : Kept limits reg notes) {sessionId actionId : Text} {entry : PendingAction}
    (hit : NestedMap.find? reg.pending sessionId actionId = some entry) :
    NestedMap.find? (EditorAgent.timer entry.timer reg).1.pending sessionId actionId = none := by
  obtain ⟨own,name,_,running,_⟩ := kept.slots _ _ _ hit
  obtain ⟨armed,here,same⟩ := Option.map_eq_some_iff.mp running
  obtain ⟨other,_,_,_,fires⟩ := kept.timer_eq here
  rw [fires]
  change NestedMap.find? (NestedMap.remove reg.pending armed.action.sessionId
    armed.action.actionId) sessionId actionId = none
  rw [NestedMap.find?_remove,same,own,name,if_pos ⟨rfl,rfl⟩]

/-- The queue of actions in any run: the bounds of each session and of the process, one mutation at
a time, one end for every admission, one report for every end without a browser, and events that stay
on the bridges of their own session. -/
theorem machine_actionQueue (limits : Limits) (tests : SnapshotTests) (events : List Event) :
    let registry := (machine limits tests).run events
    let notes := (machine limits tests).noted events
    (∀ sessionId, registry.pendingCount sessionId ≤ limits.maxQueuedPerSession ∧
      registry.sessionQueuedBytes sessionId ≤ limits.maxQueuedBytesPerSession) ∧
    registry.processQueuedBytes ≤ limits.maxQueuedBytesTotal ∧
    (∀ sessionId first second entry other,
      NestedMap.find? registry.pending sessionId first = some entry →
      NestedMap.find? registry.pending sessionId second = some other →
      isMutatingEditorAgentAction entry.action.type = true →
      isMutatingEditorAgentAction other.action.type = true → first = second) ∧
    (∀ sessionId actionId entry,
      NestedMap.find? registry.pending sessionId actionId = some entry →
      entry.action.sessionId = sessionId ∧ entry.action.actionId = actionId ∧
        entry.bytes = serializedActionBytes entry.action ∧
        .admitted entry.timer entry.action ∈ notes ∧
        NestedMap.find? ((machine limits tests).step registry (.timer entry.timer)).pending
          sessionId actionId = none) ∧
    (∀ number, notes.countP (Note.isAdmission number) ≤ 1 ∧
      notes.countP (Note.isLeaving number) + (if registry.isPending number then 1 else 0) =
        notes.countP (Note.isAdmission number)) ∧
    (∀ number first second, .left number first ∈ notes → .left number second ∈ notes →
      first = second) ∧
    (∀ number, notes.countP (Note.isReport number) = notes.countP (Note.isLapse number)) ∧
    (∀ number event, .emitted (some number) event ∈ notes → ∃ action result,
      .admitted number action ∈ notes ∧ event.payload = .result result ∧
        result.actionId = action.actionId ∧ result.sessionId = action.sessionId) ∧
    (∀ event number cause, .left number cause ∈ (machine limits tests).notes registry event →
      Caused registry number cause event) ∧
    (∀ sessionId send event, .delivered (.bridge sessionId send) event ∈ notes →
      eventSessionId event = none ∨ eventSessionId event = some sessionId) ∧
    (∀ send event, .delivered (.observer send) event ∈ notes →
      ∃ original, observerEvent original = some event) := by
  intro registry notes
  have kept : Kept limits registry notes := kept_run limits tests events
  refine ⟨fun sessionId => ⟨kept.count sessionId,kept.bytes sessionId⟩,kept.total,kept.single,
    ?_,?_,?_,balanced_run limits tests events,?_,?_,?_,?_⟩
  · intro sessionId actionId entry found
    obtain ⟨own,name,size,_,noted⟩ := kept.slots _ _ _ found
    exact ⟨own,name,size,noted,kept.timer_ends found⟩
  · intro number
    rw [kept.isPending]
    refine ⟨?_,kept.leavings number⟩
    rw [kept.admissions]
    split <;> omega
  · intro number first second one two
    exact kept.same_end one two
  · intro number event emitted
    exact kept.said _ emitted
  · intro event number cause left
    exact kept.caused left
  · intro sessionId send event delivered
    exact kept.said _ delivered
  · intro send event delivered
    exact kept.said _ delivered

end Run

end Keiko.EditorAgent
