import Keiko.EventHubRetention
import Keiko.Library.Except

/-! Delivery to a subscriber. What the hub did is read note by note as what one subscriber was
given and what it was due; both agree in every run, because a subscriber that is in the set of its
run is written to by every publish that is accepted, and one that is not in it never is. -/
namespace Keiko.EventHub
open Keiko.Library Keiko.Runtime List Option Bool

section Observer

/-- What a subscriber was replayed and given live, and the events that were accepted for its run
while it was attached. -/
structure Delivery where
  run : Option Text
  attached : Bool
  replayed : List CodingWorkbenchRuntimeSseEvent
  live : List CodingWorkbenchRuntimeSseEvent
  due : List CodingWorkbenchRuntimeSseEvent

def Delivery.none : Delivery := ⟨.none,false,[],[],[]⟩

def observe (subscriber : Nat) (seen : Delivery) : Note → Delivery
  | .accepted event =>
    if seen.attached ∧ seen.run = some event.runId then { seen with due := seen.due ++ [event] }
    else seen
  | .written to_subscriber event =>
    if to_subscriber ≠ subscriber then seen
    else if seen.run.isSome then { seen with live := seen.live ++ [event] }
    else { seen with replayed := seen.replayed ++ [event] }
  | .attached other runId =>
    if other = subscriber then { seen with run := some runId, attached := true } else seen
  | .left other => if other = subscriber then { seen with attached := false } else seen
  | .deleted _ => seen

def observed (subscriber : Nat) (notes : List Note) : Delivery :=
  notes.foldl (observe subscriber) Delivery.none

def newestOf (runId : Text) (notes : List Note) : Option CodingWorkbenchRuntimeSseEvent :=
  notes.foldl (fun newest note =>
    match note with
    | .accepted event => if event.runId = runId then some event else newest
    | .deleted other => if other = runId then none else newest
    | _ => newest) none

end Observer

section Notes

variable {sub : Nat} {seen : Delivery}

def Unrelated (sub : Nat) (note : Note) : Prop :=
  match note with
  | .accepted _ => False
  | .written other _ => other ≠ sub
  | .attached other _ => other ≠ sub
  | .left other => other ≠ sub
  | .deleted _ => True

theorem observe_unrelated {notes : List Note} (unrelated : ∀ note ∈ notes, Unrelated sub note) :
    notes.foldl (observe sub) seen = seen := by
  induction notes generalizing seen with
  | nil => rfl
  | cons note notes ih =>
    have first := unrelated note mem_cons_self
    have same : observe sub seen note = seen := by
      cases note with
      | accepted => cases first
      | written other ev => exact if_pos first
      | attached other runId => exact if_neg first
      | left other => exact if_neg first
      | deleted => rfl
    rw [foldl_cons,same]
    exact ih fun post mem => unrelated post (mem_cons_of_mem _ mem)

theorem observe_fanOut {takes : Nat → Bool} {ev : CodingWorkbenchRuntimeSseEvent}
    {subscribers : List Nat} (nodup : subscribers.Nodup) :
    (fanOut takes ev subscribers).2.foldl (observe sub) seen = if sub ∈ subscribers then
        let seen := observe sub seen (.written sub ev)
        { seen with attached := seen.attached && takes sub }
      else seen := by
  induction subscribers generalizing seen with
  | nil => rfl
  | cons a subscribers ih =>
    obtain ⟨fresh,nodup⟩ := nodup_cons.mp nodup
    have split : (fanOut takes ev (a :: subscribers)).2 =
        (.written a ev :: if takes a then [] else [.left a]) ++ (fanOut takes ev subscribers).2 := rfl
    rw [split,foldl_append,ih nodup]
    by_cases own : a = sub
    · subst own
      rw [if_neg fresh,if_pos mem_cons_self]
      cases taken : takes a with
      | true => simp
      | false => simp [observe]
    · have others : ∀ note ∈ (Note.written a ev :: if takes a then [] else [.left a]),
          Unrelated sub note := by
        intro note mem
        rcases mem_cons.mp mem with rfl | post
        · exact own
        · split at post
          · cases post
          · rw [mem_singleton.mp post]
            exact own
      rw [observe_unrelated others]
      have same : sub ∈ a :: subscribers ↔ sub ∈ subscribers := by
        simp [Ne.symm own]
      simp only [same]

theorem observe_closed {subscribers : List Nat} : (subscribers.map Note.left).foldl (observe sub) seen =
      if sub ∈ subscribers then { seen with attached := false } else seen := by
  induction subscribers generalizing seen with
  | nil => rfl
  | cons a subscribers ih =>
    rw [map_cons,foldl_cons,ih]
    by_cases own : a = sub
    · subst own
      simp [observe]
    · have same : sub ∈ a :: subscribers ↔ sub ∈ subscribers := by
        simp [Ne.symm own]
      simp only [same,observe,own,if_false]

theorem observe_writeReplay {takes : CodingWorkbenchRuntimeSseEvent → Bool}
    (evs : List CodingWorkbenchRuntimeSseEvent) (unattached : seen.run = none)
    (gone : seen.attached = false) :
    ∃ front rest, evs = front ++ rest ∧ (writeReplay sub takes evs).2.foldl (observe sub) seen =
        { seen with replayed := seen.replayed ++ front } ∧
      ((writeReplay sub takes evs).1 = true → rest = []) := by
  induction evs generalizing seen with
  | nil => exact ⟨[],[],rfl,by simp [writeReplay],fun _ => rfl⟩
  | cons ev evs ih =>
    have a : observe sub seen (.written sub ev) =
        { seen with replayed := seen.replayed ++ [ev] } := by
      simp [observe,unattached]
    rw [writeReplay]
    cases taken : takes ev with
    | false =>
      refine ⟨[ev],evs,rfl,?_,fun same => by cases same⟩
      simp only [false_eq_true,if_false,foldl_cons,a,foldl_nil]
      simp [observe,gone]
    | true =>
      have unattached' : ({ seen with replayed := seen.replayed ++ [ev] } : Delivery).run = none :=
        unattached
      obtain ⟨front,rest,same,given,whole⟩ := ih unattached' gone
      refine ⟨ev :: front,rest,by rw [same]; rfl,?_,whole⟩
      simp only [if_true,foldl_cons,a]
      rw [given]
      simp

end Notes

section Follows

/-- A subscriber has what it was due, in order, and is in the set of its run while it is attached. -/
structure Follows (hub : Hub) (sub : Nat) (seen : Delivery) : Prop where
  fresh : hub.subscribed ≤ sub → seen = Delivery.none
  in_set : ∀ runId, sub ∈ (hub.buffer runId).subscribers ↔ seen.attached = true ∧ seen.run = some runId
  delivered : seen.live = seen.due
  ordered : ((seen.replayed ++ seen.live).map (·.sequence)).Pairwise (· < ·)
  own : ∀ runId, seen.run = some runId → ∀ event ∈ seen.replayed ++ seen.live, event.runId = runId
  below : ∀ runId, seen.attached = true → seen.run = some runId →
    ∀ event ∈ seen.replayed ++ seen.live, event.sequence < (hub.buffer runId).nextSequence
  closed : seen.attached = true → ∀ event ∈ seen.live, isTerminal event = false
  last : ∀ event ∈ seen.live.dropLast, isTerminal event = false

variable {lim : EventHubLimits} {hub hub' : Hub} {sub : Nat} {seen : Delivery}

theorem Follows.keep (follows : Follows hub sub seen) (counted : hub.subscribed ≤ hub'.subscribed)
    (sets : ∀ runId, sub ∈ (hub'.buffer runId).subscribers ↔ sub ∈ (hub.buffer runId).subscribers)
    (grows : ∀ runId, sub ∈ (hub.buffer runId).subscribers →
      (hub.buffer runId).nextSequence ≤ (hub'.buffer runId).nextSequence) :
    Follows hub' sub seen := by
  refine { follows with
    fresh := fun fresh => follows.fresh (counted.trans fresh), in_set := ?_, below := ?_ }
  · intro runId
    rw [sets]
    exact follows.in_set runId
  · intro runId attached run ev mem
    have inside := (follows.in_set runId).mpr ⟨attached,run⟩
    exact (follows.below runId attached run ev mem).trans_le (grows runId inside)

theorem Follows.leave (follows : Follows hub sub seen) (counted : hub'.subscribed = hub.subscribed)
    (gone : ∀ runId, sub ∉ (hub'.buffer runId).subscribers) :
    Follows hub' sub { seen with attached := false } := by
  refine { follows with fresh := ?_, in_set := ?_, below := ?_, closed := ?_ }
  · intro fresh
    rw [follows.fresh (counted ▸ fresh)]
    rfl
  · intro runId
    simp [gone runId]
  · intro _ attached
    cases attached
  · intro attached
    cases attached

theorem Follows.give {runId : Text} {ev : CodingWorkbenchRuntimeSseEvent} {stays : Bool}
    (follows : Follows hub sub seen) (inside : sub ∈ (hub.buffer runId).subscribers)
    (named : ev.runId = runId) (next : ev.sequence = (hub.buffer runId).nextSequence)
    (counted : hub'.subscribed = hub.subscribed)
    (taken : stays = true → isTerminal ev = false)
    (grows : (hub'.buffer runId).nextSequence = (hub.buffer runId).nextSequence + 1)
    (set : sub ∈ (hub'.buffer runId).subscribers ↔ stays = true)
    (others : ∀ other, other ≠ runId → (hub'.buffer other).subscribers = (hub.buffer other).subscribers) :
    Follows hub' sub { seen with
      attached := stays
      live := seen.live ++ [ev]
      due := seen.due ++ [ev] } := by
  obtain ⟨attached,run⟩ := (follows.in_set runId).mp inside
  have below := follows.below runId attached run
  refine ⟨?_,?_,?_,?_,?_,?_,?_,?_⟩
  · intro fresh
    rw [follows.fresh (counted ▸ fresh)] at attached
    cases attached
  · intro other
    by_cases own : other = runId
    · subst own
      rw [set]
      simp [run]
    · rw [others other own,follows.in_set other,run]
      simp [Ne.symm own]
  · simp only [follows.delivered]
  · simp only
    rw [← append_assoc,map_append,pairwise_append]
    refine ⟨follows.ordered,by simp,?_⟩
    intro a inFront last single
    obtain ⟨early,mem,rfl⟩ := mem_map.mp inFront
    obtain rfl : last = ev.sequence := by simpa using single
    rw [next]
    exact below early mem
  · intro other same post mem
    rw [run,some_inj] at same
    subst same
    simp only [← append_assoc] at mem
    rcases mem_append.mp mem with front | single
    · exact follows.own runId run post front
    · rw [mem_singleton.mp single,named]
  · intro other _ same post mem
    rw [run,some_inj] at same
    subst same
    simp only [← append_assoc] at mem
    rw [grows]
    rcases mem_append.mp mem with front | single
    · exact Nat.lt_succ_of_lt (below post front)
    · rw [mem_singleton.mp single,next]
      exact Nat.lt_succ_self _
  · intro still post mem
    rcases mem_append.mp mem with front | single
    · exact follows.closed attached post front
    · rw [mem_singleton.mp single]
      exact taken still
  · intro post mem
    rw [dropLast_concat] at mem
    exact follows.closed attached post mem

theorem Follows.attach {runId : Text} {replayed : List CodingWorkbenchRuntimeSseEvent}
    {attached : Bool} {run : Option Text} (used : sub < hub'.subscribed)
    (ordered : (replayed.map (·.sequence)).Pairwise (· < ·))
    (own : ∀ ev ∈ replayed, ev.runId = runId)
    (below : ∀ ev ∈ replayed, ev.sequence < (hub'.buffer runId).nextSequence)
    (named : ∀ other, run = some other → other = runId)
    (set : ∀ other, sub ∈ (hub'.buffer other).subscribers ↔ attached = true ∧ run = some other) :
    Follows hub' sub ⟨run,attached,replayed,[],[]⟩ := by
  refine ⟨?_,set,rfl,?_,?_,?_,?_,?_⟩
  · intro fresh
    exact absurd used (Nat.not_lt.mpr fresh)
  · rw [append_nil]
    exact ordered
  · intro other same ev mem
    rw [named other same]
    exact own ev (by simpa using mem)
  · intro other _ same ev mem
    rw [named other same]
    exact below ev (by simpa using mem)
  · intro _ ev mem
    cases mem
  · intro ev mem
    cases mem

end Follows

section Calls

variable {limits : EventHubLimits} {hub : Hub} {notes : List Note}

theorem publish_cases (limits : EventHubLimits) (hub : Hub) (call : Publish) :
    (∃ hub' refusal, publish limits hub call = (hub',.error refusal,[]) ∧
        hub'.subscribed = hub.subscribed ∧ ∀ runId, Shrinks (hub.buffer runId) (hub'.buffer runId)) ∨
      ∃ kept, Shrinks (hub.buffer call.input.runId) kept ∧ overfull limits kept (retain (eventOf hub call)) = false ∧
        publish limits hub call = (hub.set call.input.runId { accept kept (retain (eventOf hub call)) with
              subscribers := if isTerminal (eventOf hub call) then [] else kept.subscribers.filter call.takes },
          .ok (eventOf hub call),
          .accepted (eventOf hub call) :: (fanOut call.takes (eventOf hub call) kept.subscribers).2 ++
              if isTerminal (eventOf hub call) then (kept.subscribers.filter call.takes).map .left
              else []) := by
  rw [publish]
  split
  · exact .inl ⟨hub,_,rfl,rfl,fun _ => Shrinks.refl _⟩
  · rw [publishRun]
    obtain ⟨run',refusal,same,shrinks⟩ | ⟨kept,ev,named,same,shrinks,room,_,_⟩ :=
      publishTo_cases limits (hub.buffer call.input.runId) call.input call.occurredAt
    · rw [same]
      refine .inl ⟨hub.set call.input.runId run',refusal,rfl,rfl,?_⟩
      intro runId
      rw [buffer_set]
      split
      next own => exact own ▸ shrinks
      next => exact Shrinks.refl _
    · obtain rfl : ev = eventOf hub call := named
      rw [same]
      refine .inr ⟨kept,shrinks,room,?_⟩
      cases terminal : isTerminal (eventOf hub call) with
      | true =>
        simp only [fanOut,accept,closeSubscribers,retain_event,terminal,if_true]
      | false =>
        simp only [fanOut,accept,retain_event,terminal,false_eq_true,if_false,append_nil]

theorem newestOf_append (runId : Text) (first b : List Note)
    (plain : ∀ note ∈ b, (∀ ev, note ≠ .accepted ev) ∧ note ≠ .deleted runId) :
    newestOf runId (first ++ b) = newestOf runId first := by
  rw [newestOf,foldl_append]
  change b.foldl _ (newestOf runId first) = newestOf runId first
  generalize newestOf runId first = newest
  induction b with
  | nil => rfl
  | cons note b ih =>
    rw [foldl_cons]
    obtain ⟨notAccepted,notDeleted⟩ := plain note mem_cons_self
    have rest := ih fun post mem => plain post (mem_cons_of_mem _ mem)
    cases note with
    | accepted ev => exact absurd rfl (notAccepted ev)
    | written => exact rest
    | attached => exact rest
    | left => exact rest
    | deleted other =>
      have other_run : other ≠ runId := fun same => notDeleted (by rw [same])
      simpa only [other_run,if_false] using rest

theorem fanOut_plain (runId : Text) (takes : Nat → Bool) (ev : CodingWorkbenchRuntimeSseEvent)
    (subscribers : List Nat) : ∀ note ∈ (fanOut takes ev subscribers).2,
      (∀ ev, note ≠ .accepted ev) ∧ note ≠ .deleted runId := by
  intro note mem
  obtain ⟨subscriber,_,inNotes⟩ := mem_flatMap.mp mem
  split at inNotes
  · rw [mem_singleton.mp inNotes]
    simp
  · rcases mem_cons.mp inNotes with rfl | post
    · simp
    · rw [mem_singleton.mp post]
      simp

theorem writeReplay_plain (runId : Text) (subscriber : Nat)
    (takes : CodingWorkbenchRuntimeSseEvent → Bool) (evs : List CodingWorkbenchRuntimeSseEvent) :
    ∀ note ∈ (writeReplay subscriber takes evs).2, (∀ ev, note ≠ .accepted ev) ∧ note ≠ .deleted runId := by
  induction evs with
  | nil => simp [writeReplay]
  | cons ev evs ih =>
    intro note mem
    rw [writeReplay] at mem
    split at mem
    · rcases mem_cons.mp mem with rfl | post
      · simp
      · exact ih note post
    · obtain rfl | rfl := (by simpa using mem : note = _ ∨ note = _) <;> simp

theorem replay_sublist {runId lastEventId : Text} {evs : List CodingWorkbenchRuntimeSseEvent}
    (answered : replay hub runId lastEventId = .ok evs) :
    evs.Sublist (hub.buffer runId).history := by
  rw [replay] at answered
  split at answered
  · cases answered
    rw [Hub.buffer]
    cases hub.runs runId <;> exact List.Sublist.refl _
  · obtain ⟨⟨seq,run⟩,valid,answered⟩ := bind_eq_ok.mp answered
    have own : hub.runs runId = some run := by
      rw [validateReplayCursor] at valid
      split at valid
      · cases valid
      · split at valid
        · cases valid
        · split at valid
          · cases valid
          next hit =>
            split at valid
            · cases valid
            · cases valid
              exact hit
    simp only at answered
    split at answered
    · cases answered
    · cases answered
      rw [Hub.buffer,own]
      exact filter_sublist

structure Delivers (limits : EventHubLimits) (hub : Hub) (notes : List Note) : Prop where
  sound : ∀ runId, Sound limits runId (hub.buffer runId)
  distinct : ∀ runId, (hub.buffer runId).subscribers.Nodup
  newest : ∀ runId, (hub.buffer runId).terminal = (newestOf runId notes).any isTerminal
  follows : ∀ subscriber, Follows hub subscriber (observed subscriber notes)

theorem observed_append (subscriber : Nat) (a b : List Note) : observed subscriber (a ++ b) =
      b.foldl (observe subscriber) (observed subscriber a) := foldl_append

theorem Delivers.publish (delivers : Delivers limits hub notes) (call : Publish) :
    Delivers limits (publish limits hub call).1 (notes ++ (EventHub.publish limits hub call).2.2) := by
  obtain ⟨hub',refusal,same,counted,shrinks⟩ | ⟨kept,shrinks,room,same⟩ :=
    publish_cases limits hub call
  · rw [same,append_nil]
    refine ⟨fun runId => (delivers.sound runId).shrink (shrinks runId),?_,?_,?_⟩
    · intro runId
      rw [(shrinks runId).subscribers]
      exact delivers.distinct runId
    · intro runId
      rw [(shrinks runId).terminal]
      exact delivers.newest runId
    · intro subscriber
      refine (delivers.follows subscriber).keep counted.ge ?_ fun runId _ =>
        (shrinks runId).nextSequence.ge
      intro runId
      rw [(shrinks runId).subscribers]
  · rw [same]
    have sets := shrinks.subscribers
    have named : (eventOf hub call).runId = call.input.runId := rfl
    have next : (eventOf hub call).sequence = (hub.buffer call.input.runId).nextSequence := rfl
    have nodup : kept.subscribers.Nodup := sets ▸ delivers.distinct call.input.runId
    generalize eventOf hub call = ev at same room named next ⊢
    refine ⟨?_,?_,?_,?_⟩
    · intro runId
      rw [buffer_set]
      split
      next own =>
        subst own
        exact (((delivers.sound _).shrink shrinks).accept named (next.trans shrinks.nextSequence.symm) room).attach _
      next => exact delivers.sound runId
    · intro runId
      rw [buffer_set]
      split
      · change (if isTerminal ev = true then [] else kept.subscribers.filter call.takes).Nodup
        split
        · exact nodup_nil
        · exact nodup.filter _
      · exact delivers.distinct runId
    · intro runId
      have closing : ∀ note ∈ (fanOut call.takes ev kept.subscribers).2 ++
          (if isTerminal ev = true then (kept.subscribers.filter call.takes).map .left else []),
          (∀ ev, note ≠ .accepted ev) ∧ note ≠ .deleted runId := by
        intro note mem
        rcases mem_append.mp mem with fanned | closed
        · exact fanOut_plain runId _ _ _ note fanned
        · split at closed
          · obtain ⟨left,_,rfl⟩ := mem_map.mp closed
            simp
          · cases closed
      have split : notes ++ (.accepted ev :: (fanOut call.takes ev kept.subscribers).2 ++
          if isTerminal ev = true then (kept.subscribers.filter call.takes).map .left else []) =
          (notes ++ [.accepted ev]) ++ ((fanOut call.takes ev kept.subscribers).2 ++
            if isTerminal ev = true then (kept.subscribers.filter call.takes).map .left else []) := by
        simp
      rw [split,newestOf_append runId _ _ closing,newestOf,foldl_append,buffer_set]
      change _ = (if ev.runId = runId then some ev else newestOf runId notes).any isTerminal
      rw [named]
      by_cases own : call.input.runId = runId
      · rw [if_pos own,if_pos own.symm]
        rfl
      · rw [if_neg own,if_neg (Ne.symm own)]
        exact delivers.newest runId
    · intro subscriber
      have follows := delivers.follows subscriber
      have others (other : Text) (distinct_run : other ≠ call.input.runId) (run : RunBuffer) :
          (hub.set call.input.runId run).buffer other = hub.buffer other := by
        rw [buffer_set,if_neg distinct_run]
      rw [observed_append,cons_append,foldl_cons,foldl_append,observe_fanOut nodup]
      generalize observed subscriber notes = seen at follows
      by_cases inside : subscriber ∈ (hub.buffer call.input.runId).subscribers
      · obtain ⟨attached,run⟩ := (follows.in_set _).mp inside
        have stays : subscriber ∈ ((hub.set call.input.runId { accept kept (retain ev) with
              subscribers := if isTerminal ev = true then []
                else kept.subscribers.filter call.takes }).buffer call.input.runId).subscribers ↔
            (call.takes subscriber && !isTerminal ev) = true := by
          rw [buffer_set,if_pos rfl]
          change subscriber ∈ (if isTerminal ev = true then [] else kept.subscribers.filter call.takes) ↔ _
          cases isTerminal ev <;> simp [sets,inside]
        have same : (if isTerminal ev = true then (kept.subscribers.filter call.takes).map Note.left
            else []).foldl (observe subscriber) (if subscriber ∈ kept.subscribers then
              let seen := observe subscriber (observe subscriber seen (.accepted ev)) (.written subscriber ev)
              { seen with attached := seen.attached && call.takes subscriber }
            else observe subscriber seen (.accepted ev)) = { seen with
              attached := call.takes subscriber && !isTerminal ev
              live := seen.live ++ [ev]
              due := seen.due ++ [ev] } := by
          rw [sets,if_pos inside]
          have accepted : observe subscriber seen (.accepted ev) = { seen with due := seen.due ++ [ev] } := by
            simp [observe,attached,run,named]
          rw [accepted]
          cases terminal : isTerminal ev with
          | false => simp [observe,attached,run]
          | true =>
            simp only [if_true]
            rw [observe_closed]
            cases taken : call.takes subscriber <;> simp [observe,run,inside,taken]
        rw [same]
        refine follows.give inside named next rfl ?_ ?_ stays ?_
        · intro still
          rw [and_eq_true,not_eq_true'] at still
          exact still.2
        · rw [buffer_set,if_pos rfl,← shrinks.nextSequence]
          rfl
        · intro other distinct_run
          rw [others other distinct_run]
      · have notDue : ¬ (seen.attached = true ∧ seen.run = some ev.runId) := by
          rw [named,← follows.in_set]
          exact inside
        have unseen : observe subscriber seen (.accepted ev) = seen := if_neg notDue
        rw [unseen,sets,if_neg inside]
        have gone : subscriber ∉ (hub.buffer call.input.runId).subscribers.filter call.takes :=
          fun mem => inside (mem_of_mem_filter mem)
        have same : (if isTerminal ev = true then
            ((hub.buffer call.input.runId).subscribers.filter call.takes).map Note.left
            else []).foldl (observe subscriber) seen = seen := by
          split
          · rw [observe_closed,if_neg gone]
          · rfl
        rw [same]
        refine follows.keep (le_refl _) ?_ ?_
        · intro runId
          rw [buffer_set]
          split
          next own =>
            subst own
            change subscriber ∈ (if isTerminal ev = true then [] else _) ↔ _
            split
            · simp [inside]
            · simp [gone,inside]
          next => rfl
        · intro runId _
          rw [buffer_set]
          split
          next own =>
            subst own
            rw [← shrinks.nextSequence]
            exact Nat.le_succ _
          next => exact le_refl _

theorem writeReplay_unrelated {subscriber other : Nat} (nodup : subscriber ≠ other)
    (takes : CodingWorkbenchRuntimeSseEvent → Bool) (evs : List CodingWorkbenchRuntimeSseEvent) :
    ∀ note ∈ (writeReplay subscriber takes evs).2, Unrelated other note := by
  induction evs with
  | nil => simp [writeReplay]
  | cons ev evs ih =>
    intro note mem
    rw [writeReplay] at mem
    split at mem
    · rcases mem_cons.mp mem with rfl | post
      · exact nodup
      · exact ih note post
    · obtain rfl | rfl := (by simpa using mem : note = _ ∨ note = _)
      · exact nodup
      · exact nodup

theorem observe_written (evs : List CodingWorkbenchRuntimeSseEvent) (subscriber : Nat) :
    (evs.map (Note.written subscriber)).foldl (observe subscriber) Delivery.none = ⟨none,false,evs,[],[]⟩ := by
  induction evs using reverseRecOn with
  | nil => rfl
  | append_singleton evs ev ih =>
    rw [map_append,foldl_append,ih]
    simp [observe]

inductive Subscribed (limits : EventHubLimits) (hub : Hub) (call : Subscribe) :
    Hub → List Note → Prop where
  | reset {hub' : Hub} (sameBuffers : ∀ runId, hub'.buffer runId = hub.buffer runId)
      (counted : hub'.subscribed = hub.subscribed + 1) : Subscribed limits hub call hub' []
  | gone {hub' : Hub} {notes : List Note} {front rest : List CodingWorkbenchRuntimeSseEvent}
      (sameBuffers : ∀ runId, hub'.buffer runId = hub.buffer runId)
      (counted : hub'.subscribed = hub.subscribed + 1)
      (answered : replay hub call.runId call.lastEventId = .ok (front ++ rest))
      (seen : notes.foldl (observe hub.subscribed) Delivery.none = ⟨none,false,front,[],[]⟩)
      (unrelated : ∀ other, hub.subscribed ≠ other → ∀ note ∈ notes, Unrelated other note)
      (plain : ∀ runId, ∀ note ∈ notes, (∀ event, note ≠ .accepted event) ∧ note ≠ .deleted runId)
      (never : ∀ other runId, Note.attached other runId ∉ notes) : Subscribed limits hub call hub' notes
  | live {hub' : Hub} {events : List CodingWorkbenchRuntimeSseEvent}
      (counted : hub'.subscribed = hub.subscribed + 1)
      (buffers : ∀ runId, hub'.buffer runId = if runId = call.runId then { hub.buffer call.runId with
          subscribers := (hub.buffer call.runId).subscribers ++ [hub.subscribed] }
        else hub.buffer runId)
      (answered : replay hub call.runId call.lastEventId = .ok events)
      (running : (hub.buffer call.runId).terminal = false) :
      Subscribed limits hub call hub' (events.map (.written hub.subscribed) ++ [.attached hub.subscribed call.runId])

theorem writeReplay_whole {subscriber : Nat} {takes : CodingWorkbenchRuntimeSseEvent → Bool}
    {evs : List CodingWorkbenchRuntimeSseEvent}
    (whole : (writeReplay subscriber takes evs).1 = true) :
    (writeReplay subscriber takes evs).2 = evs.map (.written subscriber) := by
  induction evs with
  | nil => rfl
  | cons ev evs ih =>
    rw [writeReplay] at whole ⊢
    split at whole
    next taken => simp [taken,ih whole]
    next => cases whole

theorem subscribe_cases (limits : EventHubLimits) (hub : Hub) (call : Subscribe) :
    Subscribed limits hub call (subscribe limits hub call).1 (subscribe limits hub call).2.2 := by
  have sameReplay : replay { hub with subscribed := hub.subscribed + 1 } call.runId call.lastEventId =
      replay hub call.runId call.lastEventId := rfl
  have sameBuffers (runId : Text) : ({ hub with subscribed := hub.subscribed + 1 }.set call.runId
      (hub.buffer call.runId)).buffer runId = hub.buffer runId := by
    rw [buffer_set]
    split
    next own => rw [own]
    next => rfl
  rw [subscribe]
  simp only [sameReplay]
  cases answered : replay hub call.runId call.lastEventId with
  | error reason => exact .reset (fun _ => rfl) rfl
  | ok evs =>
    simp only
    split
    · exact .reset sameBuffers rfl
    · obtain ⟨front,rest,rfl,given,complete⟩ := @observe_writeReplay hub.subscribed Delivery.none
        call.takes evs rfl rfl
      have never (takes : CodingWorkbenchRuntimeSseEvent → Bool) (evs : List CodingWorkbenchRuntimeSseEvent) :
          ∀ other runId, Note.attached other runId ∉ (writeReplay hub.subscribed takes evs).2 := by
        intro other runId
        induction evs with
        | nil => simp [writeReplay]
        | cons ev evs ih =>
          rw [writeReplay]
          split <;> simp [ih]
      have unrelated (other : Nat) (nodup : hub.subscribed ≠ other) :=
        writeReplay_unrelated nodup call.takes (front ++ rest)
      have plain (runId : Text) := writeReplay_plain runId hub.subscribed call.takes (front ++ rest)
      have noAttach := never call.takes (front ++ rest)
      have whole := @writeReplay_whole hub.subscribed call.takes (front ++ rest)
      generalize writeReplay hub.subscribed call.takes (front ++ rest) = written at *
      obtain ⟨all,notes⟩ := written
      cases all with
      | false => exact .gone sameBuffers rfl answered given unrelated plain noAttach
      | true =>
        have terminal : ({ hub with subscribed := hub.subscribed + 1 } : Hub).buffer call.runId =
          hub.buffer call.runId := rfl
        simp only [terminal]
        by_cases ended : (hub.buffer call.runId).terminal = true
        · rw [if_pos ended]
          refine .gone sameBuffers rfl answered ?_ ?_ ?_ ?_
          · rw [foldl_append,given]
            simp [observe,Delivery.none]
          · intro other nodup note mem
            rcases mem_append.mp mem with written | left
            · exact unrelated other nodup note written
            · rw [mem_singleton.mp left]
              exact nodup
          · intro runId note mem
            rcases mem_append.mp mem with written | left
            · exact plain runId note written
            · rw [mem_singleton.mp left]
              simp
          · intro other runId mem
            rcases mem_append.mp mem with written | left
            · exact noAttach other runId written
            · simp at left
        · rw [if_neg ended]
          have same : notes = (front ++ rest).map (.written hub.subscribed) := whole rfl
          rw [same]
          refine .live rfl ?_ answered (by simpa using ended)
          intro runId
          rw [buffer_set]
          split
          next => rfl
          next other => rw [sameBuffers]

theorem Delivers.subscribe (delivers : Delivers limits hub notes) (call : Subscribe) :
    Delivers limits (subscribe limits hub call).1 (notes ++ (EventHub.subscribe limits hub call).2.2) := by
  have cases := subscribe_cases limits hub call
  generalize (EventHub.subscribe limits hub call).1 = hub' at cases ⊢
  generalize (EventHub.subscribe limits hub call).2.2 = added at cases ⊢
  have unseen : observed hub.subscribed notes = Delivery.none :=
    (delivers.follows hub.subscribed).fresh (le_refl _)
  have outside (runId : Text) : hub.subscribed ∉ (hub.buffer runId).subscribers := by
    rw [(delivers.follows hub.subscribed).in_set,unseen]
    intro ⟨attached,_⟩
    cases attached
  -- A replay is a part of what the run retains.
  have replayed {evs front rest : List CodingWorkbenchRuntimeSseEvent}
      (answered : replay hub call.runId call.lastEventId = .ok evs)
      (split : evs = front ++ rest) : (front.map (·.sequence)).Pairwise (· < ·) ∧
        ∀ ev ∈ front, ev.runId = call.runId ∧ ev.sequence < (hub.buffer call.runId).nextSequence := by
    have inside : front.Sublist (hub.buffer call.runId).history := by
      apply (sublist_append_left front rest).trans
      rw [← split]
      exact replay_sublist answered
    have sound := delivers.sound call.runId
    refine ⟨sound.ordered.sublist (inside.map _),?_⟩
    intro ev mem
    exact ⟨sound.own ev (inside.subset mem),sound.issued ev (inside.subset mem)⟩
  cases cases with
  | reset sameBuffers counted =>
    rw [append_nil]
    refine ⟨?_,?_,?_,?_⟩
    · intro runId
      rw [sameBuffers]
      exact delivers.sound runId
    · intro runId
      rw [sameBuffers]
      exact delivers.distinct runId
    · intro runId
      rw [sameBuffers]
      exact delivers.newest runId
    · intro subscriber
      apply (delivers.follows subscriber).keep (by omega)
      · intro runId
        rw [sameBuffers]
      · intro runId _
        rw [sameBuffers]
  | @gone _ front rest sameBuffers counted answered seen unrelated plain never =>
    refine ⟨?_,?_,?_,?_⟩
    · intro runId
      rw [sameBuffers]
      exact delivers.sound runId
    · intro runId
      rw [sameBuffers]
      exact delivers.distinct runId
    · intro runId
      rw [sameBuffers,newestOf_append runId _ _ (plain runId)]
      exact delivers.newest runId
    · intro subscriber
      rw [observed_append]
      by_cases own : hub.subscribed = subscriber
      · subst own
        rw [unseen,seen]
        obtain ⟨ordered,named⟩ := replayed answered rfl
        have used : hub.subscribed < hub'.subscribed := by omega
        refine .attach used ordered (fun ev mem => (named ev mem).1) ?_ ?_ ?_
        · intro ev mem
          rw [sameBuffers]
          exact (named ev mem).2
        · intro other same
          cases same
        · intro other
          rw [sameBuffers]
          simp [outside other]
      · rw [observe_unrelated (unrelated subscriber own)]
        apply (delivers.follows subscriber).keep (by omega)
        · intro runId
          rw [sameBuffers]
        · intro runId _
          rw [sameBuffers]
  | @live evs counted buffers answered running =>
    have plain (runId : Text) : ∀ note ∈ evs.map (Note.written hub.subscribed) ++
        [.attached hub.subscribed call.runId],
        (∀ ev, note ≠ .accepted ev) ∧ note ≠ .deleted runId := by
      intro note mem
      rcases mem_append.mp mem with written | attached
      · obtain ⟨ev,_,rfl⟩ := mem_map.mp written
        simp
      · rw [mem_singleton.mp attached]
        simp
    refine ⟨?_,?_,?_,?_⟩
    · intro runId
      rw [buffers]
      split
      next own => exact own ▸ (delivers.sound call.runId).attach _
      next => exact delivers.sound runId
    · intro runId
      rw [buffers]
      split
      · apply List.Nodup.append (delivers.distinct call.runId) (nodup_singleton _)
        simpa using outside call.runId
      · exact delivers.distinct runId
    · intro runId
      rw [newestOf_append runId _ _ (plain runId),buffers]
      split
      next own =>
        rw [own]
        exact delivers.newest call.runId
      next => exact delivers.newest runId
    · intro subscriber
      rw [observed_append,foldl_append]
      by_cases own : hub.subscribed = subscriber
      · subst own
        have written := observe_written evs hub.subscribed
        have attached : [Note.attached hub.subscribed call.runId].foldl (observe hub.subscribed)
            ⟨none,false,evs,[],[]⟩ = ⟨some call.runId,true,evs,[],[]⟩ := by
          simp [observe]
        rw [unseen,written,attached]
        obtain ⟨ordered,named⟩ := replayed answered (append_nil evs).symm
        have used : hub.subscribed < hub'.subscribed := by omega
        refine .attach used ordered (fun ev mem => (named ev mem).1) ?_ ?_ ?_
        · intro ev mem
          rw [buffers,if_pos rfl]
          exact (named ev mem).2
        · intro other same
          exact (some_inj.mp same).symm
        · intro other
          rw [buffers]
          split
          next same => simp [same]
          next differ => simp [outside other,Ne.symm differ]
      · have others : ∀ note ∈ evs.map (Note.written hub.subscribed), Unrelated subscriber note := by
          intro note mem
          obtain ⟨ev,_,rfl⟩ := mem_map.mp mem
          exact own
        rw [observe_unrelated others]
        have single : ∀ note ∈ [Note.attached hub.subscribed call.runId], Unrelated subscriber note := by
          intro note mem
          rw [mem_singleton.mp mem]
          exact own
        rw [observe_unrelated single]
        have more : hub.subscribed ≤ hub'.subscribed := by omega
        apply (delivers.follows subscriber).keep more
        · intro runId
          rw [buffers]
          split
          next same => simp [same,Ne.symm own]
          next => rfl
        · intro runId _
          rw [buffers]
          split
          next same => rw [same]
          next => exact le_refl _

theorem Delivers.publishUnlessTerminal (delivers : Delivers limits hub notes) (call : Publish) :
    Delivers limits (publishUnlessTerminal limits hub call).1
      (notes ++ (EventHub.publishUnlessTerminal limits hub call).2.2) := by
  rw [EventHub.publishUnlessTerminal]
  split
  · rw [append_nil]
    exact delivers
  · exact delivers.publish call

theorem Follows.one_run {subscriber : Nat} {seen : Delivery} {runId other : Text}
    (follows : Follows hub subscriber seen) (mem : subscriber ∈ (hub.buffer runId).subscribers)
    (nodup : other ≠ runId) : subscriber ∉ (hub.buffer other).subscribers := by
  intro both
  have a := ((follows.in_set runId).mp mem).2
  have b := ((follows.in_set other).mp both).2
  rw [a,some_inj] at b
  exact nodup b.symm

theorem Delivers.detach (delivers : Delivers limits hub notes) (runId : Text) (subscriber : Nat) :
    Delivers limits (detach hub runId subscriber).1 (notes ++ (EventHub.detach hub runId subscriber).2) := by
  rw [EventHub.detach]
  cases hit : hub.runs runId with
  | none =>
    rw [append_nil]
    exact delivers
  | some run =>
    have buffer : hub.buffer runId = run := by
      rw [Hub.buffer,hit]
      rfl
    simp only
    split
    · next inside =>
      rw [← buffer] at inside ⊢
      have plain (other : Text) : ∀ note ∈ [Note.left subscriber],
          (∀ ev, note ≠ .accepted ev) ∧ note ≠ .deleted other := by
        intro note mem
        rw [mem_singleton.mp mem]
        simp
      refine ⟨?_,?_,?_,?_⟩
      · intro other
        rw [buffer_set]
        split
        next own => exact own ▸ (delivers.sound runId).attach _
        next => exact delivers.sound other
      · intro other
        rw [buffer_set]
        split
        · exact (delivers.distinct runId).erase _
        · exact delivers.distinct other
      · intro other
        rw [newestOf_append other _ _ (plain other),buffer_set]
        split
        next own => exact own ▸ delivers.newest runId
        next => exact delivers.newest other
      · intro viewer
        have follows := delivers.follows viewer
        rw [observed_append]
        by_cases own : subscriber = viewer
        · subst own
          have seen : [Note.left subscriber].foldl (observe subscriber) (observed subscriber notes) =
              { observed subscriber notes with attached := false } := by
            simp [observe]
          rw [seen]
          refine follows.leave ?_ ?_
          · rfl
          intro other
          rw [buffer_set]
          split
          · exact (delivers.distinct runId).not_mem_erase
          next nodup => exact follows.one_run inside nodup
        · have others : ∀ note ∈ [Note.left subscriber], Unrelated viewer note := by
            intro note mem
            rw [mem_singleton.mp mem]
            exact own
          rw [observe_unrelated others]
          refine follows.keep ?_ ?_ ?_
          · exact le_refl _
          · intro other
            rw [buffer_set]
            split
            next same =>
              rw [same]
              exact mem_erase_of_ne (Ne.symm own)
            next => rfl
          · intro other _
            rw [buffer_set]
            split
            next same => rw [same]
            next => exact le_refl _
    · rw [append_nil]
      exact delivers

theorem Delivers.deleteRun (delivers : Delivers limits hub notes) (runId : Text) :
    Delivers limits (deleteRun hub runId).1 (notes ++ (EventHub.deleteRun hub runId).2) := by
  rw [EventHub.deleteRun]
  cases hit : hub.runs runId with
  | none =>
    rw [append_nil]
    exact delivers
  | some run =>
    have buffer : hub.buffer runId = run := by
      rw [Hub.buffer,hit]
      rfl
    have buffers (other : Text) : ({ hub with runs := Function.update hub.runs runId none } :
        Hub).buffer other = if other = runId then newRun else hub.buffer other := by
      rw [Hub.buffer]
      simp only [Function.update_apply]
      split <;> rfl
    have closing : (closeSubscribers run).2 = (hub.buffer runId).subscribers.map .left := by
      rw [buffer]
      rfl
    simp only
    rw [closing]
    refine ⟨?_,?_,?_,?_⟩
    · intro other
      rw [buffers]
      split
      · exact newRun_sound limits other
      · exact delivers.sound other
    · intro other
      rw [buffers]
      split
      · exact nodup_nil
      · exact delivers.distinct other
    · intro other
      have plain : ∀ note ∈ (hub.buffer runId).subscribers.map Note.left,
          (∀ ev, note ≠ .accepted ev) ∧ note ≠ .deleted other := by
        intro note mem
        obtain ⟨left,_,rfl⟩ := mem_map.mp mem
        simp
      rw [← append_assoc,newestOf,foldl_append]
      change _ = (if runId = other then none else newestOf other (notes ++ _)).any isTerminal
      rw [newestOf_append other _ _ plain,buffers]
      by_cases own : other = runId
      · rw [if_pos own,if_pos own.symm]
        rfl
      · rw [if_neg own,if_neg (Ne.symm own)]
        exact delivers.newest other
    · intro viewer
      have follows := delivers.follows viewer
      rw [observed_append,foldl_append,observe_closed]
      change Follows _ viewer (if viewer ∈ _ then _ else _)
      split
      next inside =>
        refine follows.leave ?_ ?_
        · rfl
        intro other
        rw [buffers]
        split
        · exact not_mem_nil
        next nodup => exact follows.one_run inside nodup
      next outside =>
        refine follows.keep ?_ ?_ ?_
        · exact le_refl _
        · intro other
          rw [buffers]
          split
          next same => simp [same,newRun,outside]
          next => rfl
        · intro other inside
          rw [buffers]
          split
          next same => exact absurd (same ▸ inside) outside
          next => exact le_refl _

theorem delivers_run (limits : EventHubLimits) (calls : List Call) :
    Delivers limits ((machine limits).run calls) ((machine limits).noted calls) := by
  apply Machine.holds_of_step (Delivers limits)
  · refine ⟨?_,?_,?_,?_⟩
    · intro runId
      exact newRun_sound limits runId
    · intro runId
      exact nodup_nil
    · intro runId
      rfl
    · intro subscriber
      refine ⟨fun _ => rfl,?_,rfl,List.Pairwise.nil,?_,?_,?_,?_⟩
      · intro runId
        simp [machine,Hub.empty,Hub.buffer,newRun,observed,Delivery.none]
      all_goals intros; simp_all [observed,Delivery.none]
  · intro hub notes call delivers
    cases call with
    | publish call => exact delivers.publish call
    | publishUnlessTerminal call => exact delivers.publishUnlessTerminal call
    | subscribe call => exact delivers.subscribe call
    | detach runId subscriber => exact delivers.detach runId subscriber
    | deleteRun runId => exact delivers.deleteRun runId

/-- Every subscriber follows its run in any calls, and a run whose newest accepted event is terminal
attaches no new one. -/
theorem machine_delivery (options : EventHubOptions) (calls : List Call) :
    (∀ subscriber, Follows ((machine options.limits).run calls) subscriber
      (observed subscriber ((machine options.limits).noted calls))) ∧
    ∀ call subscriber runId, Note.attached subscriber runId ∈
        (machine options.limits).notes ((machine options.limits).run calls) (.subscribe call) →
      runId = call.runId ∧ subscriber = ((machine options.limits).run calls).subscribed ∧
      (newestOf runId ((machine options.limits).noted calls)).any isTerminal = false ∧
      ∃ events, replay ((machine options.limits).run calls) runId call.lastEventId = .ok events ∧
        (machine options.limits).notes ((machine options.limits).run calls) (.subscribe call) =
          events.map (.written subscriber) ++ [.attached subscriber runId] := by
  have delivers := delivers_run options.limits calls
  refine ⟨delivers.follows,?_⟩
  intro call subscriber runId attached
  have cases := subscribe_cases options.limits ((machine options.limits).run calls) call
  change Note.attached subscriber runId ∈ (subscribe options.limits _ call).2.2 at attached
  change _ ∧ _ ∧ _ ∧ ∃ events, _ ∧ (subscribe options.limits _ call).2.2 = _
  generalize (subscribe options.limits _ call).2.2 = added at cases attached ⊢
  cases cases with
  | reset => cases attached
  | gone _ _ _ _ _ _ never => exact absurd attached (never subscriber runId)
  | live _ _ answered running =>
    rcases mem_append.mp attached with written | last
    · obtain ⟨event,_,same⟩ := mem_map.mp written
      cases same
    · cases mem_singleton.mp last
      refine ⟨rfl,rfl,?_,_,answered,rfl⟩
      rw [← delivers.newest]
      exact running

theorem machine_delivery_awaiting : ∃ events : List CodingWorkbenchRuntimeSseEvent,
    (machine twoEvents.limits).notes ((machine twoEvents.limits).run
      [.publish (statusCall .awaitingApproval 1)]) (.subscribe ⟨"run-a".toList,[],fun _ => true⟩) =
        events.map (.written 0) ++ [.attached 0 "run-a".toList] := by
  have attached : Note.attached 0 "run-a".toList ∈ (machine twoEvents.limits).notes
      ((machine twoEvents.limits).run [.publish (statusCall .awaitingApproval 1)])
      (.subscribe ⟨"run-a".toList,[],fun _ => true⟩) := by decide +kernel
  obtain ⟨_,_,_,events,_,notes⟩ := (machine_delivery twoEvents _).2 _ _ _ attached
  exact ⟨events,notes⟩

/-- A recovery-required status behind a terminal one attaches subscribers again. -/
theorem machine_reopened : ¬ ∀ (options : EventHubOptions) (calls : List Call) (call : Subscribe)
    (subscriber : Nat) (runId : Text), Note.attached subscriber runId ∈
        (machine options.limits).notes ((machine options.limits).run calls) (.subscribe call) →
      ∀ event ∈ acceptedOf runId ((machine options.limits).noted calls),
        isTerminal event = false := by
  intro closed
  have attached : Note.attached 0 "run-a".toList ∈
      (machine twoEvents.limits).notes
        ((machine twoEvents.limits).run
          [.publish (statusCall .succeeded 1),.publish (statusCall .recoveryRequired 2)])
        (.subscribe ⟨"run-a".toList,[],fun _ => true⟩) := by decide +kernel
  have terminal : ¬ ∀ event ∈ acceptedOf "run-a".toList ((machine twoEvents.limits).noted
      [.publish (statusCall .succeeded 1),.publish (statusCall .recoveryRequired 2)]),
        isTerminal event = false := by decide +kernel
  exact terminal (closed _ _ _ _ _ attached)

end Calls

end Keiko.EventHub
