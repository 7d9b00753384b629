import Keiko.ChatTurnSerializer

/-! What holds in every run of the serializer of chat turns. A turn begins only behind released ones,
and a turn is released either by the end of its operation or, withdrawn, behind its predecessor. So
operations of a chat follow one another in the order of the calls, whoever is cancelled when. -/
namespace Keiko.ChatTurn
open Keiko.Library List Option

section Serial

variable {ser : Serializer} {notes more : List Note} {n : ℕ} {turn next : Turn}

def Turn.gate (turn : Turn) : Gate Text :=
  ⟨[turn.chatId],turn.predecessor.toList,decide (turn.phase = .released)⟩

def Begun : Phase → Prop
  | .waited true | .scheduled | .running | .settled | .released => True
  | _ => False

def Told (notes : List Note) (n : ℕ) : Phase → Prop
  | .waiting | .waited _ | .scheduled =>
    .withdrawn n ∉ notes ∧ .started n ∉ notes ∧ .settled n ∉ notes
  | .abandoned => .withdrawn n ∈ notes ∧ .started n ∉ notes ∧ .settled n ∉ notes
  | .running => .withdrawn n ∉ notes ∧ .started n ∈ notes ∧ .settled n ∉ notes
  | .settled => .withdrawn n ∉ notes ∧ .started n ∈ notes ∧ .settled n ∈ notes
  | .released =>
    (.withdrawn n ∈ notes ∧ .started n ∉ notes ∧ .settled n ∉ notes) ∨
      .withdrawn n ∉ notes ∧ .started n ∈ notes ∧ .settled n ∈ notes

structure Serial (ser : Serializer) (notes : List Note) : Prop where
  ordered : Gates.Ordered ser.tails (ser.turns.map Turn.gate)
  free : ∀ (n : ℕ) turn, ser.turns[n]? = some turn → Begun turn.phase → ser.isFree turn = true
  told : ∀ (n : ℕ) turn, ser.turns[n]? = some turn → Told notes n turn.phase
  called : ∀ n chatId, .called n chatId ∈ notes → ∃ turn,
    ser.turns[n]? = some turn ∧ turn.chatId = chatId
  fresh : ∀ n, ser.turns.length ≤ n → .withdrawn n ∉ notes ∧
    .started n ∉ notes ∧ .settled n ∉ notes

theorem isReleased_iff : ser.isReleased n = true ↔
    ∃ turn, ser.turns[n]? = some turn ∧ turn.phase = .released := by
  rw [Serializer.isReleased,Option.any_eq_true]
  simp only [decide_eq_true_eq]

theorem opened_iff : Gates.Opened (ser.turns.map Turn.gate) n ↔ ser.isReleased n = true := by
  rw [isReleased_iff,Gates.Opened]
  simp only [getElem?_map,map_eq_some_iff]
  constructor
  · intro ⟨_,⟨turn,hit,rfl⟩,opened⟩
    exact ⟨turn,hit,of_decide_eq_true opened⟩
  · intro ⟨turn,hit,released⟩
    exact ⟨turn.gate,⟨turn,hit,rfl⟩,decide_eq_true released⟩

theorem isFree_iff : ser.isFree turn = true ↔ ∀ predecessor ∈ turn.gate.predecessors,
      Gates.Opened (ser.turns.map Turn.gate) predecessor := by
  simp only [opened_iff,Turn.gate,Option.mem_toList,Serializer.isFree,Option.all_eq_true]

theorem Serial.start : Serial ⟨.empty,[],.empty⟩ [] := by
  refine ⟨Gates.Ordered.start,?_,?_,?_,?_⟩
  · intro n turn hit
    cases hit
  · intro n turn hit
    cases hit
  · intro n chatId mem
    cases mem
  · intro n _
    exact ⟨nofun,nofun,nofun⟩

def Silent (more : List Note) (n : ℕ) : Prop :=
  .withdrawn n ∉ more ∧ .started n ∉ more ∧ .settled n ∉ more

theorem Told.append {phase : Phase} (told : Told notes n phase) (silent : Silent more n) :
    Told (notes ++ more) n phase := by
  obtain ⟨withdrawn,started,settled⟩ := silent
  simp only [Told,mem_append,withdrawn,started,settled,or_false] at told ⊢
  exact told

theorem Serial.enter (serial : Serial ser notes)
    (hit : ser.turns[n]? = some turn) (same : next.chatId = turn.chatId)
    {after : Serializer} (turns : after.turns = ser.turns.set n next)
    (ordered : Gates.Ordered after.tails (after.turns.map Turn.gate))
    (still : ∀ other, ser.isFree other = true → after.isFree other = true)
    (free : Begun next.phase → after.isFree next = true)
    (told : Told (notes ++ more) n next.phase)
    (silent : ∀ other, other ≠ n → Silent more other)
    (uncalled : ∀ other chatId, .called other chatId ∉ more) : Serial after (notes ++ more) := by
  have read {i : ℕ} : after.turns[i]? = if n = i then some next else ser.turns[i]? := by
    rw [turns,List.getElem?_set,if_pos (List.getElem?_eq_some_iff.mp hit).1]
  refine ⟨ordered,?_,?_,?_,?_⟩
  · intro i other present begun
    rw [read] at present
    split at present
    · cases present
      exact free begun
    · exact still other (serial.free i other present begun)
  · intro i other present
    rw [read] at present
    split at present
    next here =>
      cases present
      rw [← here]
      exact told
    next elsewhere =>
      exact (serial.told i other present).append (silent i (Ne.symm elsewhere))
  · intro i chatId mem
    rcases mem_append.mp mem with old | new
    · obtain ⟨other,present,own⟩ := serial.called i chatId old
      rw [read]
      split
      next here =>
        subst here
        rw [hit] at present
        cases present
        exact ⟨next,rfl,same.trans own⟩
      · exact ⟨other,present,own⟩
    · exact absurd new (uncalled i chatId)
  · intro i beyond
    rw [turns,length_set] at beyond
    obtain ⟨withdrawn,started,settled⟩ := serial.fresh i beyond
    obtain ⟨a,b,third⟩ := silent i
      (Nat.ne_of_gt (Nat.lt_of_lt_of_le (List.getElem?_eq_some_iff.mp hit).1 beyond))
    simp only [mem_append,not_or]
    exact ⟨⟨withdrawn,a⟩,⟨started,b⟩,settled,third⟩

theorem Serial.update (serial : Serial ser notes)
    (hit : ser.turns[n]? = some turn) (same : next.gate = turn.gate)
    (free : Begun next.phase → ser.isFree turn = true)
    (told : Told (notes ++ more) n next.phase)
    (silent : ∀ other, other ≠ n → Silent more other)
    (uncalled : ∀ other chatId, .called other chatId ∉ more) :
    Serial (ser.update n next) (notes ++ more) := by
  have bound := (List.getElem?_eq_some_iff.mp hit).1
  have gates : (ser.update n next).turns.map Turn.gate = ser.turns.map Turn.gate := by
    apply ext_getElem?
    intro i
    rw [getElem?_map,getElem?_map,Serializer.update,getElem?_set,if_pos bound]
    split
    next here =>
      rw [← here,hit,map_some,same]
      rfl
    · rfl
  have still {other : Turn} : (ser.update n next).isFree other = ser.isFree other := by
    rw [Bool.eq_iff_iff,isFree_iff,isFree_iff,gates]
  have nextFree : ser.isFree next = ser.isFree turn := by
    rw [Bool.eq_iff_iff,isFree_iff,isFree_iff,same]
  have chat := congrArg (fun gate => gate.keys) same
  apply serial.enter hit (cons.inj chat).1 rfl
  · rw [gates]
    exact serial.ordered
  · exact fun other was => still.trans was
  · exact fun begun => still.trans (nextFree.trans (free begun))
  · exact told
  · exact silent
  · exact uncalled

theorem Serial.released (serial : Serial ser notes)
    (hit : ser.turns[n]? = some turn) (free : ser.isFree turn = true)
    (told : Told (notes ++ more) n .released)
    (silent : ∀ other, other ≠ n → Silent more other)
    (uncalled : ∀ other chatId, .called other chatId ∉ more) :
    Serial (releaseTurn n turn ser) (notes ++ more) := by
  have bound := (List.getElem?_eq_some_iff.mp hit).1
  have gate : (ser.turns.map Turn.gate)[n]? = some turn.gate := by
    rw [getElem?_map,hit]
    rfl
  have gates : (releaseTurn n turn ser).turns.map Turn.gate =
      (ser.turns.map Turn.gate).modify n Gates.openGate := by
    apply ext_getElem?
    intro i
    rw [getElem?_map,getElem?_modify,getElem?_map,releaseTurn,getElem?_set,if_pos bound]
    split
    next here =>
      rw [← here,hit]
      rfl
    · cases ser.turns[i]? with
      | none => rfl
      | some other => rfl
  have still (other : Turn) (was : ser.isFree other = true) :
      (releaseTurn n turn ser).isFree other = true := by
    rw [isFree_iff] at was ⊢
    intro predecessor mem
    obtain ⟨pre,stood,opened⟩ := was predecessor mem
    rw [gates]
    refine ⟨if n = predecessor then Gates.openGate pre else pre,?_,?_⟩
    · rw [getElem?_modify,stood]
      rfl
    · split
      · rfl
      · exact opened
  have chat : ({ turn with phase := .released } : Turn).chatId = turn.chatId := rfl
  apply serial.enter hit chat rfl
  · rw [gates]
    exact serial.ordered.leave gate (isFree_iff.mp free)
  · exact still
  · exact fun _ => still _ free
  · exact told
  · exact silent
  · exact uncalled

end Serial

section Steps

variable {ser : Serializer} {log : List Note} {n : ℕ} {turn : Turn}

theorem enter_single {tails : OrderedMap Text ℕ} (gate : ℕ) (chatId : Text) :
    (Gates.enter gate [chatId] tails).1 = ((Gates.enter gate [chatId] tails).1.head?).toList := by
  rw [Gates.enter,Gates.enter,append_nil]
  cases tails.get? chatId with
  | none => rfl
  | some other => rfl

theorem Serial.call (serial : Serial ser log) (chatId : Text) (aborted gen : Bool) :
    Serial (call chatId aborted gen ser).1 (log ++ (call chatId aborted gen ser).2) := by
  have captured := serial.ordered.enter (nodup_singleton chatId)
  rw [length_map,enter_single] at captured
  have old {i : ℕ} {other : Turn} (hit : ser.turns[i]? = some other) :
      (ChatTurn.call chatId aborted gen ser).1.turns[i]? = some other :=
    (List.getElem?_append_left (List.getElem?_eq_some_iff.mp hit).1).trans hit
  have split {i : ℕ} {other : Turn}
      (hit : (ChatTurn.call chatId aborted gen ser).1.turns[i]? = some other) :
      ser.turns[i]? = some other ∨ i = ser.turns.length ∧
        (other.phase = .waiting ∨ other.phase = .waited false) := by
    change (ser.turns ++ [_])[i]? = _ at hit
    rw [getElem?_append] at hit
    split at hit
    · exact .inl hit
    next beyond =>
      have bound := (List.getElem?_eq_some_iff.mp hit).1
      rw [length_singleton] at bound
      have mem := mem_of_getElem? hit
      rw [mem_singleton] at mem
      refine .inr ⟨by omega,?_⟩
      rw [mem]
      cases aborted with
      | true => exact .inr rfl
      | false => exact .inl rfl
  have keeps {other : Turn} (free : ser.isFree other = true) :
      (ChatTurn.call chatId aborted gen ser).1.isFree other = true := by
    rw [isFree_iff] at free ⊢
    intro predecessor mem
    obtain ⟨gate,stood,opened⟩ := free predecessor mem
    rw [getElem?_map] at stood
    obtain ⟨pre,here,rfl⟩ := map_eq_some_iff.mp stood
    refine ⟨pre.gate,?_,opened⟩
    rw [getElem?_map,old here]
    rfl
  have silent (i : ℕ) : Silent [.called ser.turns.length chatId] i := by
    refine ⟨?_,?_,?_⟩ <;> exact fun mem => nomatch mem_singleton.mp mem
  refine ⟨?_,?_,?_,?_,?_⟩
  · change Gates.Ordered _ ((ser.turns ++ [_]).map Turn.gate)
    rw [map_append,map_singleton]
    cases aborted with
    | true => exact captured
    | false => exact captured
  · intro i other hit begun
    rcases split hit with early | ⟨_,waiting | ended⟩
    · exact keeps (serial.free i other early begun)
    · rw [waiting] at begun
      exact begun.elim
    · rw [ended] at begun
      exact begun.elim
  · intro i other hit
    rcases split hit with early | ⟨rfl,waiting⟩
    · exact (serial.told i other early).append (silent i)
    · have fresh : Told log ser.turns.length .waiting := serial.fresh _ (Nat.le_refl _)
      rcases waiting with phase | phase
      · rw [phase]
        exact fresh.append (silent _)
      · rw [phase]
        exact fresh.append (silent _)
  · intro i asked mem
    rcases mem_append.mp mem with early | new
    · obtain ⟨other,hit,own⟩ := serial.called i asked early
      exact ⟨other,old hit,own⟩
    · rw [ChatTurn.call,mem_singleton] at new
      cases new
      exact ⟨_,getElem?_concat_length ..,rfl⟩
  · intro i beyond
    change (ser.turns ++ [_]).length ≤ i at beyond
    rw [length_append,length_singleton] at beyond
    exact (show Told log i .waiting from serial.fresh i (by omega)).append (silent i)

theorem Serial.quiet (serial : Serial ser log)
    (hit : ser.turns[n]? = some turn) {next : Turn} (same : next.gate = turn.gate)
    (free : Begun next.phase → ser.isFree turn = true)
    (told : Told log n turn.phase → Told log n next.phase) :
    Serial (ser.update n next) (log ++ []) := by
  apply serial.update hit same free
  · rw [append_nil]
    exact told (serial.told n turn hit)
  · exact fun _ _ => ⟨nofun,nofun,nofun⟩
  · exact nofun

theorem Serial.abort (serial : Serial ser log) (hit : ser.turns[n]? = some turn) :
    Serial (abort n turn ser).1 (log ++ (abort n turn ser).2) := by
  have free := serial.free n turn hit
  have told := serial.told n turn hit
  have silent (i : ℕ) : Silent [.answered n true] i := by
    refine ⟨?_,?_,?_⟩ <;> exact fun mem => nomatch mem_singleton.mp mem
  have answers : Serial (ser.update n { turn with aborted := true, answered := true })
      (log ++ [.answered n true]) := by
    have same : ({ turn with aborted := true, answered := true } : Turn).gate = turn.gate := rfl
    apply serial.update hit same free (told.append (silent n))
    · exact fun i _ => silent i
    · exact fun _ _ mem => nomatch mem_singleton.mp mem
  have marks : Serial (ser.update n { turn with aborted := true }) (log ++ []) :=
    serial.quiet hit rfl free id
  rw [ChatTurn.abort]
  split
  · rw [append_nil]
    exact serial
  · split
    next waiting =>
      apply serial.quiet hit
      · rw [Turn.gate,Turn.gate,waiting]
        rfl
      · exact False.elim
      · rw [waiting]
        exact id
    · split
      · exact marks
      · exact answers
    · split
      · exact marks
      · exact answers
    · split
      · exact marks
      · exact answers
    · exact marks

theorem Serial.predecessorSettled (serial : Serial ser log) (hit : ser.turns[n]? = some turn) :
    Serial (predecessorSettled n turn ser).1 (log ++ (predecessorSettled n turn ser).2) := by
  rw [ChatTurn.predecessorSettled]
  split
  next ready =>
    apply serial.quiet hit
    · rw [Turn.gate,Turn.gate,ready.1]
      rfl
    · exact fun _ => ready.2
    · rw [ready.1]
      exact id
  · rw [append_nil]
    exact serial

theorem silent_others {note : Note} (own : note ∈ [Note.withdrawn n,.started n,.settled n])
    (other : ℕ) (differ : other ≠ n) : Silent [note] other := by
  simp only [mem_cons,not_mem_nil,or_false] at own
  rcases own with rfl | rfl | rfl
  all_goals
    refine ⟨?_,?_,?_⟩ <;> rw [mem_singleton] <;> intro same <;> cases same
    exact differ rfl

theorem uncalled_others {note : Note} (own : note ∈ [Note.withdrawn n,.started n,.settled n])
    (other : ℕ) (chatId : Text) : .called other chatId ∉ [note] := by
  rw [mem_singleton]
  intro same
  rw [← same] at own
  simp at own

theorem Serial.proceed (serial : Serial ser log) (hit : ser.turns[n]? = some turn) :
    Serial (proceed n turn ser).1 (log ++ (proceed n turn ser).2) := by
  have told := serial.told n turn hit
  have own : Note.withdrawn n ∈ [Note.withdrawn n,.started n,.settled n] :=
    mem_cons_self
  rw [ChatTurn.proceed]
  split
  next ended =>
    rw [ended] at told
    apply serial.update hit
    · rw [Turn.gate,Turn.gate,ended]
      rfl
    · exact False.elim
    · simp only [Told,mem_append,mem_singleton] at told ⊢
      simp [told.2]
    · exact silent_others own
    · exact uncalled_others own
  next acquired =>
    have free := serial.free n turn hit (by rw [acquired]; trivial)
    split
    · rw [acquired] at told
      apply serial.released hit free
      · simp only [Told,mem_append,mem_singleton] at told ⊢
        simp [told.2]
      · exact silent_others own
      · exact uncalled_others own
    · apply serial.quiet hit
      · rw [Turn.gate,Turn.gate,acquired]
        rfl
      · exact fun _ => free
      · rw [acquired]
        exact id
  · rw [append_nil]
    exact serial

theorem Serial.start_turn (serial : Serial ser log) (hit : ser.turns[n]? = some turn) :
    Serial (ChatTurn.start n turn ser).1 (log ++ (ChatTurn.start n turn ser).2) := by
  have told := serial.told n turn hit
  have own : Note.started n ∈ [Note.withdrawn n,.started n,.settled n] := by
    simp
  rw [ChatTurn.start]
  split
  next scheduled =>
    have free := serial.free n turn hit (by rw [scheduled]; trivial)
    rw [scheduled] at told
    apply serial.update hit
    · rw [Turn.gate,Turn.gate,scheduled]
      rfl
    · exact fun _ => free
    · simp only [Told,mem_append,mem_singleton] at told ⊢
      simp [told.1,told.2.2]
    · exact silent_others own
    · exact uncalled_others own
  · rw [append_nil]
    exact serial

theorem Serial.settle (serial : Serial ser log) (hit : ser.turns[n]? = some turn) :
    Serial (settle n turn ser).1 (log ++ (settle n turn ser).2) := by
  have told := serial.told n turn hit
  have own : Note.settled n ∈ [Note.withdrawn n,.started n,.settled n] := by
    simp
  rw [ChatTurn.settle]
  split
  next running =>
    have free := serial.free n turn hit (by rw [running]; trivial)
    rw [running] at told
    apply serial.update hit
    · rw [Turn.gate,Turn.gate,running]
      rfl
    · exact fun _ => free
    · simp only [Told,mem_append,mem_singleton] at told ⊢
      simp [told.1,told.2.1]
    · exact silent_others own
    · exact uncalled_others own
  · rw [append_nil]
    exact serial

theorem Serial.release (serial : Serial ser log) (hit : ser.turns[n]? = some turn) :
    Serial (release n turn ser).1 (log ++ (release n turn ser).2) := by
  have told := serial.told n turn hit
  rw [ChatTurn.release]
  split
  next abandoned =>
    rw [abandoned] at told
    split
    next free =>
      apply serial.released hit free
      · rw [append_nil]
        exact .inl told
      · exact fun _ _ => ⟨nofun,nofun,nofun⟩
      · exact nofun
    · rw [append_nil]
      exact serial
  next settled =>
    have free := serial.free n turn hit (by rw [settled]; trivial)
    rw [settled] at told
    have silent (i : ℕ) : Silent (if turn.answered = true then [] else [Note.answered n false]) i := by
      split
      · exact ⟨nofun,nofun,nofun⟩
      · refine ⟨?_,?_,?_⟩ <;> exact fun mem => nomatch mem_singleton.mp mem
    apply serial.released hit free
    · exact (show Told log n .released from .inr told).append (silent n)
    · exact fun i _ => silent i
    · intro other chatId mem
      split at mem
      · cases mem
      · cases mem_singleton.mp mem
  · rw [append_nil]
    exact serial

theorem Serial.interruptGenerations (serial : Serial ser log) (chatId : Text) (keepRunning : Bool) :
    Serial (interruptGenerations chatId keepRunning ser).1
      (log ++ (interruptGenerations chatId keepRunning ser).2) := by
  rw [ChatTurn.interruptGenerations]
  simp only
  generalize ((ser.generations.get? chatId).getD []).filter _ = interrupted
  have silent (i : ℕ) : Silent (interrupted.map Note.interrupted) i := by
    refine ⟨?_,?_,?_⟩ <;> simp
  refine ⟨serial.ordered,serial.free,?_,?_,?_⟩
  · exact fun i turn hit => (serial.told i turn hit).append (silent i)
  · intro i asked mem
    rcases mem_append.mp mem with early | new
    · exact serial.called i asked early
    · simp at new
  · intro i beyond
    exact (show Told log i .waiting from serial.fresh i beyond).append (silent i)

theorem Serial.onTurn (serial : Serial ser log) {act : ℕ → Turn → Effect Serializer Note}
    (acts : ∀ turn, ser.turns[n]? = some turn →
      Serial (act n turn ser).1 (log ++ (act n turn ser).2)) :
    Serial (onTurn n act ser).1 (log ++ (onTurn n act ser).2) := by
  rw [ChatTurn.onTurn]
  split
  · rw [append_nil]
    exact serial
  next turn hit => exact acts turn hit

theorem Serial.step (serial : Serial ser log) (ev : Event) :
    Serial (effect ev ser).1 (log ++ (effect ev ser).2) := by
  cases ev with
  | call chatId aborted gen => exact serial.call chatId aborted gen
  | abort n => exact serial.onTurn fun _ => serial.abort
  | predecessorSettled n => exact serial.onTurn fun _ => serial.predecessorSettled
  | proceed n => exact serial.onTurn fun _ => serial.proceed
  | start n => exact serial.onTurn fun _ => serial.start_turn
  | settle n => exact serial.onTurn fun _ => serial.settle
  | release n => exact serial.onTurn fun _ => serial.release
  | interruptGenerations chatId keepRunning => exact serial.interruptGenerations chatId keepRunning

theorem machine_serial (evs : List Event) : Serial (machine.run evs) (machine.noted evs) := by
  apply Machine.holds_of_step Serial
  · exact Serial.start
  · exact fun ser log ev serial => serial.step ev

end Steps

section Order

variable {serializer : Serializer} {notes : List Note} {number : ℕ} {turn : Turn}

/-- Calls are numbered as they come. An operation starts once, unless its caller has withdrawn, and only
when each earlier call of the chat has withdrawn or has had its operation settle. -/
def InTurn (before : List Note) : Note → Prop
  | .called number _ => ∀ first chatId, .called first chatId ∈ before → first < number
  | .withdrawn number => .withdrawn number ∉ before ∧ .started number ∉ before
  | .started number => .withdrawn number ∉ before ∧ .started number ∉ before ∧
      ∀ first chatId, .called number chatId ∈ before → first < number →
        .called first chatId ∈ before → .withdrawn first ∈ before ∨ .started first ∈ before ∧ .settled first ∈ before
  | .settled number => .started number ∈ before ∧ .settled number ∉ before
  | _ => True

theorem Serial.behind (serial : Serial serializer notes) (hit : serializer.turns[number]? = some turn)
    (free : serializer.isFree turn = true) {a : ℕ} {other : Turn} (pre : a < number)
    (here : serializer.turns[a]? = some other) (same : other.chatId = turn.chatId) :
    other.phase = .released := by
  have gate : (serializer.turns.map Turn.gate)[number]? = some turn.gate := by
    rw [getElem?_map,hit]
    rfl
  have early : (serializer.turns.map Turn.gate)[a]? = some other.gate := by
    rw [getElem?_map,here]
    rfl
  have opened := serial.ordered.turn gate (isFree_iff.mp free)
    (mem_singleton_self turn.chatId) pre early (mem_singleton.mpr same.symm)
  exact of_decide_eq_true opened

theorem single_note {one note : Note} {pre after : List Note} (same : [one] = pre ++ note :: after) :
    pre = [] ∧ one = note := by
  cases pre with
  | nil =>
    cases same
    exact ⟨rfl,rfl⟩
  | cons a pre =>
    rw [cons_append] at same
    have rest := (cons.inj same).2
    simp at rest

theorem inTurn_of_single (one : Note) (next : InTurn notes one) :
    ∀ pre note after, [one] = pre ++ note :: after → InTurn (notes ++ pre) note := by
  intro pre note after same
  obtain ⟨rfl,rfl⟩ := single_note same
  rw [append_nil]
  exact next

theorem inTurn_of_none : ∀ pre note after, ([] : List Note) = pre ++ note :: after →
    InTurn (notes ++ pre) note := by
  intro pre note after same
  simp at same

theorem Serial.starts (serial : Serial serializer notes)
    (hit : serializer.turns[number]? = some turn) (scheduled : turn.phase = .scheduled) :
    InTurn notes (.started number) := by
  have told := serial.told number turn hit
  have free := serial.free number turn hit (by rw [scheduled]; trivial)
  rw [scheduled] at told
  refine ⟨told.1,told.2.1,?_⟩
  intro a chatId asked pre mem
  obtain ⟨own,stood,chat⟩ := serial.called number chatId asked
  rw [hit] at stood
  cases stood
  obtain ⟨other,here,same⟩ := serial.called a chatId mem
  have released := serial.behind hit free pre here (same.trans chat.symm)
  have history := serial.told a other here
  rw [released] at history
  rcases history with ⟨withdrawn,_⟩ | ⟨_,started,settled⟩
  · exact .inl withdrawn
  · exact .inr ⟨started,settled⟩

theorem Serial.inTurn (serial : Serial serializer notes) (ev : Event) :
    ∀ pre note after, (effect ev serializer).2 = pre ++ note :: after → InTurn (notes ++ pre) note := by
  have onTurn (number : ℕ) (act : ℕ → Turn → Effect Serializer Note)
      (acts : ∀ turn, serializer.turns[number]? = some turn → ∀ pre note after,
        (act number turn serializer).2 = pre ++ note :: after → InTurn (notes ++ pre) note) :
      ∀ pre note after, (ChatTurn.onTurn number act serializer).2 = pre ++ note :: after →
        InTurn (notes ++ pre) note := by
    rw [ChatTurn.onTurn]
    split
    · exact inTurn_of_none
    next turn hit => exact acts turn hit
  cases ev with
  | call chatId aborted gen =>
    apply inTurn_of_single
    intro first other mem
    obtain ⟨turn,hit,_⟩ := serial.called first other mem
    exact (List.getElem?_eq_some_iff.mp hit).1
  | abort number =>
    apply onTurn
    intro turn hit
    rw [ChatTurn.abort]
    split
    · exact inTurn_of_none
    · split
      · exact inTurn_of_none
      all_goals try split
      all_goals first
        | exact inTurn_of_none
        | exact inTurn_of_single _ trivial
  | predecessorSettled number =>
    apply onTurn
    intro turn hit
    rw [ChatTurn.predecessorSettled]
    split
    · exact inTurn_of_none
    · exact inTurn_of_none
  | proceed number =>
    apply onTurn
    intro turn hit
    have told := serial.told number turn hit
    rw [ChatTurn.proceed]
    split
    next ended =>
      rw [ended] at told
      exact inTurn_of_single _ ⟨told.1,told.2.1⟩
    next acquired =>
      rw [acquired] at told
      split
      · exact inTurn_of_single _ ⟨told.1,told.2.1⟩
      · exact inTurn_of_none
    · exact inTurn_of_none
  | start number =>
    apply onTurn
    intro turn hit
    rw [ChatTurn.start]
    split
    next scheduled => exact inTurn_of_single _ (serial.starts hit scheduled)
    · exact inTurn_of_none
  | settle number =>
    apply onTurn
    intro turn hit
    have told := serial.told number turn hit
    rw [ChatTurn.settle]
    split
    next running =>
      rw [running] at told
      exact inTurn_of_single _ told.2
    · exact inTurn_of_none
  | release number =>
    apply onTurn
    intro turn hit
    rw [ChatTurn.release]
    split
    · split
      · exact inTurn_of_none
      · exact inTurn_of_none
    · simp only
      split
      · exact inTurn_of_none
      · exact inTurn_of_single _ trivial
    · exact inTurn_of_none
  | interruptGenerations chatId keepRunning =>
    intro pre note after same
    have mem : note ∈ (ChatTurn.interruptGenerations chatId keepRunning serializer).2 := by
      change (ChatTurn.interruptGenerations chatId keepRunning serializer).2 = _ at same
      rw [same]
      exact mem_append_right _ mem_cons_self
    obtain ⟨number,_,rfl⟩ := mem_map.mp mem
    trivial

theorem machine_inTurn (evs : List Event) : Lawful InTurn (machine.noted evs) := by
  induction evs using reverseRecOn with
  | nil => exact Lawful.nil
  | append_singleton evs ev ih =>
    rw [Machine.noted_snoc]
    exact ih.append ((machine_serial evs).inTurn ev)

def InFlight (notes : List Note) (number : ℕ) : Prop :=
  .started number ∈ notes ∧ .settled number ∉ notes

theorem Serial.inFlight (serial : Serial serializer notes)
    (hit : serializer.turns[number]? = some turn) (flies : InFlight notes number) :
    turn.phase = .running := by
  have told := serial.told number turn hit
  obtain ⟨started,unsettled⟩ := flies
  cases phase : turn.phase with
  | running => rfl
  | settled =>
    rw [phase] at told
    exact absurd told.2.2 unsettled
  | released =>
    rw [phase] at told
    rcases told with ⟨_,absent,_⟩ | ⟨_,_,settled⟩
    · exact absurd started absent
    · exact absurd settled unsettled
  | waiting =>
    rw [phase] at told
    exact absurd started told.2.1
  | waited acquired =>
    rw [phase] at told
    exact absurd started told.2.1
  | scheduled =>
    rw [phase] at told
    exact absurd started told.2.1
  | abandoned =>
    rw [phase] at told
    exact absurd started told.2.1

theorem Serial.not_before (serial : Serial serializer notes) {a : ℕ} {chatId : Text}
    (asked : .called a chatId ∈ notes) (mem : .called number chatId ∈ notes)
    (flies : InFlight notes a) (also : InFlight notes number) : ¬ a < number := by
  intro pre
  obtain ⟨other,here,own⟩ := serial.called a chatId asked
  obtain ⟨turn,hit,same⟩ := serial.called number chatId mem
  have free := serial.free number turn hit (by rw [serial.inFlight hit also]; trivial)
  have released := serial.behind hit free pre here (own.trans same.symm)
  rw [serial.inFlight here flies] at released
  cases released

theorem Serial.tail_removed (serial : Serial serializer notes) {chatId : Text}
    (ended : ∀ turn ∈ serializer.turns, turn.chatId = chatId → turn.phase = .released) :
    serializer.tails.get? chatId = none := by
  cases stands : serializer.tails.get? chatId with
  | none => rfl
  | some number =>
    obtain ⟨gate,hit,mem,closed,_⟩ := serial.ordered.last chatId number stands
    rw [getElem?_map] at hit
    obtain ⟨turn,here,rfl⟩ := map_eq_some_iff.mp hit
    have opened := decide_eq_true (ended turn (mem_of_getElem? here) (mem_singleton.mp mem).symm)
    rw [Turn.gate,opened] at closed
    cases closed

theorem Serial.drains (serial : Serial serializer notes) (idle : ∀ turn ∈ serializer.turns, turn.phase = .released ∨
      (turn.phase = .waiting ∨ turn.phase = .abandoned) ∧ serializer.isFree turn = false)
    (number : ℕ) : ∀ turn, serializer.turns[number]? = some turn → turn.phase = .released := by
  induction number using Nat.strongRecOn with
  | ind number ih =>
    intro turn hit
    rcases idle turn (mem_of_getElem? hit) with released | ⟨_,closed⟩
    · exact released
    · exfalso
      have free : serializer.isFree turn = true := by
        rw [isFree_iff]
        intro predecessor mem
        have gate : (serializer.turns.map Turn.gate)[number]? = some turn.gate := by
          rw [getElem?_map,hit]
          rfl
        have early := serial.ordered.earlier number turn.gate gate predecessor mem
        have bound := (List.getElem?_eq_some_iff.mp hit).1
        have here := getElem?_eq_getElem (show predecessor < serializer.turns.length by omega)
        exact opened_iff.mpr (isReleased_iff.mpr ⟨_,here,ih predecessor early _ here⟩)
      rw [free] at closed
      cases closed

/-- One operation of a chat is in flight at a time, they start in the order of their calls and not for
those who withdrew, and the chat's tail goes with its last turn. -/
theorem machine_chatTurns (events : List Event) :
    let serializer := machine.run events
    let notes := machine.noted events
    (∀ first second chatId, .called first chatId ∈ notes → .called second chatId ∈ notes →
      InFlight notes first → InFlight notes second → first = second) ∧
    Lawful InTurn notes ∧
    (∀ chatId, (∀ turn ∈ serializer.turns, turn.chatId = chatId → turn.phase = .released) →
      serializer.tails.get? chatId = none) ∧
    ((∀ turn ∈ serializer.turns, turn.phase = .released ∨
        (turn.phase = .waiting ∨ turn.phase = .abandoned) ∧ serializer.isFree turn = false) →
      ∀ turn ∈ serializer.turns, turn.phase = .released) := by
  intro serializer notes
  have serial := machine_serial events
  refine ⟨?_,machine_inTurn events,fun _ => serial.tail_removed,?_⟩
  · intro first second chatId asked member flies also
    apply Nat.le_antisymm
    · exact Nat.le_of_not_lt (serial.not_before member asked also flies)
    · exact Nat.le_of_not_lt (serial.not_before asked member flies also)
  · intro idle turn member
    obtain ⟨number,found⟩ := mem_iff_getElem?.mp member
    exact serial.drains idle number turn found

end Order

end Keiko.ChatTurn
