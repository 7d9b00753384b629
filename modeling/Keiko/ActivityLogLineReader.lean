import Keiko.ProcessLines

/-! Lines of an activity log that are read through one reused buffer. A line inside the buffer is
decoded there; what is left of a line is copied before the buffer is read again, and it is no longer
kept once it is over the bound. The lines are those of the file, however the reads cut it. -/
namespace Keiko.ActivityLogLineReader
open List
open Keiko.Library (Text)
open Keiko.ProcessLines (Bytes newline cut_newline)

section Reader

structure ActivityLogReadLine where
  text : Text
  terminated : Bool
  byteLength : ℕ
  oversized : Bool
  deriving DecidableEq

inductive Part where
  | copied (bytes : Bytes)
  | subarray (start stop : ℕ)

def subarray (view : Bytes) (start stop : ℕ) : Bytes := (view.drop start).take (stop - start)

def Part.read (view : Bytes) : Part → Bytes
  | .copied bytes => bytes
  | .subarray start stop => Keiko.ActivityLogLineReader.subarray view start stop

structure PendingLine where
  parts : List Part := []
  bytes : ℕ := 0
  discarded : Bool := false

structure Descriptor where
  file : Bytes
  chunkBytes : ℕ
  maxLineBytes : ℕ
  decode : Bytes → Text
  /-- One less than what a read at a position returns at most. -/
  short : ℕ → ℕ

structure DescriptorLineCursor where
  pending : PendingLine := {}
  position : ℕ := 0
  view : Option Bytes := none
  start : ℕ := 0
  closed : Bool := false

variable (descriptor : Descriptor)

def PendingLine.append (pending : PendingLine) (view : Bytes) (start stop : ℕ) (copy : Bool) : PendingLine :=
  let part := subarray view start stop
  if part.length = 0 then pending
  else if pending.discarded then { pending with bytes := pending.bytes + part.length }
  else if descriptor.maxLineBytes < pending.bytes + part.length then ⟨[],pending.bytes + part.length,true⟩
  else ⟨pending.parts ++ [if copy then .copied part else .subarray start stop],pending.bytes + part.length,false⟩

def PendingLine.joinedText (pending : PendingLine) (view : Bytes) : Text :=
  if pending.discarded then []
  else match pending.parts with
    | [] => []
    | parts => descriptor.decode (parts.flatMap (Part.read view))

def PendingLine.take (pending : PendingLine) (view : Bytes) (terminated : Bool) : ActivityLogReadLine :=
  ⟨pending.joinedText descriptor view,terminated,pending.bytes,pending.discarded⟩

def takeBufferedLine (cursor : DescriptorLineCursor) (view : Bytes) :
    Option ActivityLogReadLine × DescriptorLineCursor :=
  match (view.drop cursor.start).idxOf? newline with
  | none => (none,{ cursor with pending := cursor.pending.append descriptor view cursor.start view.length true })
  | some byteLength =>
    let line := cursor.start + byteLength
    if cursor.pending.bytes = 0 ∧ byteLength ≤ descriptor.maxLineBytes then
      (some ⟨descriptor.decode (subarray view cursor.start line),true,byteLength,false⟩,{ cursor with start := line + 1 })
    else
      let pending := cursor.pending.append descriptor view cursor.start line false
      (some (pending.take descriptor view true),{ cursor with pending := {}, start := line + 1 })

/-- The bytes that `readSync` puts into the buffer. -/
def readSync (position : ℕ) : Bytes :=
  (descriptor.file.drop position).take (min descriptor.chunkBytes (descriptor.short position + 1))

def readNextChunk (cursor : DescriptorLineCursor) : Option DescriptorLineCursor :=
  match readSync descriptor cursor.position with
  | [] => none
  | view => some { cursor with position := cursor.position + view.length, view := some view, start := 0 }

def takeTornTail (cursor : DescriptorLineCursor) : Option ActivityLogReadLine × DescriptorLineCursor :=
  if cursor.pending.bytes = 0 then (none,{ cursor with closed := true })
  else (some (cursor.pending.take descriptor (cursor.view.getD []) false),{ cursor with pending := {}, closed := true })

/-- The fuel bounds the reads of the loop. -/
def next : (fuel : ℕ) → DescriptorLineCursor → Option (Option ActivityLogReadLine × DescriptorLineCursor)
  | 0, _ => none
  | fuel + 1, cursor =>
    if cursor.closed then some (none,cursor)
    else
      let buffered := match cursor.view with
        | none => (none,cursor)
        | some view => takeBufferedLine descriptor cursor view
      match buffered with
      | (some line,cursor) => some (some line,cursor)
      | (none,cursor) =>
        match readNextChunk descriptor cursor with
        | none => some (takeTornTail descriptor cursor)
        | some cursor => next fuel cursor

def linesFrom : (fuel : ℕ) → DescriptorLineCursor → Option (List ActivityLogReadLine)
  | 0, _ => none
  | fuel + 1, cursor => do
    match ← next descriptor fuel cursor with
    | (none,_) => return []
    | (some line,cursor) => return line :: (← linesFrom fuel cursor)

def readDescriptorLines (fuel : ℕ) : Option (List ActivityLogReadLine) := linesFrom descriptor fuel {}

end Reader

section Lines

variable {descriptor : Descriptor} {pending : PendingLine} {view : Bytes} {held : Bytes}

def Descriptor.line (descriptor : Descriptor) (terminated : Bool) (bytes : Bytes) : ActivityLogReadLine :=
  ⟨if bytes.length ≤ descriptor.maxLineBytes then descriptor.decode bytes else [],terminated,bytes.length,
    descriptor.maxLineBytes < bytes.length⟩

def Descriptor.lines (descriptor : Descriptor) (file : Bytes) : List ActivityLogReadLine :=
  (file.splitOn newline).dropLast.map (descriptor.line true) ++
    ((file.splitOn newline).getLast?.toList.filter (· ≠ [])).map (descriptor.line false)

theorem Descriptor.lines_cons {bytes : Bytes} (unbroken : newline ∉ bytes) (rest : Bytes) :
    descriptor.lines (bytes ++ newline :: rest) = descriptor.line true bytes :: descriptor.lines rest := by
  have later := splitOn_ne_nil newline rest
  rw [lines,splitOn_append_cons_self,splitOn_eq_singleton unbroken,singleton_append,
    getLast?_cons_of_ne_nil later,dropLast_cons_of_ne_nil later,map_cons,cons_append,lines]

theorem Descriptor.lines_unbroken {bytes : Bytes} (unbroken : newline ∉ bytes) :
    descriptor.lines bytes = if bytes = [] then [] else [descriptor.line false bytes] := by
  rw [lines,splitOn_eq_singleton unbroken]
  by_cases empty : bytes = [] <;> simp [empty]

theorem Descriptor.sum_lines (file : Bytes) :
    ((descriptor.lines file).map ActivityLogReadLine.byteLength).sum + file.count newline = file.length := by
  induction size : file.length using Nat.strongRecOn generalizing file with
  | ind n ih =>
    obtain ⟨bytes,unbroken,rfl | ⟨rest,rfl⟩⟩ := cut_newline file
    · rw [lines_unbroken unbroken,count_eq_zero.mpr unbroken,← size]
      by_cases empty : file = [] <;> simp [empty,line]
    · have post := ih rest.length (by simp at size; omega) rest rfl
      rw [lines_cons unbroken,count_append,count_eq_zero.mpr unbroken,count_cons_self,map_cons,sum_cons,line]
      simp only [length_append,length_cons] at size ⊢
      omega

structure PendingLine.Holds (descriptor : Descriptor) (view : Bytes) (pending : PendingLine) (held : Bytes) : Prop where
  bytes : pending.bytes = held.length
  discarded : pending.discarded = decide (descriptor.maxLineBytes < held.length)
  parts : held.length ≤ descriptor.maxLineBytes → pending.parts.flatMap (Part.read view) = held

theorem PendingLine.Holds.append {now : Bytes} {start stop : ℕ} {copy : Bool} (holds : pending.Holds descriptor view held)
    (lasts : copy = true ∨ view = now) :
    (pending.append descriptor now start stop copy).Holds descriptor view (held ++ subarray now start stop) := by
  rw [PendingLine.append]
  generalize part : subarray now start stop = bytes
  have sized := holds.bytes
  split
  next empty =>
    rw [length_eq_zero_iff.mp empty,append_nil]
    exact holds
  next filled =>
    rw [holds.discarded]
    split
    next gone =>
      have gone := of_decide_eq_true gone
      refine ⟨by simp [sized],?_,fun small => ?_⟩
      · dsimp only
        rw [length_append,decide_eq_true gone,decide_eq_true (by omega)]
      · rw [length_append] at small
        omega
    next kept =>
      have kept : held.length ≤ descriptor.maxLineBytes := Nat.not_lt.mp fun gone => kept (decide_eq_true gone)
      rw [sized]
      split
      next large =>
        refine ⟨by simp,(decide_eq_true (by simpa using large)).symm,fun small => ?_⟩
        rw [length_append] at small
        omega
      next small =>
        refine ⟨by simp,(decide_eq_false (by simpa using small)).symm,fun _ => ?_⟩
        rw [flatMap_append,holds.parts kept,flatMap_singleton]
        congr 1
        rcases lasts with rfl | rfl
        · rfl
        · cases copy
          · exact part
          · rfl

theorem PendingLine.Holds.take (holds : pending.Holds descriptor view held) (filled : held ≠ []) (terminated : Bool) :
    pending.take descriptor view terminated = descriptor.line terminated held := by
  rw [PendingLine.take,joinedText,holds.bytes,holds.discarded,Descriptor.line]
  by_cases small : held.length ≤ descriptor.maxLineBytes
  · rw [if_neg (by simpa using small),if_pos small]
    have parts := holds.parts small
    cases known : pending.parts with
    | nil =>
      rw [known] at parts
      exact absurd parts.symm filled
    | cons part more =>
      rw [known] at parts
      rw [← parts]
  · rw [if_pos (decide_eq_true (Nat.not_le.mp small)),if_neg small]

end Lines

section Reading

variable {descriptor : Descriptor} {cursor : DescriptorLineCursor} {held : Bytes} {view behind front : Bytes}
  {fuel : ℕ}

/-- An open cursor whose pending part is free of newlines and lasts whatever the buffer holds next. -/
structure Pends (descriptor : Descriptor) (cursor : DescriptorLineCursor) (held : Bytes) : Prop where
  opened : cursor.closed = false
  unbroken : newline ∉ held
  holds : ∀ view, cursor.pending.Holds descriptor view held

def buffered (cursor : DescriptorLineCursor) : Bytes := (cursor.view.getD []).drop cursor.start

def remaining (descriptor : Descriptor) (cursor : DescriptorLineCursor) (held : Bytes) : Bytes :=
  held ++ (buffered cursor ++ descriptor.file.drop cursor.position)

theorem holds_nil (view : Bytes) : PendingLine.Holds descriptor view {} [] := ⟨rfl,by simp,fun _ => rfl⟩

theorem subarray_eq {start : ℕ} (same : view.drop start = front ++ behind) :
    subarray view start (start + front.length) = front := by
  rw [subarray,same,Nat.add_sub_cancel_left,take_left]

theorem takeBufferedLine_line (pends : Pends descriptor cursor held)
    (known : cursor.view = some view) (unbroken : newline ∉ front)
    (same : view.drop cursor.start = front ++ newline :: behind) :
    ∃ cursor', takeBufferedLine descriptor cursor view = (some (descriptor.line true (held ++ front)),cursor') ∧
      Pends descriptor cursor' [] ∧ remaining descriptor cursor' [] = behind ++ descriptor.file.drop cursor.position := by
  have at_newline : (view.drop cursor.start).idxOf? newline = some front.length := by
    rw [same]
    clear same
    induction front with
    | nil => simp [idxOf?_cons]
    | cons byte front ih =>
      rw [mem_cons,not_or] at unbroken
      simp [idxOf?_cons,Ne.symm unbroken.1,ih unbroken.2]
  have part := subarray_eq same
  have next : view.drop (cursor.start + front.length + 1) = behind := by
    rw [Nat.add_assoc,← drop_drop,same,← length_singleton (a := newline),← length_append]
    simp
  have left (pending : PendingLine) : remaining descriptor
      { cursor with pending, start := cursor.start + front.length + 1 } [] =
        behind ++ descriptor.file.drop cursor.position := by
    rw [remaining,nil_append,buffered]
    simp only [known,Option.getD_some,next]
  rw [takeBufferedLine,at_newline]
  dsimp only
  split
  next fast =>
    have empty : held = [] := length_eq_zero_iff.mp ((pends.holds view).bytes.symm.trans fast.1)
    subst empty
    refine ⟨{ cursor with start := cursor.start + front.length + 1 },?_,⟨pends.opened,not_mem_nil,pends.holds⟩,left _⟩
    rw [part,Descriptor.line,nil_append,if_pos fast.2,decide_eq_false (Nat.not_lt.mpr fast.2)]
  next slow =>
    have taken : (cursor.pending.append descriptor view cursor.start (cursor.start + front.length) false).Holds
        descriptor view (held ++ subarray view cursor.start _) := (pends.holds view).append (.inr rfl)
    rw [part] at taken
    refine ⟨{ cursor with pending := {}, start := cursor.start + front.length + 1 },?_,
      ⟨pends.opened,not_mem_nil,holds_nil⟩,left _⟩
    rw [taken.take]
    intro empty
    obtain ⟨rfl,rfl⟩ := append_eq_nil_iff.mp empty
    exact slow ⟨(pends.holds view).bytes,Nat.zero_le _⟩

/-- A line that goes on behind the buffer is copied, and the next read starts with an empty buffer. -/
theorem takeBufferedLine_none (pends : Pends descriptor cursor held) (known : cursor.view = some view)
    (unbroken : newline ∉ view.drop cursor.start) :
    ∃ pending, takeBufferedLine descriptor cursor view = (none,{ cursor with pending }) ∧
      Pends descriptor { cursor with pending } (held ++ buffered cursor) := by
  rw [takeBufferedLine,idxOf?_eq_none_iff.mpr unbroken]
  refine ⟨_,rfl,pends.opened,?_,fun other => ?_⟩
  · rw [buffered,known,Option.getD_some,mem_append,not_or]
    exact ⟨pends.unbroken,unbroken⟩
  · have whole : buffered cursor = subarray view cursor.start view.length := by
      rw [buffered,known,Option.getD_some,subarray,take_of_length_le (by simp)]
    rw [whole]
    exact (pends.holds other).append (.inl rfl)

inductive Yields (descriptor : Descriptor) (text : Bytes) : Option ActivityLogReadLine × DescriptorLineCursor → Prop where
  | line {bytes rest : Bytes} {cursor : DescriptorLineCursor} : newline ∉ bytes → text = bytes ++ newline :: rest →
      Pends descriptor cursor [] → remaining descriptor cursor [] = rest →
      Yields descriptor text (some (descriptor.line true bytes),cursor)
  | tail {cursor : DescriptorLineCursor} : newline ∉ text → text ≠ [] → cursor.closed = true →
      Yields descriptor text (some (descriptor.line false text),cursor)
  | ended {cursor : DescriptorLineCursor} : text = [] → Yields descriptor text (none,cursor)

theorem next_yields (some_chunk : 0 < descriptor.chunkBytes) (pends : Pends descriptor cursor held)
    (enough : (descriptor.file.drop cursor.position).length < fuel) :
    ∃ yielded, next descriptor fuel cursor = some yielded ∧ Yields descriptor (remaining descriptor cursor held) yielded := by
  induction fuel generalizing cursor held with
  | zero => exact absurd enough (Nat.not_lt_zero _)
  | succ fuel ih =>
    -- without a newline in the buffer the loop reads on, with all of the buffer pending
    have reads (pending : PendingLine) (pends : Pends descriptor { cursor with pending } (held ++ buffered cursor)) :
        ∃ yielded, (match readNextChunk descriptor { cursor with pending } with
          | none => some (takeTornTail descriptor { cursor with pending })
          | some cursor => next descriptor fuel cursor) = some yielded ∧
        Yields descriptor (remaining descriptor cursor held) yielded := by
      rw [remaining,← append_assoc,readNextChunk]
      have cut := take_append_drop (min descriptor.chunkBytes (descriptor.short cursor.position + 1))
        (descriptor.file.drop cursor.position)
      cases got : readSync descriptor cursor.position with
      | nil =>
        rw [readSync,take_eq_nil_iff] at got
        have done : descriptor.file.drop cursor.position = [] := got.resolve_left (by omega)
        refine ⟨_,rfl,?_⟩
        rw [done,append_nil,takeTornTail]
        split
        next none_left =>
          exact .ended (length_eq_zero_iff.mp ((pends.holds []).bytes.symm.trans none_left))
        next some_left =>
          have filled : held ++ buffered cursor ≠ [] := fun empty => some_left ((pends.holds []).bytes.trans (by rw [empty]; rfl))
          rw [(pends.holds _).take filled]
          exact .tail pends.unbroken filled rfl
      | cons byte bytes =>
        rw [readSync] at got
        rw [got] at cut
        have shorter : (descriptor.file.drop (cursor.position + (byte :: bytes).length)).length < fuel := by
          rw [← drop_drop,← cut,drop_left]
          rw [← cut,length_append,length_cons] at enough
          omega
        have pends : Pends descriptor { cursor with
            pending
            position := cursor.position + (byte :: bytes).length
            view := some (byte :: bytes)
            start := 0 } (held ++ buffered cursor) := ⟨pends.opened,pends.unbroken,pends.holds⟩
        obtain ⟨yielded,same,yields⟩ := ih pends shorter
        refine ⟨yielded,same,?_⟩
        change Yields descriptor (held ++ buffered cursor ++
          (byte :: bytes ++ descriptor.file.drop (cursor.position + (byte :: bytes).length))) yielded at yields
        rw [← drop_drop,← cut,drop_left] at yields
        rw [← cut]
        exact yields
    rw [next,if_neg (by simp [pends.opened])]
    cases known : cursor.view with
    | none =>
      have empty : buffered cursor = [] := by simp [buffered,known]
      exact reads cursor.pending ⟨pends.opened,by simpa [empty] using pends.unbroken,by simpa [empty] using pends.holds⟩
    | some view =>
      obtain ⟨front,unbroken,same | ⟨behind,same⟩⟩ := cut_newline (view.drop cursor.start)
      · obtain ⟨pending,taken,pends⟩ := takeBufferedLine_none pends known (same ▸ unbroken)
        dsimp only
        rw [taken]
        exact reads _ pends
      · obtain ⟨cursor',taken,open_still,left⟩ := takeBufferedLine_line pends known unbroken same
        dsimp only
        rw [taken]
        refine ⟨_,rfl,.line (by simp [pends.unbroken,unbroken]) ?_ open_still left⟩
        rw [remaining,buffered,known,Option.getD_some,same]
        simp

theorem linesFrom_eq (some_chunk : 0 < descriptor.chunkBytes) (pends : Pends descriptor cursor held)
    (enough : (remaining descriptor cursor held).length + 1 < fuel) :
    linesFrom descriptor fuel cursor = some (descriptor.lines (remaining descriptor cursor held)) := by
  induction fuel generalizing cursor held with
  | zero => exact absurd enough (Nat.not_lt_zero _)
  | succ fuel ih =>
    have unread : (descriptor.file.drop cursor.position).length < fuel := by
      rw [remaining,length_append,length_append] at enough
      omega
    obtain ⟨yielded,same,yields⟩ := next_yields some_chunk pends unread
    rw [linesFrom,same]
    cases yields with
    | line unbroken here open_still left =>
      rw [here,Descriptor.lines_cons unbroken,← left]
      rw [here,← left,length_append,length_cons] at enough
      change (do return _ :: (← linesFrom descriptor fuel _)) = _
      rw [ih open_still (by omega)]
      rfl
    | tail unbroken filled closed =>
      rw [Descriptor.lines_unbroken unbroken,if_neg filled]
      have positive := length_pos_iff.mpr filled
      obtain ⟨fuel,rfl⟩ : ∃ more, fuel = more + 2 := ⟨fuel - 2,by omega⟩
      change (do return _ :: (← linesFrom descriptor (fuel + 2) _)) = _
      rw [linesFrom,next,if_pos closed]
      rfl
    | ended empty =>
      rw [empty]
      rfl

theorem readDescriptorLines_eq (some_chunk : 0 < descriptor.chunkBytes) {fuel : ℕ}
    (enough : descriptor.file.length + 1 < fuel) :
    readDescriptorLines descriptor fuel = some (descriptor.lines descriptor.file) ∧
      ((descriptor.lines descriptor.file).map ActivityLogReadLine.byteLength).sum + descriptor.file.count newline =
        descriptor.file.length :=
  ⟨linesFrom_eq some_chunk ⟨rfl,not_mem_nil,holds_nil⟩ enough,Descriptor.sum_lines _⟩

/-- A buffer of two bytes, of which every other read fills only one. -/
def smallReads : Descriptor where
  file := [97,newline,98,99,100,101,newline,newline,102]
  chunkBytes := 2
  maxLineBytes := 3
  decode bytes := bytes.map fun byte => Char.ofNat byte.toNat
  short position := position % 2

theorem readDescriptorLines_eq_small :
    readDescriptorLines smallReads 11 = some (smallReads.lines smallReads.file) ∧
      ((smallReads.lines smallReads.file).map ActivityLogReadLine.byteLength).sum + smallReads.file.count newline =
        smallReads.file.length :=
  readDescriptorLines_eq (by decide) (by decide)

/-- A buffer without room reads nothing, and the file seems to be at its end. -/
theorem readDescriptorLines_no_chunk :
    readDescriptorLines { smallReads with chunkBytes := 0 } 11 = some [] ∧
      smallReads.lines smallReads.file ≠ [] := by
  decide

end Reading

end Keiko.ActivityLogLineReader
