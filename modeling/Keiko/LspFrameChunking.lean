import Keiko.LspFrame
import Mathlib.Data.List.TakeWhile

/-! Reading frames chunk by chunk. The frames of a stream are those of its bytes; a reader that
is given the stream in pieces finds the same ones, as long as no piece ends inside a
terminator that begins behind a frame, nor far inside a header that is still to be closed. -/
namespace Keiko.Lsp
open Keiko.Library List Option

section Frames

variable (limit : Nat) (opts : LspFrameReaderOptions)

inductive Frames : LspBytes → List LspBytes → LspBytes → Prop where
  | rest (bytes : LspBytes) : Frames bytes [] bytes
  | frame {header body bytes rest : LspBytes} {bodies : List LspBytes}
      (terminated : Search.indexOf headerDelimiter (header ++ headerDelimiter) = some header.length)
      (declared : readContentLength (toAscii header) opts.rejectDuplicateContentLength = some body.length)
      (small : body.length ≤ limit) (later : Frames bytes bodies rest) :
      Frames (header ++ (headerDelimiter ++ (body ++ bytes))) (body :: bodies) rest

def frames (bytes : LspBytes) : Drained := drainLoop limit opts bytes.length bytes

variable {limit opts} {bytes rest header body : LspBytes} {bodies : List LspBytes}

theorem Frames.trans {others : List LspBytes} {last : LspBytes} (a : Frames limit opts bytes bodies rest)
    (b : Frames limit opts rest others last) :
    Frames limit opts bytes (bodies ++ others) last := by
  induction a with
  | rest => exact b
  | frame terminated declared small _ ih => exact .frame terminated declared small (ih b)

theorem Frames.append (more : LspBytes) (a : Frames limit opts bytes bodies rest) :
    Frames limit opts (bytes ++ more) bodies (rest ++ more) := by
  induction a with
  | rest => exact .rest _
  | frame terminated declared small _ ih =>
    simp only [append_assoc]
    exact .frame terminated declared small ih

theorem Frames.eq_of_nil (none_complete : Frames limit opts bytes [] rest) : rest = bytes := by
  cases none_complete
  rfl

theorem Frames.length_le (a : Frames limit opts bytes bodies rest) : rest.length ≤ bytes.length := by
  induction a with
  | rest => exact le_refl _
  | frame _ _ _ _ ih =>
    simp only [length_append]
    omega

end Frames

section Take

variable {limit : Nat} {opts : LspFrameReaderOptions} {buf header body bytes : LspBytes}

theorem parseHeader_eq {i : Nat} (hit : Search.indexOf headerDelimiter buf = some i) :
    parseHeader buf opts =
      (readContentLength (toAscii (buf.take i)) opts.rejectDuplicateContentLength).map
        fun contentLength => ⟨contentLength,i + headerDelimiter.length⟩ := by
  unfold parseHeader
  rw [hit,bind_eq_bind,bind_some]
  cases readContentLength (toAscii (buf.take i)) opts.rejectDuplicateContentLength <;> rfl

theorem parseHeader_append (more : LspBytes) (hit : Search.includes headerDelimiter buf = true) :
    parseHeader (buf ++ more) opts = parseHeader buf opts := by
  obtain ⟨i,place⟩ := isSome_iff_exists.mp hit
  have mem := Search.length_le_of_indexOf place
  rw [parseHeader_eq place,parseHeader_eq (Search.indexOf_append more place),take_append_of_le_length (by omega)]

theorem takeFrame_error_append (more : LspBytes) {reason : LspFrameRejectReason}
    (hit : Search.includes headerDelimiter buf = true)
    (refused : takeFrame limit opts buf = .error reason) :
    takeFrame limit opts (buf ++ more) = .error reason := by
  unfold takeFrame at refused ⊢
  rw [parseHeader_append more hit]
  cases parsed : parseHeader buf opts with
  | none =>
    rw [parsed] at refused
    exact refused
  | some header =>
    rw [parsed] at refused
    simp only at refused ⊢
    split at refused
    case isTrue large =>
      rw [if_pos large]
      exact refused
    case isFalse => split at refused <;> contradiction

theorem indexOf_terminated (more : LspBytes)
    (terminated : Search.indexOf headerDelimiter (header ++ headerDelimiter) = some header.length) :
    Search.indexOf headerDelimiter (header ++ (headerDelimiter ++ more)) = some header.length := by
  rw [← append_assoc]
  exact Search.indexOf_append more terminated

theorem takeFrame_frame (terminated : Search.indexOf headerDelimiter (header ++ headerDelimiter) = some header.length)
    (declared : readContentLength (toAscii header) opts.rejectDuplicateContentLength =
      some body.length) (small : body.length ≤ limit) :
    takeFrame limit opts (header ++ (headerDelimiter ++ (body ++ bytes))) = .ok (some ⟨body,bytes⟩) := by
  unfold takeFrame
  rw [parseHeader_eq (indexOf_terminated _ terminated),take_left,declared,map_some]
  have behind : (header ++ (headerDelimiter ++ (body ++ bytes))).drop
      (header.length + headerDelimiter.length) = body ++ bytes := by
    rw [← append_assoc,← length_append,drop_left]
  have enough : ¬ (header ++ (headerDelimiter ++ (body ++ bytes))).length <
      header.length + headerDelimiter.length + body.length := by
    simp only [length_append]
    omega
  have past : (header ++ (headerDelimiter ++ (body ++ bytes))).drop
      (header.length + headerDelimiter.length + body.length) = bytes := by
    rw [← drop_drop,behind,drop_left]
  simp only [if_neg (Nat.not_lt.mpr small),if_neg enough]
  rw [behind,past,take_left]

theorem takeFrame_some {frame : TakenFrame} (hit : Search.includes headerDelimiter buf = true)
    (taken : takeFrame limit opts buf = .ok (some frame)) :
    ∃ header, buf = header ++ (headerDelimiter ++ (frame.body ++ frame.rest)) ∧
      Search.indexOf headerDelimiter (header ++ headerDelimiter) = some header.length ∧
      readContentLength (toAscii header) opts.rejectDuplicateContentLength =
        some frame.body.length ∧ frame.body.length ≤ limit := by
  obtain ⟨i,place⟩ := isSome_iff_exists.mp hit
  unfold takeFrame at taken
  rw [parseHeader_eq place] at taken
  cases declared : readContentLength (toAscii (buf.take i)) opts.rejectDuplicateContentLength with
  | none =>
    rw [declared] at taken
    contradiction
  | some contentLength =>
    rw [declared,map_some] at taken
    simp only at taken
    split at taken
    case isTrue => contradiction
    case isFalse small =>
      split at taken
      case isTrue => cases taken
      case isFalse enough =>
        obtain ⟨mem,⟨after,delimited⟩,none_before⟩ := Search.indexOf_eq_some.mp place
        cases taken
        have length : ((buf.drop (i + headerDelimiter.length)).take contentLength).length =
            contentLength := by
          rw [length_take,length_drop]
          omega
        refine ⟨buf.take i,?_,?_,?_,?_⟩
        · have cut : buf.drop i = headerDelimiter ++ buf.drop (i + headerDelimiter.length) := by
            rw [← drop_drop,← delimited,drop_left]
          have rest : (buf.drop (i + headerDelimiter.length)).take contentLength ++
              buf.drop (i + headerDelimiter.length + contentLength) =
              buf.drop (i + headerDelimiter.length) := by
            have whole := take_append_drop contentLength (buf.drop (i + headerDelimiter.length))
            rwa [drop_drop] at whole
          dsimp only
          rw [rest,← cut,take_append_drop]
        · have start : buf.take i ++ headerDelimiter ++ after = buf := by
            rw [append_assoc,delimited,take_append_drop]
          rw [length_take,Nat.min_eq_left mem]
          apply Search.indexOf_eq_some.mpr
          have width : (buf.take i).length = i := by
            rw [length_take,Nat.min_eq_left mem]
          refine ⟨by simp [width],?_,?_⟩
          · rw [drop_append,width,Nat.sub_self,drop_eq_nil_of_le (by omega)]
            exact prefix_refl _
          · intro early less starts
            apply none_before early less
            rw [← start,drop_append_of_le_length (by simp [width]; omega)]
            exact starts.trans (prefix_append _ _)
        · rw [length]
          exact declared
        · rw [length]
          exact Nat.not_lt.mp small

end Take

section Drain

variable {limit : Nat} {opts : LspFrameReaderOptions} {bytes rest : LspBytes} {bodies : List LspBytes}

theorem takeFrame_shorter {frame : TakenFrame} (hit : Search.includes headerDelimiter bytes = true)
    (taken : takeFrame limit opts bytes = .ok (some frame)) :
    frame.rest.length < bytes.length := by
  obtain ⟨header,split,_⟩ := takeFrame_some hit taken
  have delimiter : headerDelimiter.length = 4 := rfl
  have size := congrArg length split
  simp only [length_append] at size
  omega

theorem drainLoop_enough {turns turns' : Nat} (enough : bytes.length ≤ turns) (enough' : bytes.length ≤ turns') :
    drainLoop limit opts turns bytes = drainLoop limit opts turns' bytes := by
  induction turns generalizing turns' bytes with
  | zero =>
    obtain rfl := eq_nil_of_length_eq_zero (Nat.le_zero.mp enough)
    cases turns' <;> rfl
  | succ turns ih =>
    cases turns' with
    | zero =>
      obtain rfl := eq_nil_of_length_eq_zero (Nat.le_zero.mp enough')
      rfl
    | succ turns' =>
      unfold drainLoop
      cases found : Search.includes headerDelimiter bytes with
      | false => rfl
      | true =>
        cases taken : takeFrame limit opts bytes with
        | error reason => rfl
        | ok frame =>
          cases frame with
          | none => rfl
          | some frame =>
            have shorter := takeFrame_shorter found taken
            have same : drainLoop limit opts turns frame.rest =
              drainLoop limit opts turns' frame.rest := ih (by omega) (by omega)
            simp only [Bool.not_true,Bool.false_eq_true,if_false,same]

theorem frames_absent (absent : Search.includes headerDelimiter bytes = false) :
    frames limit opts bytes = ⟨[],bytes,guardHeaderBoundBytes false bytes.length⟩ := by
  unfold frames
  cases bytes with
  | nil => rfl
  | cons byte bytes => simp only [length_cons,drainLoop,absent,Bool.not_false,if_true]

theorem frames_found (hit : Search.includes headerDelimiter bytes = true) : frames limit opts bytes =
      match takeFrame limit opts bytes with
      | .error reason => ⟨[],bytes,some reason⟩
      | .ok none => ⟨[],bytes,none⟩
      | .ok (some frame) =>
        {frames limit opts frame.rest with
          bodies := frame.body :: (frames limit opts frame.rest).bodies} := by
  cases taken : takeFrame limit opts bytes with
  | error reason =>
    cases bytes with
    | nil => cases hit
    | cons byte bytes =>
      unfold frames
      simp only [length_cons,drainLoop,hit,taken,Bool.not_true,Bool.false_eq_true,if_false]
  | ok frame =>
    cases bytes with
    | nil => cases hit
    | cons byte bytes =>
      unfold frames
      cases frame with
      | none =>
        simp only [length_cons,drainLoop,hit,taken,Bool.not_true,Bool.false_eq_true,if_false]
      | some frame =>
        have shorter := takeFrame_shorter hit taken
        simp only [length_cons,drainLoop,hit,taken,Bool.not_true,Bool.false_eq_true,if_false]
        rw [drainLoop_enough (Nat.lt_succ_iff.mp shorter) (le_refl _)]

theorem includes_frame {header body : LspBytes}
    (terminated : Search.indexOf headerDelimiter (header ++ headerDelimiter) = some header.length) :
    Search.includes headerDelimiter (header ++ (headerDelimiter ++ (body ++ bytes))) = true :=
  isSome_iff_exists.mpr ⟨_,indexOf_terminated _ terminated⟩

theorem frames_of_Frames (a : Frames limit opts bytes bodies rest) : frames limit opts bytes =
      {frames limit opts rest with
        bodies := bodies ++ (frames limit opts rest).bodies} := by
  induction a with
  | rest => rfl
  | frame terminated declared small _ ih =>
    rw [frames_found (includes_frame terminated),takeFrame_frame terminated declared small]
    dsimp only
    rw [ih]
    rfl

theorem frames_spec (limit : Nat) (opts : LspFrameReaderOptions) (bytes : LspBytes) :
    Frames limit opts bytes (frames limit opts bytes).bodies
        (frames limit opts bytes).cursor ∧
      frames limit opts (frames limit opts bytes).cursor =
        ⟨[],(frames limit opts bytes).cursor,(frames limit opts bytes).rejected⟩ := by
  induction size : bytes.length using Nat.strong_induction_on generalizing bytes with
  | _ size ih =>
    cases hit : Search.includes headerDelimiter bytes with
    | false =>
      have stops := @frames_absent limit opts bytes hit
      rw [stops]
      exact ⟨.rest bytes,stops⟩
    | true =>
      have stops := @frames_found limit opts bytes hit
      cases taken : takeFrame limit opts bytes with
      | error reason =>
        rw [taken] at stops
        rw [stops]
        exact ⟨.rest bytes,stops⟩
      | ok frame =>
        cases frame with
        | none =>
          rw [taken] at stops
          rw [stops]
          exact ⟨.rest bytes,stops⟩
        | some frame =>
          rw [taken] at stops
          obtain ⟨post,again⟩ := ih frame.rest.length (size ▸ takeFrame_shorter hit taken) frame.rest rfl
          obtain ⟨header,split,terminated,declared,small⟩ := takeFrame_some hit taken
          rw [stops]
          refine ⟨?_,again⟩
          rw [split]
          exact .frame terminated declared small post

end Drain

section Held

/-- What the pending buffer knows of the bytes it holds. While no terminator is known, the
bytes after the last reset were scanned, and none begins before them. -/
structure Scanned (pending : PendingBuffer) (rest future : LspBytes) : Prop where
  holds : pending.chunks.flatten = rest
  total : pending.totalBytes = rest.length
  found : pending.delimiterFound = Search.includes headerDelimiter rest
  tail : pending.delimiterFound = false → ∃ base since, rest = base ++ since ∧
    pending.tail = since.drop (since.length - delimiterOverlap) ∧
    ∀ index, Search.indexOf headerDelimiter (rest ++ future) = some index → base.length ≤ index

variable {limit : Nat} {opts : LspFrameReaderOptions} {pending : PendingBuffer}
  {rest chunk future : LspBytes}

theorem Scanned.create : Scanned .create [] future :=
  ⟨rfl,rfl,rfl,fun _ => ⟨[],[],rfl,rfl,fun _ _ => Nat.zero_le _⟩⟩

theorem drop_window (since chunk : LspBytes) (kept : Nat) : ((since.drop (since.length - kept) ++ chunk).drop
        ((since.drop (since.length - kept) ++ chunk).length - kept)) =
      (since ++ chunk).drop ((since ++ chunk).length - kept) := by
  have split : since ++ chunk = since.take (since.length - kept) ++ (since.drop (since.length - kept) ++ chunk) := by
    rw [← append_assoc,take_append_drop]
  have width : (since.take (since.length - kept)).length = since.length - kept := by
    rw [length_take]
    omega
  have whole := congrArg length split
  rw [length_append,length_append,width] at whole
  have place : (since ++ chunk).length - kept = (since.take (since.length - kept)).length +
      ((since.drop (since.length - kept) ++ chunk).length - kept) := by
    rw [width,length_append,length_append,length_drop]
    omega
  rw [place]
  conv_rhs => rw [split,← drop_drop,drop_left]

theorem Scanned.push (scanned : Scanned pending rest (chunk ++ future)) :
    Scanned (pending.push chunk) (rest ++ chunk) future := by
  have chunks : (pending.chunks ++ [chunk]).flatten = rest ++ chunk := by
    rw [flatten_append,scanned.holds,flatten_singleton]
  have total : pending.totalBytes + chunk.length = (rest ++ chunk).length := by
    rw [scanned.total,length_append]
  cases known : pending.delimiterFound with
  | true =>
    have mem : Search.includes headerDelimiter rest = true := scanned.found ▸ known
    have grown := Search.includes_append chunk mem
    unfold PendingBuffer.push PendingBuffer.scanIncoming
    dsimp only
    split
    · exact ⟨chunks,total,grown.symm,by simp⟩
    · exact ⟨chunks,total,by rw [grown]; exact known,by simp [known]⟩
  | false =>
    have absent : Search.includes headerDelimiter rest = false := scanned.found ▸ known
    obtain ⟨base,since,split,tail,past⟩ := scanned.tail known
    -- No terminator begins in the base, so the scan of what followed it sees any there is.
    have late : ∀ i, Search.indexOf headerDelimiter (base ++ (since ++ chunk)) = some i →
        base.length ≤ i := by
      intro i place
      apply past i
      rw [split,← append_assoc,append_assoc base]
      exact Search.indexOf_append future place
    have unseen : Search.includes headerDelimiter since = false := by
      by_contra seen
      have mem := Search.includes_append_right base (Bool.not_eq_false _ ▸ seen)
      rw [← split,absent] at mem
      contradiction
    have window : Search.includes headerDelimiter (rest ++ chunk) =
        Search.includes headerDelimiter (pending.tail ++ chunk) := by
      rw [split,append_assoc,Search.includes_past late,tail]
      exact Search.includes_overlap unseen (by decide)
    unfold PendingBuffer.push PendingBuffer.scanIncoming
    dsimp only
    split
    case isTrue seen => exact ⟨chunks,total,by rw [window,seen],by simp⟩
    case isFalse still =>
      refine ⟨chunks,total,?_,?_⟩
      · rw [window,eq_false_of_ne_true still]
        exact known
      · intro _
        refine ⟨base,since ++ chunk,by rw [split,append_assoc],?_,?_⟩
        · rw [tail]
          exact drop_window since chunk delimiterOverlap
        · rw [append_assoc]
          exact past

theorem Scanned.coalesce (scanned : Scanned pending rest future) : pending.coalesce = rest := by
  unfold PendingBuffer.coalesce
  rw [scanned.holds,scanned.total,take_length]

theorem drainFrames_eq (scanned : Scanned pending rest future) :
    (drainFrames limit opts pending).bodies = (frames limit opts rest).bodies ∧
      (drainFrames limit opts pending).rejected = (frames limit opts rest).rejected ∧
      (drainFrames limit opts pending).pending = if Search.includes headerDelimiter rest then
          PendingBuffer.reset (frames limit opts rest).cursor
        else pending := by
  unfold drainFrames
  rw [scanned.found,scanned.total,scanned.coalesce]
  cases found : Search.includes headerDelimiter rest with
  | true => exact ⟨rfl,rfl,rfl⟩
  | false =>
    rw [frames_absent found]
    cases refused : guardHeaderBoundBytes false rest.length with
    | some reason => exact ⟨rfl,rfl,rfl⟩
    | none => exact ⟨rfl,rfl,rfl⟩

theorem cursor_lt (waiting : frames limit opts rest = ⟨[],rest,none⟩)
    {bodies : List LspBytes} {cursor : LspBytes}
    (first : Frames limit opts (rest ++ chunk) bodies cursor) (some_body : bodies ≠ []) :
    cursor.length < chunk.length := by
  obtain ⟨bytes,whole⟩ : ∃ bytes, bytes = rest ++ chunk := ⟨_,rfl⟩
  rw [← whole] at first
  cases first with
  | rest => contradiction
  | @frame header body post _ _ terminated declared small after =>
    by_contra long
    have shorter := after.length_le
    have size := congrArg length whole
    simp only [length_append] at size
    have mem : header ++ (headerDelimiter ++ body) <+: rest := by
      apply @Search.prefix_of_append _ rest chunk
      · rw [← whole]
        exact ⟨post,by simp only [append_assoc]⟩
      · simp only [length_append]
        omega
    obtain ⟨others,split⟩ := mem
    rw [← split,append_assoc,append_assoc] at waiting
    rw [frames_found (includes_frame terminated),takeFrame_frame terminated declared small] at waiting
    simp at waiting

end Held

section Run

/-- How a stream may be cut: not inside a terminator that begins behind a frame in the same
chunk, and not past the bound of a header that is well formed when it is closed. -/
structure WellCut (limit : Nat) (opts : LspFrameReaderOptions)
    (chunks : List LspBytes) : Prop where
  terminators : ∀ before chunk after bodies rest, chunks = before ++ chunk :: after →
    Frames limit opts (before.flatten ++ chunk) bodies rest → bodies ≠ [] →
    rest.length < chunk.length → Search.includes headerDelimiter rest = false →
    ∀ index, Search.indexOf headerDelimiter (rest ++ after.flatten) = some index → rest.length ≤ index
  headers : ∀ before after bodies rest, chunks = before ++ after →
    Frames limit opts before.flatten bodies rest →
    Search.includes headerDelimiter rest = false → maxHeaderBytes < rest.length →
    ∀ index, Search.indexOf headerDelimiter (rest ++ after.flatten) = some index →
      readContentLength (toAscii ((rest ++ after.flatten).take index)) opts.rejectDuplicateContentLength = none

def finish (opts : LspFrameReaderOptions) (drained : Drained) : ReadResult :=
  ⟨drained.bodies,match drained.rejected with
    | some reason => .rejected reason
    | none => atEnd opts drained.cursor.length⟩

variable {limit : Nat} {opts : LspFrameReaderOptions} {pending : PendingBuffer}
  {rest chunk future : LspBytes} {before chunks : List LspBytes} {bodies : List LspBytes}

theorem frames_rejected {reason : LspFrameRejectReason}
    (stops : frames limit opts rest = ⟨[],rest,some reason⟩)
    (overlong : Search.includes headerDelimiter rest = false → maxHeaderBytes < rest.length →
      ∀ i, Search.indexOf headerDelimiter (rest ++ future) = some i →
        readContentLength (toAscii ((rest ++ future).take i)) opts.rejectDuplicateContentLength = none) :
    (frames limit opts (rest ++ future)).bodies = [] ∧
      (frames limit opts (rest ++ future)).rejected = some reason := by
  cases hit : Search.includes headerDelimiter rest with
  | true =>
    rw [frames_found hit] at stops
    cases taken : takeFrame limit opts rest with
    | error refusal =>
      rw [taken] at stops
      rw [frames_found (Search.includes_append future hit),takeFrame_error_append future hit taken]
      simpa using stops
    | ok frame =>
      rw [taken] at stops
      cases frame <;> simp at stops
  | false =>
    rw [frames_absent hit] at stops
    have refused : guardHeaderBoundBytes false rest.length = some reason :=
      congrArg Drained.rejected stops
    have bound : rest.length > maxHeaderBytes ∧ reason = .malformedHeader := by
      unfold guardHeaderBoundBytes at refused
      split at refused
      case isTrue long => exact ⟨by simpa using long,(some.inj refused).symm⟩
      case isFalse => contradiction
    cases post : Search.indexOf headerDelimiter (rest ++ future) with
    | none =>
      rw [frames_absent (Search.includes_eq_false.mpr post)]
      refine ⟨rfl,?_⟩
      unfold guardHeaderBoundBytes
      rw [if_pos (by simp; omega),bound.2]
    | some i =>
      rw [frames_found (isSome_iff_exists.mpr ⟨i,post⟩)]
      have refuses : takeFrame limit opts (rest ++ future) = .error .malformedHeader := by
        unfold takeFrame
        rw [parseHeader_eq post,overlong hit bound.1 i post]
        rfl
      rw [refuses,bound.2]
      exact ⟨rfl,rfl⟩

theorem scanned_drain (cut : WellCut limit opts (before ++ chunk :: chunks))
    (sofar : Frames limit opts before.flatten bodies rest)
    (scanned : Scanned (pending.push chunk) (rest ++ chunk) chunks.flatten)
    (waiting : frames limit opts rest = ⟨[],rest,none⟩) :
    Scanned (drainFrames limit opts (pending.push chunk)).pending
      (frames limit opts (rest ++ chunk)).cursor chunks.flatten := by
  obtain ⟨_,_,left⟩ := @drainFrames_eq limit opts _ _ _ scanned
  obtain ⟨taken,_⟩ := frames_spec limit opts (rest ++ chunk)
  rw [left]
  cases hit : Search.includes headerDelimiter (rest ++ chunk) with
  | false =>
    rw [frames_absent hit,if_neg Bool.false_ne_true]
    exact scanned
  | true =>
    rw [if_pos rfl]
    refine ⟨flatten_singleton,rfl,rfl,?_⟩
    intro absent
    have absent : Search.includes headerDelimiter
      (frames limit opts (rest ++ chunk)).cursor = false := absent
    refine ⟨_,[],(append_nil _).symm,rfl,?_⟩
    have some_body : (frames limit opts (rest ++ chunk)).bodies ≠ [] := by
      intro no_body
      rw [no_body] at taken
      rw [taken.eq_of_nil,hit] at absent
      contradiction
    apply cut.terminators before chunk chunks _ _ rfl (sofar.append chunk |>.trans taken)
    · simp [some_body]
    · exact cursor_lt waiting taken some_body
    · exact absent

theorem readChunks_eq (cut : WellCut limit opts (before ++ chunks))
    (sofar : Frames limit opts before.flatten bodies rest)
    (scanned : Scanned pending rest chunks.flatten)
    (waiting : frames limit opts rest = ⟨[],rest,none⟩) :
    readChunks limit opts pending chunks =
      finish opts (frames limit opts (rest ++ chunks.flatten)) := by
  induction chunks generalizing before pending rest bodies with
  | nil =>
    rw [flatten_nil,append_nil,waiting,readChunks,scanned.total]
    rfl
  | cons chunk chunks ih =>
    have pushed := scanned.push
    obtain ⟨yields,refuses,_⟩ := @drainFrames_eq limit opts _ _ _ pushed
    obtain ⟨taken,again⟩ := frames_spec limit opts (rest ++ chunk)
    have reached := sofar.append chunk |>.trans taken
    have leftover := scanned_drain cut sofar pushed waiting
    have whole := frames_of_Frames (taken.append chunks.flatten)
    rw [append_assoc] at whole
    rw [readChunks,flatten_cons,whole]
    simp only [yields,refuses]
    cases rejected : (frames limit opts (rest ++ chunk)).rejected with
    | some reason =>
      rw [rejected] at again
      obtain ⟨nothing,stands⟩ := @frames_rejected _ _ _ chunks.flatten _ again (by
        apply cut.headers (before ++ [chunk]) chunks _ _ (by simp)
        rw [flatten_append,flatten_singleton]
        exact reached)
      simp only [finish,stands,nothing,append_nil]
    | none =>
      rw [rejected] at again
      have rest_read := @ih (drainFrames limit opts (pending.push chunk)).pending _
        (before ++ [chunk]) _ (by simpa using cut)
        (by rw [flatten_append,flatten_singleton]; exact reached) leftover again
      simp only [rest_read,finish]

theorem createLspFrameReader_eq (cut : WellCut limit opts chunks) :
    createLspFrameReader limit opts chunks =
      finish opts (frames limit opts chunks.flatten) := by
  have read := @readChunks_eq limit opts .create [] [] chunks [] cut (.rest []) .create rfl
  exact read

theorem wellCut_single (bytes : LspBytes) : WellCut limit opts [bytes] := by
  constructor
  · intro before chunk after bodies rest split _ _ _ absent i place
    have last : after = [] := by
      have size := congrArg length split
      simp only [length_append,length_cons,length_nil] at size
      exact eq_nil_of_length_eq_zero (by omega)
    rw [last,flatten_nil,append_nil,Search.includes_eq_false.mp absent] at place
    contradiction
  · intro before after bodies rest split sofar absent long i place
    cases before with
    | nil =>
      have short := sofar.length_le
      rw [flatten_nil,length_nil] at short
      omega
    | cons chunk before =>
      have last : after = [] := by
        have size := congrArg length split
        simp only [length_append,length_cons,length_nil] at size
        exact eq_nil_of_length_eq_zero (by omega)
      rw [last,flatten_nil,append_nil,Search.includes_eq_false.mp absent] at place
      contradiction

theorem WellCut.came {after : List LspBytes}
    (cut : WellCut limit opts (chunks ++ after)) : WellCut limit opts chunks := by
  constructor
  · intro before chunk post bodies rest split taken some_body short absent i place
    apply cut.terminators before chunk (post ++ after) bodies rest (by simp [split]) taken some_body short absent i
    rw [flatten_append,← append_assoc]
    exact Search.indexOf_append _ place
  · intro before post bodies rest split taken absent long i place
    have mem := Search.length_le_of_indexOf place
    have malformed := cut.headers before (post ++ after) bodies rest (by simp [split]) taken absent long i (by
        rw [flatten_append,← append_assoc]
        exact Search.indexOf_append _ place)
    rw [flatten_append,← append_assoc,take_append_of_le_length (by omega)] at malformed
    exact malformed

end Run

section Written

variable {limit : Nat} {opts : LspFrameReaderOptions} {length : Nat} {c : Char} {t : Text}

def ascii (c : Char) : Bool := c.toNat < 128

theorem utf8EncodeChar_ascii (plain : ascii c = true) : String.utf8EncodeChar c = [c.val.toUInt8] := by
  have small : c.toNat < 128 := by simpa [ascii] using plain
  apply String.utf8EncodeChar_eq_singleton
  have low : c.val ≤ 0x7f := by
    rw [UInt32.le_iff_toNat_le]
    exact Nat.lt_succ_iff.mp small
  unfold Char.utf8Size
  exact if_pos low

theorem toAscii_encodeUtf8 (plain : ∀ c ∈ t, ascii c = true) :
    toAscii (Text.encodeUtf8 t) = t := by
  induction t with
  | nil => rfl
  | cons c t ih =>
    have first := plain c (by simp)
    have small : c.toNat < 128 := by simpa [ascii] using first
    have rest := ih fun d mem => plain d (by simp [mem])
    rw [Text.encodeUtf8,flatMap_cons,utf8EncodeChar_ascii first,toAscii,map_append]
    have byte : c.val.toUInt8.toNat % 128 = c.toNat := by
      rw [UInt32.toNat_toUInt8]
      change c.toNat % 256 % 128 = c.toNat
      omega
    simp only [map_cons,map_nil,byte,Char.ofNat_toNat,singleton_append]
    exact congrArg (c :: ·) rest

theorem isSpace_of_isDigit (digit : Text.isDigit c = true) : Text.isSpace c = false := by
  simp only [Text.isDigit,Bool.and_eq_true,decide_eq_true_eq,Char.le_def,UInt32.le_iff_toNat_le] at digit
  have low : 48 ≤ c.toNat := digit.1
  have high : c.toNat ≤ 57 := digit.2
  simp only [Text.isSpace,Text.isSpaceCode]
  simp
  omega

theorem takeWhile_numberText (n : Nat) : (Text.numberText n).takeWhile Text.isDigit = Text.numberText n ∧
      (Text.numberText n).dropWhile Text.isDigit = [] := by
  have ds : ∀ c ∈ Text.numberText n, Text.isDigit c = true :=
    fun c mem => Text.isDigit_of_mem_numberText mem
  exact ⟨takeWhile_eq_self_iff.mpr ds,dropWhile_eq_nil_iff.mpr ds⟩

def contentLengthHeader (length : Nat) : Text :=
  "Content-Length: ".toList ++ Text.numberText length

theorem contentLengthDigits_written (length : Nat) :
    contentLengthDigits (contentLengthHeader length) = some (Text.numberText length) := by
  have name : ((contentLengthHeader length).take contentLengthName.length).map Char.toLower =
      contentLengthName := rfl
  have v : (contentLengthHeader length).drop contentLengthName.length = ' ' :: Text.numberText length := rfl
  have trimmed : (' ' :: Text.numberText length).dropWhile Text.isSpace = Text.numberText length := by
    rw [dropWhile_cons_of_pos (by decide)]
    cases ds : Text.numberText length with
    | nil => rfl
    | cons c rest =>
      have a : c ∈ Text.numberText length := by simp [ds]
      rw [dropWhile_cons_of_neg]
      simp [isSpace_of_isDigit (Text.isDigit_of_mem_numberText a)]
  obtain ⟨ds,rest⟩ := takeWhile_numberText length
  unfold contentLengthDigits
  rw [if_pos name,v,trimmed]
  simp only [ds,rest]
  rw [if_pos ⟨Text.numberText_ne_nil length,rfl⟩]

theorem splitHeaderLines_single {l : Text} (unbroken : '\r' ∉ l) : splitHeaderLines l = [l] := by
  induction l with
  | nil => rfl
  | cons c l ih =>
    rw [mem_cons,not_or] at unbroken
    cases l with
    | nil => rfl
    | cons d l =>
      rw [splitHeaderLines,if_neg (fun broken => unbroken.1 broken.1.symm),ih unbroken.2]
      rfl

theorem contentLengthHeader_plain (mem : c ∈ contentLengthHeader length) :
    ascii c = true ∧ c ≠ '\r' := by
  rcases mem_append.mp mem with name | digit
  · exact Text.of_all (fun c => ascii c = true ∧ c ≠ '\r') (by decide) name
  · have isDigit := Text.isDigit_of_mem_numberText digit
    simp only [Text.isDigit,Bool.and_eq_true,decide_eq_true_eq,Char.le_def,UInt32.le_iff_toNat_le] at isDigit
    have high : c.toNat ≤ 57 := isDigit.2
    have low : 48 ≤ c.toNat := isDigit.1
    constructor
    · simp [ascii]
      omega
    · intro same
      subst same
      contradiction

theorem readContentLength_written (safe : length ≤ maxSafeInteger) (rejectDuplicate : Bool) :
    readContentLength (contentLengthHeader length) rejectDuplicate = some length := by
  have parsed : parseLspFrameHeader (contentLengthHeader length) = some length := by
    unfold parseLspFrameHeader
    rw [contentLengthDigits_written]
    simp only [Text.decimal_numberText]
    rw [if_pos safe]
  unfold readContentLength
  rw [splitHeaderLines_single fun broken => (contentLengthHeader_plain broken).2 rfl]
  simp [parsed]

theorem encodeUtf8_ascii (plain : ∀ c ∈ t, ascii c = true) :
    Text.encodeUtf8 t = t.map fun c => c.val.toUInt8 := by
  induction t with
  | nil => rfl
  | cons c t ih =>
    rw [Text.encodeUtf8,flatMap_cons,utf8EncodeChar_ascii (plain c (by simp))]
    exact congrArg (c.val.toUInt8 :: ·) (ih fun d mem => plain d (by simp [mem]))

theorem encodeUtf8_delimiter : Text.encodeUtf8 "\r\n\r\n".toList = headerDelimiter := by
  rw [encodeUtf8_ascii fun _ => Text.of_all (ascii · = true) (by decide)]
  rfl

theorem writeLspFrame_eq (body : Text) : writeLspFrame body =
    Text.encodeUtf8 (contentLengthHeader (Text.encodeUtf8 body).length) ++
      (headerDelimiter ++ Text.encodeUtf8 body) := by
  have split : ∀ a b : Text, Text.encodeUtf8 (a ++ b) =
      Text.encodeUtf8 a ++ Text.encodeUtf8 b := fun _ _ => flatMap_append
  unfold writeLspFrame contentLengthHeader
  simp only [split,encodeUtf8_delimiter,append_assoc]

theorem carriageReturn_written (length : Nat) : (13 : UInt8) ∉ Text.encodeUtf8 (contentLengthHeader length) := by
  intro mem
  obtain ⟨c,inside,byte⟩ := mem_flatMap.mp mem
  obtain ⟨plain,other⟩ := contentLengthHeader_plain inside
  rw [utf8EncodeChar_ascii plain,mem_singleton] at byte
  have small : c.toNat < 128 := by simpa [ascii] using plain
  have code := congrArg UInt8.toNat byte
  rw [UInt32.toNat_toUInt8] at code
  have same : c.toNat = 13 := by
    change 13 = c.toNat % 256 at code
    omega
  exact other (Char.toNat_inj.mp same)

theorem frames_written {written : List Text}
    (sized : ∀ body ∈ written, Text.byteLength body ≤ min limit maxSafeInteger) :
    Frames limit opts (written.flatMap writeLspFrame) (written.map Text.encodeUtf8) [] := by
  induction written with
  | nil => exact .rest []
  | cons body written ih =>
    have size := sized body (by simp)
    rw [Text.byteLength_eq,Nat.le_min] at size
    rw [flatMap_cons,writeLspFrame_eq,map_cons,append_assoc,append_assoc]
    apply Frames.frame
    · have stands := @Search.indexOf_behind _ _ _ 13 [10,13,10]
        (carriageReturn_written (Text.encodeUtf8 body).length) []
      rw [append_nil] at stands
      exact stands
    · rw [toAscii_encodeUtf8 fun c mem => (contentLengthHeader_plain mem).1]
      exact readContentLength_written size.2 _
    · exact size.1
    · exact ih fun other mem => sized other (by simp [mem])

end Written

section Chunks

variable {maxFrameBytes : Nat} {options : LspFrameReaderOptions} {chunks : List LspBytes}

/-- A well cut stream is read as in one piece, and every frame as soon as it is complete. -/
theorem createLspFrameReader_wellCut (cut : WellCut maxFrameBytes options chunks) :
    createLspFrameReader maxFrameBytes options chunks =
        createLspFrameReader maxFrameBytes options [chunks.flatten] ∧
      (∀ before after, chunks = before ++ after →
        (createLspFrameReader maxFrameBytes options before).bodies <+:
            (createLspFrameReader maxFrameBytes options chunks).bodies ∧
          ∀ bodies rest, Frames maxFrameBytes options before.flatten bodies rest →
            bodies <+: (createLspFrameReader maxFrameBytes options before).bodies) ∧
      ∀ written : List Text,
        (∀ body ∈ written, Text.byteLength body ≤ min maxFrameBytes maxSafeInteger) →
        chunks.flatten = written.flatMap writeLspFrame →
        createLspFrameReader maxFrameBytes options chunks =
          ⟨written.map Text.encodeUtf8,.ended⟩ := by
  refine ⟨?_,?_,?_⟩
  · rw [createLspFrameReader_eq cut,createLspFrameReader_eq (wellCut_single _),
      flatten_singleton]
  · intro before after split
    subst split
    rw [createLspFrameReader_eq cut,createLspFrameReader_eq cut.came]
    constructor
    · have all := frames_of_Frames ((frames_spec maxFrameBytes options before.flatten).1.append
        after.flatten)
      rw [← flatten_append] at all
      simp only [finish]
      rw [all]
      exact prefix_append _ _
    · intro bodies rest taken
      simp only [finish]
      rw [frames_of_Frames taken]
      exact prefix_append _ _
  · intro written sized stream
    rw [createLspFrameReader_eq cut,stream,frames_of_Frames (frames_written sized),finish]
    have nothing : frames maxFrameBytes options [] = ⟨[],[],none⟩ := rfl
    simp [nothing,atEnd]

def lenient : LspFrameReaderOptions := ⟨false,false⟩

def bodyInTwo : List LspBytes :=
  [Text.encodeUtf8 "Content-Length: 2\r\n\r\nh".toList,Text.encodeUtf8 "i".toList]

theorem bodyInTwo_wellCut : WellCut 1024 lenient bodyInTwo := by
  have waits : (frames 1024 lenient (Text.encodeUtf8 "Content-Length: 2\r\n\r\nh".toList)).bodies =
      [] := by decide +kernel
  constructor
  · intro before chunk after bodies rest split taken some_body short absent i place
    rcases before with _ | ⟨a,_ | ⟨b,before⟩⟩
    · obtain ⟨rfl,rfl⟩ := cons.inj split
      rw [flatten_nil,nil_append] at taken
      rw [frames_of_Frames taken] at waits
      exact absurd (append_eq_nil_iff.mp waits).1 some_body
    · obtain ⟨_,rest_split⟩ := cons.inj split
      obtain ⟨_,rfl⟩ := cons.inj rest_split
      rw [flatten_nil,append_nil,Search.includes_eq_false.mp absent] at place
      contradiction
    · simp [bodyInTwo] at split
  · intro before after bodies rest split taken _ long
    have shorter := taken.length_le
    have size := congrArg (fun chunks => chunks.flatten.length) split
    have total : bodyInTwo.flatten.length = 23 := by decide +kernel
    simp only [total,flatten_append,length_append] at size
    unfold maxHeaderBytes at long
    omega

theorem createLspFrameReader_wellCut_bodyInTwo :
    createLspFrameReader 1024 lenient bodyInTwo =
      createLspFrameReader 1024 lenient [bodyInTwo.flatten] :=
  (createLspFrameReader_wellCut bodyInTwo_wellCut).1

/-- Two frames, the chunks of which part inside the terminator of the second. -/
def terminatorInTwo : List LspBytes :=
  [writeLspFrame ['a'] ++ Text.encodeUtf8 "Content-Length: 1\r\n\r".toList,
    Text.encodeUtf8 "\nb".toList]

theorem createLspFrameReader_not_chunkwise :
    ¬ ∀ maxFrameBytes options chunks, createLspFrameReader maxFrameBytes options chunks =
      createLspFrameReader maxFrameBytes options [chunks.flatten] := by
  intro chunkwise
  have same := chunkwise 1024 lenient terminatorInTwo
  revert same
  decide +kernel

end Chunks

end Keiko.Lsp
