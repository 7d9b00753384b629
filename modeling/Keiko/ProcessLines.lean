import Keiko.Library.Text
import Mathlib.Data.List.Induction
import Mathlib.Data.List.TakeWhile

/-! The line parser for what a runtime process writes. Bytes are held back until a newline ends
their line; the first line that is too long, not UTF-8 or refused by its callback is the last one
that is looked at, wherever the stream was cut into buffers. -/
namespace Keiko.ProcessLines
open Keiko.Library List

abbrev Bytes := List UInt8

inductive CodingRuntimeProcessIoFailure where
  | callbackFailed
  | lineOversized
  | utf8Invalid
  deriving DecidableEq

abbrev CodingRuntimeProcessIoResult := Except CodingRuntimeProcessIoFailure Unit

structure LineParserOptions where
  onLine : List Text → Text → Bool
  maxLineBytes : ℕ

def newline : UInt8 := 0x0a

def carriageReturn : UInt8 := 0x0d

/-- `TextDecoder` with `fatal`, which leaves out a byte order mark in front. -/
def decodeUtf8 (value : Bytes) : Option Text :=
  (Text.decodeUtf8 value).map fun text => if text.head? = some '\uFEFF' then text.tail else text

def decodeLine (line : Bytes) : Option Text :=
  decodeUtf8 (if line.getLast? = some carriageReturn then line.dropLast else line)

section Parser

structure BoundedLineParser where
  partialLine : Bytes
  failure : Option CodingRuntimeProcessIoFailure
  called : List Text

namespace BoundedLineParser

variable (options : LineParserOptions)

def create : BoundedLineParser := ⟨[],none,[]⟩

def reject (parser : BoundedLineParser) (reason : CodingRuntimeProcessIoFailure) :
    BoundedLineParser × CodingRuntimeProcessIoResult :=
  ({ parser with partialLine := [], failure := some reason },.error reason)

def emitPartial (parser : BoundedLineParser) : BoundedLineParser × CodingRuntimeProcessIoResult :=
  let line := parser.partialLine
  let parser := { parser with partialLine := [] }
  match decodeLine line with
  | none => parser.reject .utf8Invalid
  | some decoded =>
    let behind := { parser with called := parser.called ++ [decoded] }
    if options.onLine parser.called decoded then (behind,.ok ()) else behind.reject .callbackFailed

def append (parser : BoundedLineParser) (segment : Bytes) (complete : Bool) :
    BoundedLineParser × CodingRuntimeProcessIoResult :=
  let size := parser.partialLine.length + segment.length
  if options.maxLineBytes < size then parser.reject .lineOversized
  else
    let parser := { parser with partialLine := parser.partialLine ++ segment }
    if complete then parser.emitPartial options else (parser,.ok ())

def pushFrom (parser : BoundedLineParser) (input : Bytes) : BoundedLineParser × CodingRuntimeProcessIoResult :=
  if input = [] then (parser,.ok ())
  else
    let segment := input.takeWhile (· ≠ newline)
    if input.length ≤ segment.length then parser.append options segment false
    else match parser.append options segment true with
      | (parser,.error reason) => (parser,.error reason)
      | (parser,.ok ()) => pushFrom parser (input.drop (segment.length + 1))
termination_by input.length
decreasing_by
  rw [List.length_drop]
  omega

def push (parser : BoundedLineParser) (chunk : Bytes) : BoundedLineParser × CodingRuntimeProcessIoResult :=
  match parser.failure with
  | some reason => (parser,.error reason)
  | none => parser.pushFrom options chunk

def finish (parser : BoundedLineParser) : BoundedLineParser × CodingRuntimeProcessIoResult :=
  match parser.failure with
  | some reason => (parser,.error reason)
  | none => if parser.partialLine = [] then (parser,.ok ()) else parser.emitPartial options

def run (chunks : List Bytes) : BoundedLineParser :=
  chunks.foldl (fun parser chunk => (parser.push options chunk).1) create

end BoundedLineParser

end Parser

section Lines

variable (options : LineParserOptions)

def streamLines (stream : Bytes) : List Bytes :=
  let lines := stream.splitOn newline
  if lines.getLast? = some [] then lines.dropLast else lines

def deliver (called : List Text) : List Bytes → List Text × CodingRuntimeProcessIoResult
  | [] => (called,.ok ())
  | line :: lines =>
    if options.maxLineBytes < line.length then (called,.error .lineOversized)
    else match decodeLine line with
      | none => (called,.error .utf8Invalid)
      | some decoded =>
        if options.onLine called decoded then deliver (called ++ [decoded]) lines
        else (called ++ [decoded],.error .callbackFailed)

theorem streamLines_cons {l : Bytes} (unbroken : newline ∉ l) (stream : Bytes) :
    streamLines (l ++ newline :: stream) = l :: streamLines stream := by
  have cut : (l ++ newline :: stream).splitOn newline = l :: stream.splitOn newline := by
    rw [splitOn_append_cons_self,splitOn_eq_singleton unbroken,singleton_append]
  have some_line := splitOn_ne_nil newline stream
  unfold streamLines
  rw [cut]
  dsimp only
  rw [getLast?_cons_of_ne_nil some_line,dropLast_cons_of_ne_nil some_line]
  split <;> rfl

theorem streamLines_unbroken {l : Bytes} (unbroken : newline ∉ l) :
    streamLines l = if l = [] then [] else [l] := by
  unfold streamLines
  rw [splitOn_eq_singleton unbroken]
  simp only [getLast?_singleton,Option.some_inj,dropLast_singleton]

theorem cut_newline (stream : Bytes) : ∃ segment, newline ∉ segment ∧
    (stream = segment ∨ ∃ rest, stream = segment ++ newline :: rest) := by
  refine ⟨stream.takeWhile (· ≠ newline),?_,?_⟩
  · intro mem
    simpa using mem_takeWhile_imp mem
  · have whole := takeWhile_append_dropWhile (p := (· ≠ newline)) (l := stream)
    have stops := head?_dropWhile_not (· ≠ newline) stream
    cases behind : stream.dropWhile (· ≠ newline) with
    | nil =>
      rw [behind,append_nil] at whole
      exact .inl whole.symm
    | cons other rest =>
      rw [behind] at whole stops
      obtain rfl : other = newline := by simpa using stops
      exact .inr ⟨rest,whole.symm⟩

theorem streamLines_begun {l : Bytes} (unbroken : newline ∉ l) (begun : l ≠ [])
    (stream : Bytes) : ∃ more ls, streamLines (l ++ stream) = (l ++ more) :: ls := by
  obtain ⟨segment,plain,same⟩ := cut_newline stream
  have still : newline ∉ l ++ segment := by
    rw [mem_append,not_or]
    exact ⟨unbroken,plain⟩
  obtain rfl | ⟨rest,rfl⟩ := same
  · refine ⟨stream,[],?_⟩
    rw [streamLines_unbroken still,if_neg (append_ne_nil_of_left_ne_nil begun stream)]
  · refine ⟨segment,streamLines rest,?_⟩
    rw [← append_assoc,streamLines_cons still]

end Lines

section Cuts

variable {options : LineParserOptions} {parser : BoundedLineParser}

def feed (options : LineParserOptions) (parser : BoundedLineParser) (byte : UInt8) :
    BoundedLineParser :=
  if parser.failure.isSome then parser
  else if byte = newline then (parser.emitPartial options).1
  else if options.maxLineBytes < parser.partialLine.length + 1 then (parser.reject .lineOversized).1
  else { parser with partialLine := parser.partialLine ++ [byte] }

theorem feed_failed {reason : CodingRuntimeProcessIoFailure} (failed : parser.failure = some reason)
    (bytes : Bytes) : bytes.foldl (feed options) parser = parser := by
  induction bytes with
  | nil => rfl
  | cons byte bytes ih =>
    rw [foldl_cons,feed,failed,Option.isSome_some,if_pos rfl]
    exact ih

theorem feed_newline (l : Bytes) (called : List Text) : feed options ⟨l,none,called⟩ newline =
      ((⟨l,none,called⟩ : BoundedLineParser).emitPartial options).1 := rfl

theorem feed_segment {segment l : Bytes} (unbroken : newline ∉ segment)
    (short : l.length ≤ options.maxLineBytes) (called : List Text) :
    segment.foldl (feed options) ⟨l,none,called⟩ =
      if options.maxLineBytes < l.length + segment.length then ⟨[],some .lineOversized,called⟩
      else ⟨l ++ segment,none,called⟩ := by
  induction segment generalizing l with
  | nil =>
    rw [foldl_nil,append_nil,if_neg (by simpa using short)]
  | cons byte segment ih =>
    rw [mem_cons,not_or] at unbroken
    have ordinary : feed options ⟨l,none,called⟩ byte =
        if options.maxLineBytes < l.length + 1 then ⟨[],some .lineOversized,called⟩
        else ⟨l ++ [byte],none,called⟩ := by
      rw [feed,if_neg (by simp),if_neg (Ne.symm unbroken.1)]
      rfl
    rw [foldl_cons,ordinary,length_cons]
    by_cases long : options.maxLineBytes < l.length + 1
    · rw [if_pos long,if_pos (by omega)]
      exact feed_failed rfl segment
    · rw [if_neg long,ih unbroken.2 (by rw [length_append]; simpa using long),
        length_append,length_singleton,append_assoc,singleton_append,
        Nat.add_assoc,Nat.add_comm 1]

theorem emitPartial_cases {l : Bytes} (short : l.length ≤ options.maxLineBytes) (called : List Text) :
    (∃ behind, (⟨l,none,called⟩ : BoundedLineParser).emitPartial options = (⟨[],none,behind⟩,.ok ()) ∧
      ∀ ls, deliver options called (l :: ls) = deliver options behind ls) ∨
    ∃ behind reason, (⟨l,none,called⟩ : BoundedLineParser).emitPartial options =
        (⟨[],some reason,behind⟩,.error reason) ∧
      ∀ ls, deliver options called (l :: ls) = (behind,.error reason) := by
  have fits : ¬ options.maxLineBytes < l.length := Nat.not_lt.mpr short
  unfold BoundedLineParser.emitPartial
  dsimp only
  cases t : decodeLine l with
  | none =>
    refine .inr ⟨called,.utf8Invalid,rfl,?_⟩
    intro ls
    rw [deliver,if_neg fits,t]
  | some decoded =>
    by_cases taken : options.onLine called decoded = true
    · refine .inl ⟨called ++ [decoded],?_,?_⟩
      · exact if_pos taken
      · intro ls
        rw [deliver,if_neg fits,t]
        exact if_pos taken
    · refine .inr ⟨called ++ [decoded],.callbackFailed,?_,?_⟩
      · exact if_neg taken
      · intro ls
        rw [deliver,if_neg fits,t]
        exact if_neg taken

theorem pushFrom_eq_feed {line : Bytes} (short : line.length ≤ options.maxLineBytes)
    (called : List Text) (input : Bytes) :
    (⟨line,none,called⟩ : BoundedLineParser).pushFrom options input = (input.foldl (feed options) ⟨line,none,called⟩,
        match (input.foldl (feed options) ⟨line,none,called⟩).failure with
        | none => .ok ()
        | some reason => .error reason) := by
  induction size : input.length using Nat.strongRecOn generalizing input line called with
  | _ n ih =>
    have unbroken : newline ∉ input.takeWhile (· ≠ newline) := by
      intro mem
      simpa using mem_takeWhile_imp mem
    have whole := takeWhile_append_dropWhile (p := (· ≠ newline)) (l := input)
    have fed := feed_segment unbroken short called
    have stops := head?_dropWhile_not (· ≠ newline) input
    rw [BoundedLineParser.pushFrom]
    dsimp only
    generalize input.takeWhile (· ≠ newline) = segment at unbroken whole fed ⊢
    generalize input.dropWhile (· ≠ newline) = behind at whole stops
    by_cases none_left : input = []
    · rw [if_pos none_left,none_left]
      rfl
    rw [if_neg none_left]
    cases behind with
    | nil =>
      rw [append_nil] at whole
      subst whole
      rw [if_pos (le_refl _),fed,BoundedLineParser.append]
      dsimp only
      split
      case isTrue => rfl
      case isFalse => rfl
    | cons other rest =>
      obtain rfl : other = newline := by simpa using stops
      subst whole
      have rest_eq : (segment ++ newline :: rest).drop (segment.length + 1) = rest := by
        rw [drop_append,drop_of_length_le (by omega)]
        simp
      have longer : ¬ (segment ++ newline :: rest).length ≤ segment.length := by
        rw [length_append,length_cons]
        omega
      rw [if_neg longer,foldl_append,foldl_cons,fed,rest_eq,BoundedLineParser.append]
      dsimp only
      by_cases long : options.maxLineBytes < line.length + segment.length
      · rw [if_pos long,if_pos long,feed_failed rfl]
        rfl
      · have short_line : (line ++ segment).length ≤ options.maxLineBytes := by
          rw [length_append]
          omega
        rw [if_neg long,if_neg long,if_pos rfl,feed_newline]
        obtain ⟨next,emitted,_⟩ | ⟨next,reason,emitted,_⟩ := emitPartial_cases short_line called
        · rw [emitted]
          apply ih rest.length
          · rw [length_append,length_cons] at size
            omega
          · exact Nat.zero_le _
          · rfl
        · rw [emitted,feed_failed rfl]

def Sound (options : LineParserOptions) (parser : BoundedLineParser) : Prop :=
  parser.failure = none → parser.partialLine.length ≤ options.maxLineBytes

theorem push_eq_feed (sound : Sound options parser) (chunk : Bytes) :
    parser.push options chunk = (chunk.foldl (feed options) parser,
      match (chunk.foldl (feed options) parser).failure with
      | none => .ok ()
      | some reason => .error reason) := by
  obtain ⟨l,failure,called⟩ := parser
  cases failure with
  | some reason =>
    rw [feed_failed rfl]
    rfl
  | none => exact pushFrom_eq_feed (sound rfl) called chunk

theorem feed_sound (sound : Sound options parser) (byte : UInt8) : Sound options (feed options parser byte) := by
  obtain ⟨l,failure,called⟩ := parser
  cases failure with
  | some reason =>
    intro unfailed
    cases unfailed
  | none =>
    unfold feed
    rw [if_neg (by simp)]
    split
    case isTrue =>
      obtain ⟨behind,emitted,_⟩ | ⟨behind,reason,emitted,_⟩ :=
        emitPartial_cases (sound rfl) called
      · rw [emitted]
        intro _
        exact Nat.zero_le _
      · rw [emitted]
        intro unfailed
        cases unfailed
    case isFalse =>
      split
      case isTrue =>
        intro unfailed
        cases unfailed
      case isFalse fits =>
        intro _
        rw [length_append]
        exact Nat.not_lt.mp fits

theorem feed_all_sound (sound : Sound options parser) (bytes : Bytes) :
    Sound options (bytes.foldl (feed options) parser) := by
  induction bytes generalizing parser with
  | nil => exact sound
  | cons byte bytes ih => exact ih (feed_sound sound byte)

theorem run_eq_feed (chunks : List Bytes) : BoundedLineParser.run options chunks =
      chunks.flatten.foldl (feed options) BoundedLineParser.create ∧
    Sound options (BoundedLineParser.run options chunks) := by
  induction chunks using reverseRecOn with
  | nil =>
    refine ⟨rfl,?_⟩
    intro _
    exact Nat.zero_le _
  | append_singleton chunks chunk ih =>
    have pushed := push_eq_feed ih.2 chunk
    have same : BoundedLineParser.run options (chunks ++ [chunk]) =
        chunk.foldl (feed options) (BoundedLineParser.run options chunks) := by
      rw [BoundedLineParser.run,foldl_append]
      exact congrArg Prod.fst pushed
    constructor
    · rw [same,ih.1,flatten_append,foldl_append,flatten_singleton]
    · rw [same]
      exact feed_all_sound ih.2 chunk

theorem finish_feed {l : Bytes} (unbroken : newline ∉ l)
    (short : l.length ≤ options.maxLineBytes) (called : List Text) (stream : Bytes) :
    let finished := (stream.foldl (feed options) ⟨l,none,called⟩).finish options
    (finished.1.called,finished.2) = deliver options called (streamLines (l ++ stream)) := by
  induction stream generalizing l called with
  | nil =>
    rw [append_nil,streamLines_unbroken unbroken]
    dsimp only [foldl_nil,BoundedLineParser.finish]
    split
    case isTrue => rfl
    case isFalse =>
      obtain ⟨behind,emitted,delivered⟩ | ⟨behind,reason,emitted,delivered⟩ :=
        emitPartial_cases short called
      · rw [emitted,delivered]
        rfl
      · rw [emitted,delivered]
  | cons byte stream ih =>
    dsimp only
    rw [foldl_cons]
    by_cases broken : byte = newline
    · subst broken
      rw [feed_newline,streamLines_cons unbroken]
      obtain ⟨behind,emitted,delivered⟩ | ⟨behind,reason,emitted,delivered⟩ :=
        emitPartial_cases short called
      · rw [emitted,delivered]
        exact ih (not_mem_nil) (Nat.zero_le _) behind
      · rw [emitted,delivered,feed_failed rfl]
        rfl
    · rw [feed,if_neg (by simp),if_neg broken]
      by_cases long : options.maxLineBytes < l.length + 1
      · rw [if_pos long,feed_failed rfl]
        have still : newline ∉ l ++ [byte] := by
          rw [mem_append,mem_singleton,not_or]
          exact ⟨unbroken,Ne.symm broken⟩
        obtain ⟨more,ls,first⟩ := streamLines_begun still (by simp) stream
        rw [append_assoc,singleton_append] at first
        rw [first,deliver,if_pos]
        · rfl
        · rw [length_append,length_append]
          exact long.trans_le (Nat.le_add_right _ _)
      · rw [if_neg long]
        have longer : (l ++ [byte]).length ≤ options.maxLineBytes := by
          rw [length_append]
          exact Nat.not_lt.mp long
        have still : newline ∉ l ++ [byte] := by
          rw [mem_append,mem_singleton,not_or]
          exact ⟨unbroken,Ne.symm broken⟩
        have rest := ih still longer called
        rw [append_assoc,singleton_append] at rest
        exact rest

end Cuts

section Stream

/-- However the stream was cut, the callback was called for its lines up to the first bad one, and
the end reports that one; a push reports it as soon as it is met, and nothing comes behind it. -/
theorem lines_of_stream (options : LineParserOptions) (chunks : List Bytes) :
    let parser := BoundedLineParser.run options chunks
    ((parser.finish options).1.called,(parser.finish options).2) =
        deliver options [] (streamLines chunks.flatten) ∧
      (∀ chunk, (parser.push options chunk).2 = match (parser.push options chunk).1.failure with
        | none => .ok ()
        | some reason => .error reason) ∧
      ∀ reason, parser.failure = some reason → parser.finish options = (parser,.error reason) ∧
        ∀ more, BoundedLineParser.run options (chunks ++ more) = parser := by
  obtain ⟨fed,sound⟩ := @run_eq_feed options chunks
  refine ⟨?_,?_,?_⟩
  · rw [fed]
    exact finish_feed not_mem_nil (Nat.zero_le _) [] chunks.flatten
  · intro chunk
    rw [push_eq_feed sound chunk]
  · intro reason failed
    constructor
    · rw [BoundedLineParser.finish,failed]
    · intro more
      rw [(run_eq_feed (chunks ++ more)).1,flatten_append,foldl_append,← fed]
      exact feed_failed failed more.flatten

end Stream

end Keiko.ProcessLines
