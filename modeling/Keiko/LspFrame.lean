import Keiko.Library.Search
import Keiko.Library.Text

/-! The frame codec of the language server protocol. Chunks of bytes are held back until a
header terminator is among them; then every complete frame is cut off the held bytes. -/
namespace Keiko.Lsp
open Keiko.Library

abbrev LspBytes := List UInt8

inductive LspFrameRejectReason where
  | malformedHeader
  | responseTooLarge
  deriving DecidableEq

structure LspFrameReaderOptions where
  rejectDuplicateContentLength : Bool
  rejectTruncatedEof : Bool

def headerDelimiter : LspBytes := [13,10,13,10]

def maxHeaderBytes : Nat := 8192

def maxSafeInteger : Nat := 2 ^ 53 - 1

section Header

/-- `toString("ascii")`, which drops the highest bit of every byte. -/
def toAscii (bytes : LspBytes) : Text := bytes.map fun byte => Char.ofNat (byte.toNat % 128)

/-- `split("\r\n")`. -/
def splitHeaderLines : Text → List Text
  | [] => [[]]
  | [c] => [[c]]
  | c :: d :: text =>
    if c = '\r' ∧ d = '\n' then [] :: splitHeaderLines text
    else (splitHeaderLines (d :: text)).modifyHead (c :: ·)

def contentLengthName : Text := "content-length:".toList

/-- The digits that `/^content-length:\s*(\d+)\s*$/i` captures. The blanks and the digits
exclude each other, so each run is as long as it can be. -/
def contentLengthDigits (line : Text) : Option Text :=
  if (line.take contentLengthName.length).map Char.toLower = contentLengthName then
    let value := (line.drop contentLengthName.length).dropWhile Text.isSpace
    let digits := value.takeWhile Text.isDigit
    if digits ≠ [] ∧ (value.dropWhile Text.isDigit).all Text.isSpace then some digits else none
  else none

def parseLspFrameHeader (line : Text) : Option Nat :=
  match contentLengthDigits line with
  | some digits =>
    let contentLength := Text.decimal digits
    if contentLength ≤ maxSafeInteger then some contentLength else none
  | none => none

def readContentLength (headerBlock : Text) (rejectDuplicate : Bool) : Option Nat :=
  let values := (splitHeaderLines headerBlock).filterMap parseLspFrameHeader
  if rejectDuplicate && values.length ≠ 1 then none else values.head?

structure ParsedHeader where
  contentLength : Nat
  headerEndIndex : Nat

/-- The reader asks only where the delimiter is present. -/
def parseHeader (buffer : LspBytes) (options : LspFrameReaderOptions) : Option ParsedHeader := do
  let delimiterIndex ← Search.indexOf headerDelimiter buffer
  let contentLength ← readContentLength (toAscii (buffer.take delimiterIndex)) options.rejectDuplicateContentLength
  some ⟨contentLength,delimiterIndex + headerDelimiter.length⟩

end Header

section Pending

structure PendingBuffer where
  chunks : List LspBytes
  totalBytes : Nat
  delimiterFound : Bool
  tail : LspBytes

def delimiterOverlap : Nat := headerDelimiter.length - 1

namespace PendingBuffer

def create : PendingBuffer := ⟨[],0,false,[]⟩

def scanIncoming (pending : PendingBuffer) (chunk : LspBytes) : PendingBuffer :=
  let window := pending.tail ++ chunk
  if Search.includes headerDelimiter window then {pending with delimiterFound := true}
  else {pending with tail := window.drop (window.length - delimiterOverlap)}

def push (pending : PendingBuffer) (chunk : LspBytes) : PendingBuffer :=
  {pending with
    chunks := pending.chunks ++ [chunk]
    totalBytes := pending.totalBytes + chunk.length}.scanIncoming chunk

/-- `Buffer.concat`, which cuts the bytes off at the total. -/
def coalesce (pending : PendingBuffer) : LspBytes := pending.chunks.flatten.take pending.totalBytes

def reset (rest : LspBytes) : PendingBuffer :=
  ⟨[rest],rest.length,Search.includes headerDelimiter rest,[]⟩

end PendingBuffer

end Pending

section Reader

variable (maxFrameBytes : Nat) (options : LspFrameReaderOptions)

def guardHeaderBoundBytes (hasDelimiter : Bool) (length : Nat) : Option LspFrameRejectReason :=
  if !hasDelimiter && length > maxHeaderBytes then some .malformedHeader else none

structure TakenFrame where
  body : LspBytes
  rest : LspBytes

def takeFrame (buffer : LspBytes) : Except LspFrameRejectReason (Option TakenFrame) :=
  match parseHeader buffer options with
  | none => .error .malformedHeader
  | some header =>
    if header.contentLength > maxFrameBytes then .error .responseTooLarge
    else
      let bodyEnd := header.headerEndIndex + header.contentLength
      if buffer.length < bodyEnd then .ok none
      else .ok (some ⟨(buffer.drop header.headerEndIndex).take header.contentLength,buffer.drop bodyEnd⟩)

structure Drained where
  bodies : List LspBytes
  cursor : LspBytes
  rejected : Option LspFrameRejectReason

/-- The loop of `drainFrames`, with one turn for each of the bytes it was given. -/
def drainLoop : Nat → LspBytes → Drained
  | 0, cursor => ⟨[],cursor,none⟩
  | turns + 1, cursor =>
    let hasDelimiter := Search.includes headerDelimiter cursor
    if !hasDelimiter then ⟨[],cursor,guardHeaderBoundBytes hasDelimiter cursor.length⟩
    else match takeFrame maxFrameBytes options cursor with
      | .error reason => ⟨[],cursor,some reason⟩
      | .ok none => ⟨[],cursor,none⟩
      | .ok (some frame) =>
        let drained := drainLoop turns frame.rest
        {drained with bodies := frame.body :: drained.bodies}

structure DrainResult where
  bodies : List LspBytes
  pending : PendingBuffer
  rejected : Option LspFrameRejectReason

def drainFrames (pending : PendingBuffer) : DrainResult :=
  match guardHeaderBoundBytes pending.delimiterFound pending.totalBytes with
  | some reason => ⟨[],pending,some reason⟩
  | none =>
    if pending.delimiterFound then
      let frameBudget := pending.coalesce
      let drained := drainLoop maxFrameBytes options frameBudget.length frameBudget
      ⟨drained.bodies,PendingBuffer.reset drained.cursor,drained.rejected⟩
    else ⟨[],pending,none⟩

inductive Verdict where
  | ended
  | rejected (reason : LspFrameRejectReason)
  deriving DecidableEq

structure ReadResult where
  bodies : List LspBytes
  verdict : Verdict
  deriving DecidableEq

def atEnd (byteLength : Nat) : Verdict :=
  if options.rejectTruncatedEof && byteLength > 0 then .rejected .malformedHeader else .ended

/-- The chunks that are still to come, on what is pending. -/
def readChunks (pending : PendingBuffer) : List LspBytes → ReadResult
  | [] => ⟨[],atEnd options pending.totalBytes⟩
  | chunk :: chunks =>
    let drained := drainFrames maxFrameBytes options (pending.push chunk)
    match drained.rejected with
    | some reason => ⟨drained.bodies,.rejected reason⟩
    | none =>
      let rest := readChunks drained.pending chunks
      {rest with bodies := drained.bodies ++ rest.bodies}

def createLspFrameReader (source : List LspBytes) : ReadResult :=
  readChunks maxFrameBytes options .create source

end Reader

def writeLspFrame (body : Text) : LspBytes :=
  let bodyBytes := Text.encodeUtf8 body
  let header := Text.encodeUtf8
    ("Content-Length: ".toList ++ Text.numberText bodyBytes.length ++ "\r\n\r\n".toList)
  header ++ bodyBytes

end Keiko.Lsp
