import Keiko.Library.Bytes
import Keiko.Library.Except
import Keiko.Library.Number
import Keiko.Library.Utf16

/-! The wire format between the server and the helper that reads the workspace: requests for texts,
their answers, snapshots with file facts, and the native lane with its directory listings. A frame
is written and read field by field at fixed offsets; strings are JavaScript strings. -/
namespace Keiko.SecureWorkspaceWire
open Keiko.Library Keiko.Library.Bytes

def maxBytes : ℕ := 1048576
def legacyMaxBytes : ℕ := 65536
def maxRootBytes : ℕ := 32768
def maxPathBytes : ℕ := 4096
def requestHeaderBytes : ℕ := 20
def responseHeaderBytes : ℕ := 12
def maxFrameBytes : ℕ := 20 + maxRootBytes + maxPathBytes
def maxResponseBytes : ℕ := responseHeaderBytes + maxBytes
def version : ℕ := 1
def snapshotMetadataBytes : ℕ := 16
def snapshotMaxResponseBytes : ℕ := maxResponseBytes + snapshotMetadataBytes
def nativeMaxBytes : ℕ := 64 * 1024 * 1024
def nativeMaxResponseBytes : ℕ := nativeMaxBytes + 32
def nativeRequestBytes : ℕ := 36
def nativeInfoBytes : ℕ := 20

def malformedRequest : String := "secure-workspace-read-malformed-request"
def malformedResponse : String := "secure-workspace-read-malformed-response"
def invalidRequest : String := "secure-workspace-read-invalid-request"
def responseTooLarge : String := "secure-workspace-read-response-too-large"
def invalidInfo : String := "secure-workspace-read-invalid-info"
def invalidName : String := "secure-workspace-read-invalid-name"

def ascii (text : String) : Bytes := text.toList.map fun c => UInt8.ofNat c.toNat

/-- `toString("ascii")`, which clears the high bit of each byte. -/
def asciiText (bytes : Bytes) : Text := bytes.map fun b => Char.ofNat (b.toNat % 128)

section Values

inductive ClosedStatus where
  | malformedRequest
  | unsupportedPlatform
  | invalidPath
  | accessDenied
  | notRegular
  | contentTooLarge
  | contentNotText
  | changedDuringRead
  | ioFailure
  deriving DecidableEq, Repr

inductive Status where
  | ok
  | closed (status : ClosedStatus)
  deriving DecidableEq, Repr

def ClosedStatus.code : ClosedStatus → ℕ
  | .malformedRequest => 1
  | .unsupportedPlatform => 2
  | .invalidPath => 3
  | .accessDenied => 4
  | .notRegular => 5
  | .contentTooLarge => 6
  | .contentNotText => 7
  | .changedDuringRead => 8
  | .ioFailure => 9

/-- `STATUS_TO_CODE`. -/
def statusToCode : Status → ℕ
  | .ok => 0
  | .closed status => status.code

/-- `CODE_TO_STATUS`. -/
def codeToStatus : ℕ → Option Status
  | 0 => some .ok
  | 1 => some (.closed .malformedRequest)
  | 2 => some (.closed .unsupportedPlatform)
  | 3 => some (.closed .invalidPath)
  | 4 => some (.closed .accessDenied)
  | 5 => some (.closed .notRegular)
  | 6 => some (.closed .contentTooLarge)
  | 7 => some (.closed .contentNotText)
  | 8 => some (.closed .changedDuringRead)
  | 9 => some (.closed .ioFailure)
  | _ => none

structure Double where
  bits : UInt64
  deriving DecidableEq

/-- `Number.isFinite`. -/
def Double.isFinite (number : Double) : Bool := number.bits.toNat / 2 ^ 52 % 2 ^ 11 != 2047

/-- `Number.isSafeInteger`. -/
def isSafeInteger : Number → Bool
  | .finite value => value.den = 1 && value.num.natAbs ≤ 2 ^ 53 - 1
  | _ => false

def isNegative : Number → Bool
  | .finite value => value < 0
  | .negInfinity => true
  | _ => false

/-- `number > bound`. -/
def exceeds (bound : ℕ) : Number → Bool
  | .finite value => (bound : ℚ) < value
  | .infinity => true
  | _ => false

def natural : Number → ℕ
  | .finite value => value.num.toNat
  | _ => 0

structure ReadRequest where
  root : Units
  relativePath : Units
  byteCap : Number
  deriving DecidableEq

inductive ReadResponse where
  | ok (bytes : Bytes)
  | closed (status : ClosedStatus)
  deriving DecidableEq

structure SnapshotInfo where
  size : Number
  mtimeMs : Double
  deriving DecidableEq

inductive SnapshotResponse where
  | ok (bytes : Bytes) (info : SnapshotInfo)
  | closed (status : ClosedStatus)
  deriving DecidableEq

inductive NativeFileType where
  | file
  | directory
  | symlink
  | other
  deriving DecidableEq, Repr

structure NativeFileInfo where
  type : NativeFileType
  size : Number
  mtimeMs : Double
  deriving DecidableEq

structure NativeDirEntry where
  name : Units
  type : NativeFileType
  deriving DecidableEq

structure NativeRange where
  offset : Number
  length : Number
  deriving DecidableEq

inductive NativeOperation where
  | read (range : Option NativeRange)
  | stat
  | list
  deriving DecidableEq

structure NativeRequest where
  root : Units
  relativePath : Units
  operation : NativeOperation
  deriving DecidableEq

inductive NativeResponse where
  | ok (info : NativeFileInfo) (bytes : Bytes)
  | wrongKind (info : NativeFileInfo)
  | closed (status : ClosedStatus)
  deriving DecidableEq

end Values

section Strings

/-- `Buffer.from(value, "utf8")`, in which half of a pair becomes the replacement character. -/
def utf8 (value : Units) : Bytes := Text.encodeUtf8 (Units.toText value)

def utf8Text (bytes : Bytes) : Option Units := (Text.decodeUtf8 bytes).map Units.ofText

def isSecureWorkspaceReadByteCap (value : Number) : Bool :=
  value = Number.ofNat maxBytes || value = Number.ofNat legacyMaxBytes

def encodeBoundedUtf8 (value : Units) (limit : ℕ) : Except String Bytes :=
  let bytes := utf8 value
  if bytes.length = 0 || limit < bytes.length || bytes.contains 0 then .error invalidRequest
  else .ok bytes

def decodeStrictUtf8 (value : Bytes) : Except String Units :=
  match utf8Text value with
  | none => .error malformedRequest
  | some decoded =>
    if decoded.length = 0 || decoded.contains 0 then .error malformedRequest else .ok decoded

end Strings

section Read

def encodeSecureWorkspaceReadRequest (request : ReadRequest) : Except String Bytes := do
  let root ← encodeBoundedUtf8 request.root maxRootBytes
  let relativePath ← encodeBoundedUtf8 request.relativePath maxPathBytes
  if !isSecureWorkspaceReadByteCap request.byteCap then .error invalidRequest
  else
    pure (ascii "KSR1" ++ le 2 version ++ le 2 0 ++ le 4 root.length ++ le 4 relativePath.length ++
      le 4 (natural request.byteCap) ++ root ++ relativePath)

def decodeSecureWorkspaceReadRequest (bytes : Bytes) : Except String ReadRequest :=
  if bytes.length < requestHeaderBytes || maxFrameBytes < bytes.length then .error malformedRequest
  else if bytes.take 4 ≠ ascii "KSR1" then .error malformedRequest
  else
    let rootLength := read 8 4 bytes
    let pathLength := read 12 4 bytes
    let byteCap := Number.ofNat (read 16 4 bytes)
    if read 4 2 bytes ≠ version || read 6 2 bytes ≠ 0 || maxRootBytes < rootLength ||
        maxPathBytes < pathLength || !isSecureWorkspaceReadByteCap byteCap ||
        requestHeaderBytes + rootLength + pathLength ≠ bytes.length then
      .error malformedRequest
    else do
      let root ← decodeStrictUtf8 ((bytes.drop requestHeaderBytes).take rootLength)
      let relativePath ← decodeStrictUtf8 (bytes.drop (requestHeaderBytes + rootLength))
      pure ⟨root,relativePath,byteCap⟩

def ReadResponse.status : ReadResponse → Status
  | ok _ => .ok
  | closed status => .closed status

def ReadResponse.payload : ReadResponse → Bytes
  | ok bytes => bytes
  | closed _ => []

def encodeSecureWorkspaceReadResponse (response : ReadResponse) : Except String Bytes :=
  let payload := response.payload
  if maxBytes < payload.length then .error responseTooLarge
  else
    .ok (ascii "KSS1" ++ le 2 version ++ le 2 (statusToCode response.status) ++
      le 4 payload.length ++ payload)

def decodeSecureWorkspaceReadResponse (bytes : Bytes) : Except String ReadResponse :=
  if bytes.length < responseHeaderBytes || maxResponseBytes < bytes.length then .error malformedResponse
  else if bytes.take 4 ≠ ascii "KSS1" then .error malformedResponse
  else
    let payloadLength := read 8 4 bytes
    match codeToStatus (read 6 2 bytes) with
    | none => .error malformedResponse
    | some status =>
      if read 4 2 bytes ≠ version || payloadLength ≠ bytes.length - responseHeaderBytes then .error malformedResponse
      else match status with
        | .ok => .ok (.ok (bytes.drop responseHeaderBytes))
        | .closed status =>
          if payloadLength ≠ 0 then .error malformedResponse else .ok (.closed status)

end Read

section Snapshot

def assertSnapshotInfo (info : SnapshotInfo) (byteLength : ℕ) : Except String Unit :=
  if !isSafeInteger info.size || isNegative info.size || info.size ≠ Number.ofNat byteLength ||
      exceeds maxBytes info.size || !info.mtimeMs.isFinite then
    .error malformedResponse
  else .ok ()

def SnapshotResponse.base : SnapshotResponse → ReadResponse
  | ok bytes _ => .ok bytes
  | closed status => .closed status

def encodeSecureWorkspaceSnapshotResponse (response : SnapshotResponse) : Except String Bytes := do
  let written ← encodeSecureWorkspaceReadResponse response.base
  let base := overwrite 4 (le 2 2) (overwrite 0 (ascii "KSS2") written)
  match response with
  | .closed _ => pure base
  | .ok bytes info =>
    assertSnapshotInfo info bytes.length
    let sized := overwrite 8 (le 4 (bytes.length + snapshotMetadataBytes)) base
    pure (sized.take responseHeaderBytes ++ (le 8 (natural info.size) ++
      le 8 info.mtimeMs.bits.toNat) ++ sized.drop responseHeaderBytes)

def decodeSecureWorkspaceSnapshotResponse (bytes : Bytes) : Except String SnapshotResponse :=
  if bytes.length < responseHeaderBytes || snapshotMaxResponseBytes < bytes.length ||
      asciiText (bytes.take 4) ≠ "KSS2".toList || read 4 2 bytes ≠ 2 then
    .error malformedResponse
  else match codeToStatus (read 6 2 bytes) with
    | none => .error malformedResponse
    | some status =>
      if read 8 4 bytes ≠ bytes.length - responseHeaderBytes then .error malformedResponse
      else match status with
        | .closed status =>
          if bytes.length ≠ responseHeaderBytes then .error malformedResponse
          else .ok (.closed status)
        | .ok =>
          if bytes.length < responseHeaderBytes + snapshotMetadataBytes then .error malformedResponse
          else do
            let content := bytes.drop (responseHeaderBytes + snapshotMetadataBytes)
            let info : SnapshotInfo :=
              ⟨Number.ofNat (read 12 8 bytes),⟨UInt64.ofNat (read 20 8 bytes)⟩⟩
            assertSnapshotInfo info content.length
            pure (.ok content info)

end Snapshot

section Native

/-- `NATIVE_TYPES.indexOf(type) + 1`. -/
def NativeFileType.code : NativeFileType → ℕ
  | .file => 1
  | .directory => 2
  | .symlink => 3
  | .other => 4

/-- `NATIVE_TYPES[code - 1]`. -/
def nativeTypeOfCode : ℕ → Option NativeFileType
  | 1 => some .file
  | 2 => some .directory
  | 3 => some .symlink
  | 4 => some .other
  | _ => none

def NativeOperation.range : NativeOperation → Option NativeRange
  | read range => range
  | _ => none

/-- `nativeOperationCode`. -/
def NativeOperation.code : NativeOperation → ℕ
  | stat => 3
  | list => 4
  | read none => 1
  | read (some _) => 2

def sum : Number → Number → Number
  | .finite left, .finite right => .finite (left + right)
  | _, _ => .nan

def assertNativeRange (range : Option NativeRange) : Except String Unit :=
  match range with
  | none => .ok ()
  | some range =>
    if !isSafeInteger range.offset || isNegative range.offset || !isSafeInteger range.length ||
        isNegative range.length || exceeds nativeMaxBytes range.length ||
        !isSafeInteger (sum range.offset range.length) then
      .error invalidRequest
    else .ok ()

def encodeSecureWorkspaceNativeRequest (request : NativeRequest) : Except String Bytes := do
  let root ← encodeBoundedUtf8 request.root maxRootBytes
  let path := utf8 request.relativePath
  if maxPathBytes < path.length || path.contains 0 || utf8Text path ≠ some request.relativePath ||
      utf8Text root ≠ some request.root then
    .error invalidRequest
  else
    let range := request.operation.range
    assertNativeRange range
    pure (ascii "KSR3" ++ le 2 3 ++ le 2 request.operation.code ++ le 4 root.length ++
      le 4 path.length ++ le 4 nativeMaxBytes ++ le 8 (natural ((range.map (·.offset)).getD 0)) ++
      le 8 (natural ((range.map (·.length)).getD 0)) ++ root ++ path)

def assertNativeResponseHeader (bytes : Bytes) : Except String Unit :=
  if bytes.length < responseHeaderBytes || nativeMaxResponseBytes < bytes.length ||
      asciiText (bytes.take 4) ≠ "KSS3".toList || read 4 2 bytes ≠ 3 ||
      read 8 4 bytes ≠ bytes.length - responseHeaderBytes then
    .error malformedResponse
  else .ok ()

def nativeFailureResponse (bytes : Bytes) (code : ℕ) : Except String NativeResponse :=
  match codeToStatus code with
  | some (.closed status) =>
    if bytes.length ≠ responseHeaderBytes then .error malformedResponse else .ok (.closed status)
  | _ => .error malformedResponse

def nativeInfo (bytes : Bytes) : Except String NativeFileInfo :=
  match nativeTypeOfCode (read 12 2 bytes) with
  | none => .error malformedResponse
  | some type =>
    let size := Number.ofNat (read 16 8 bytes)
    let mtimeMs : Double := ⟨UInt64.ofNat (read 24 8 bytes)⟩
    if read 14 2 bytes ≠ 0 || !isSafeInteger size || isNegative size || !mtimeMs.isFinite then .error malformedResponse
    else .ok ⟨type,size,mtimeMs⟩

def decodeSecureWorkspaceNativeResponse (bytes : Bytes) : Except String NativeResponse := do
  assertNativeResponseHeader bytes
  let code := read 6 2 bytes
  if code ≠ 0 && code ≠ 10 then nativeFailureResponse bytes code
  else if bytes.length < responseHeaderBytes + nativeInfoBytes then .error malformedResponse
  else
    let info ← nativeInfo bytes
    let content := bytes.drop (responseHeaderBytes + nativeInfoBytes)
    if code = 10 then if content.length ≠ 0 then .error malformedResponse else pure (.wrongKind info)
    else pure (.ok info content)

def writeNativeInfo (info : NativeFileInfo) : Except String Bytes :=
  if info.type.code = 0 || !isSafeInteger info.size || isNegative info.size ||
      !info.mtimeMs.isFinite then
    .error invalidInfo
  else .ok (le 2 info.type.code ++ le 2 0 ++ le 8 (natural info.size) ++ le 8 info.mtimeMs.bits.toNat)

/-- `if (hasInfo) writeNativeInfo(...)`. -/
def writeOptionalInfo : Option NativeFileInfo → Except String Bytes
  | none => .ok []
  | some info => writeNativeInfo info

namespace NativeResponse

def info? : NativeResponse → Option NativeFileInfo
  | ok info _ => some info
  | wrongKind info => some info
  | closed _ => none

def payload : NativeResponse → Bytes
  | ok _ bytes => bytes
  | _ => []

def code : NativeResponse → ℕ
  | ok _ _ => statusToCode .ok
  | wrongKind _ => 10
  | closed status => statusToCode (.closed status)

end NativeResponse

def encodeSecureWorkspaceNativeResponse (response : NativeResponse) : Except String Bytes := do
  if nativeMaxBytes < response.payload.length then .error responseTooLarge
  else
    let info ← writeOptionalInfo response.info?
    let frame := ascii "KSS3" ++ le 2 3 ++ le 2 response.code ++
      le 4 ((if response.info?.isSome then nativeInfoBytes else 0) + response.payload.length) ++
      info ++ response.payload
    let _ ← decodeSecureWorkspaceNativeResponse frame
    pure frame

end Native

section Directory

def nativeDirectoryEntry (frame : Bytes) : Except String (NativeDirEntry × Bytes) :=
  if frame.length < 5 then .error malformedResponse
  else
    let length := read 1 4 frame
    match nativeTypeOfCode (read 0 1 frame) with
    | none => .error malformedResponse
    | some type =>
      if frame.length < 5 + length then .error malformedResponse
      else do
        let name ← decodeStrictUtf8 ((frame.drop 5).take length)
        if name = units "." || name = units ".." || name.contains (unit '/') then
          .error malformedResponse
        else pure (⟨name,type⟩,frame.drop (5 + length))

def nativeDirectoryEntries : ℕ → List Units → Bytes → Except String (List NativeDirEntry)
  | 0, _, frame => if frame.length ≠ 0 then .error malformedResponse else .ok []
  | count + 1, names, frame => do
    let entry ← nativeDirectoryEntry frame
    if names.contains entry.1.name then .error malformedResponse
    else
      let others ← nativeDirectoryEntries count (entry.1.name :: names) entry.2
      pure (entry.1 :: others)

def decodeSecureWorkspaceNativeDirectory (frame : Bytes) : Except String (List NativeDirEntry) :=
  if frame.length < 4 then .error malformedResponse
  else
    let count := read 0 4 frame
    if (frame.length - 4) / 6 < count then .error malformedResponse
    else nativeDirectoryEntries count [] (frame.drop 4)

def nativeDirectorySize : ℕ → List NativeDirEntry → Except String ℕ
  | size, [] => .ok size
  | size, entry :: entries =>
    let size := size + (5 + (utf8 entry.name).length)
    if nativeMaxBytes < size then .error responseTooLarge else nativeDirectorySize size entries

def writeNativeDirectoryEntry (entry : NativeDirEntry) : Except String Bytes :=
  let name := utf8 entry.name
  if entry.type.code = 0 then .error invalidInfo
  else if utf8Text name ≠ some entry.name then .error invalidName
  else .ok (le 1 entry.type.code ++ le 4 name.length ++ name)

def encodeSecureWorkspaceNativeDirectory (entries : List NativeDirEntry) : Except String Bytes := do
  let _ ← nativeDirectorySize 4 entries
  let written ← entries.mapM writeNativeDirectoryEntry
  let frame := le 4 entries.length ++ written.flatten
  let _ ← decodeSecureWorkspaceNativeDirectory frame
  pure frame

end Directory
end Keiko.SecureWorkspaceWire
