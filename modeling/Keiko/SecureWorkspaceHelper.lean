import Keiko.SecureWorkspaceWire

/-! The helper's reading of a request from its standard input, in its two builds, and the check of
a text that it makes on the bytes. -/
namespace Keiko.SecureWorkspaceWire
open Keiko.Library Keiko.Library.Bytes

inductive Build where
  | posix
  | windows
  deriving DecidableEq

/-- `struct request`. -/
structure HelperRequest where
  root : Bytes
  path : Bytes
  cap : ℕ
  version : ℕ
  operation : ℕ
  offset : ℕ
  length : ℕ
  deriving DecidableEq

def ksrCap : ℕ := 1048576
def ksrNativeCap : ℕ := 67108864
def ksrSafeInteger : ℕ := 9007199254740991
def ksrMaxComponents : ℕ := 64

section Utf8

/-- A continuation byte, `(b & 0xc0) == 0x80`. -/
def continues (b : UInt8) : Bool := b.toNat / 64 = 2

def codePoint : Bytes → Option (ℕ × Bytes)
  | [] => none
  | c :: rest =>
    if c.toNat < 0x80 then some (c.toNat,rest)
    else match rest with
      | d :: rest =>
        if 0xc2 ≤ c.toNat && c.toNat ≤ 0xdf && continues d then some (c.toNat % 32 * 64 + d.toNat % 64,rest)
        else match rest with
          | e :: rest =>
            if 0xe0 ≤ c.toNat && c.toNat ≤ 0xef && continues d && continues e then
              let cp := c.toNat % 16 * 4096 + d.toNat % 64 * 64 + e.toNat % 64
              if cp < 0x800 || (0xd800 ≤ cp && cp ≤ 0xdfff) then none else some (cp,rest)
            else match rest with
              | f :: rest =>
                if 0xf0 ≤ c.toNat && c.toNat ≤ 0xf4 && continues d && continues e && continues f then
                  let cp := c.toNat % 8 * 262144 + d.toNat % 64 * 4096 + e.toNat % 64 * 64 + f.toNat % 64
                  if cp < 0x10000 || 0x10ffff < cp then none else some (cp,rest)
                else none
              | [] => none
          | [] => none
      | [] => none

def isControl (cp : ℕ) : Bool :=
  cp = 0x7f || (cp < 0x20 && cp ≠ 9 && cp ≠ 10 && cp ≠ 13) || (0x80 ≤ cp && cp ≤ 0x9f)

def validUtf8Mode (text : Bool) : ℕ → Bytes → Bool
  | _, [] => true
  | 0, _ :: _ => false
  | fuel + 1, c :: rest =>
    match codePoint (c :: rest) with
    | none => false
    | some (cp,behind) =>
      if cp = 0 || (text && isControl cp) then false else validUtf8Mode text fuel behind

end Utf8

section Paths

def asciiNameEquals (value : Bytes) (expected : String) : Bool :=
  value.map (fun c => if 97 ≤ c.toNat && c.toNat ≤ 122 then c - 32 else c) = ascii expected

def windowsReservedPortName (name : Bytes) : Bool :=
  if name.length < 4 || (!asciiNameEquals (name.take 3) "COM" && !asciiNameEquals (name.take 3) "LPT")
  then false
  else if name.length = 4 then 49 ≤ read 3 1 name && read 3 1 name ≤ 57
  else name.length = 5 && read 3 1 name = 0xc2 && (read 4 1 name = 0xb9 || read 4 1 name = 0xb2 || read 4 1 name = 0xb3)

def windowsReservedComponent (build : Build) (component : Bytes) : Bool :=
  match build with
  | .posix => false
  | .windows =>
    let name := component.takeWhile (· ≠ 46)
    ["CON","PRN","AUX","NUL","CONIN$","CONOUT$","CLOCK$","GLOBALROOT","DEVICE","??"].any
        (asciiNameEquals name) || windowsReservedPortName name

def validComponent (build : Build) (component : Bytes) : Bool :=
  !component.contains 92 && component ≠ [] && component ≠ ascii "." && component ≠ ascii ".." &&
    !windowsReservedComponent build component &&
    (build = .posix || (component.getLast? ≠ some 46 && component.getLast? ≠ some 32 &&
      !component.any fun c => c = 58 || c = 63 || c = 126))

def validComponents (build : Build) : ℕ → ℕ → Bytes → Bool
  | _, _, [] => true
  | 0, _, _ :: _ => false
  | fuel + 1, components, path =>
    let component := path.takeWhile (· ≠ 47)
    components < ksrMaxComponents && validComponent build component &&
      validComponents build fuel (components + 1) ((path.dropWhile (· ≠ 47)).drop 1)

def validPath (build : Build) (path : Bytes) : Bool :=
  path ≠ [] && path.head? ≠ some 47 && path.head? ≠ some 92 && validComponents build path.length 0 path

def isAsciiLetter (c : ℕ) : Bool := (65 ≤ c && c ≤ 90) || (97 ≤ c && c ≤ 122)

def validRoot (build : Build) (root : Bytes) : Bool :=
  match build with
  | .posix => root.head? = some 47
  | .windows => 3 ≤ root.length && isAsciiLetter (read 0 1 root) && read 1 1 root = 58 &&
      (read 2 1 root = 47 || read 2 1 root = 92)

end Paths

section Parse

def parseBody (build : Build) (header body : Bytes) (version operation offset length : ℕ) :
    Except ClosedStatus HelperRequest :=
  let rootLen := read 8 4 header
  let pathLen := read 12 4 header
  let cap := read 16 4 header
  if rootLen = 0 || maxRootBytes < rootLen || maxPathBytes < pathLen ||
      (pathLen = 0 && version ≠ 3) || cap ≠ (if version = 3 then ksrNativeCap else ksrCap) then
    .error .malformedRequest
  else
    let root := body.take rootLen
    let path := (body.drop rootLen).take pathLen
    if body.length ≠ rootLen + pathLen || root.contains 0 || path.contains 0 ||
        !validUtf8Mode (version ≠ 3) root.length root ||
        !validUtf8Mode (version ≠ 3) path.length path then
      .error .malformedRequest
    else if !validRoot build root then .error .malformedRequest
    else if pathLen ≠ 0 && !validPath build path then .error .invalidPath
    else .ok ⟨root,path,cap,version,operation,offset,length⟩

def parseRequest (build : Build) (stdin : Bytes) : Except ClosedStatus HelperRequest :=
  if stdin.length < 20 then .error .malformedRequest
  else
    let header := stdin.take 20
    if header.take 4 = ascii "KSR3" && read 4 2 header = 3 then
      if stdin.length < 36 then .error .malformedRequest
      else
        let operation := read 6 2 header
        let offset := read 20 8 stdin
        let length := read 28 8 stdin
        if operation < 1 || 4 < operation || ksrNativeCap < length || ksrSafeInteger < offset ||
            ksrSafeInteger - offset < length ||
            (operation ≠ 2 && (offset ≠ 0 || length ≠ 0)) then
          .error .malformedRequest
        else parseBody build header (stdin.drop 36) 3 operation offset length
    else if header.take 4 = ascii "KSR2" && read 4 2 header = 2 then
      if read 6 2 header ≠ 0 then .error .malformedRequest
      else parseBody build header (stdin.drop 20) 2 0 0 0
    else if header.take 4 ≠ ascii "KSR1" || read 4 2 header ≠ 1 then .error .malformedRequest
    else if read 6 2 header ≠ 0 then .error .malformedRequest
    else parseBody build header (stdin.drop 20) 1 0 0 0

end Parse

end Keiko.SecureWorkspaceWire
