import Keiko.SecureWorkspaceRoundTrip
import Mathlib.Algebra.Order.BigOperators.Group.List

/-! The native lane: requests between the server, which writes them, and the helper, which reads
them, and the listings of directories. -/
namespace Keiko.SecureWorkspaceWire
open Keiko.Library Keiko.Library.Bytes List

section Request

variable {frame : Bytes} {build : Build}

def nativeRequestFrame (root path : Bytes) (operation offset length : ℕ) : Bytes :=
  ascii "KSR3" ++ le 2 3 ++ le 2 operation ++ le 4 root.length ++ le 4 path.length ++
    le 4 nativeMaxBytes ++ (le 8 offset ++ (le 8 length ++ (root ++ path)))

namespace NativeOperation

def offset (operation : NativeOperation) : ℕ := natural ((operation.range.map (·.offset)).getD 0)

def length (operation : NativeOperation) : ℕ := natural ((operation.range.map (·.length)).getD 0)

end NativeOperation

def helperRequest (request : NativeRequest) : HelperRequest where
  root := utf8 request.root
  path := utf8 request.relativePath
  cap := nativeMaxBytes
  version := 3
  operation := request.operation.code
  offset := request.operation.offset
  length := request.operation.length

def PathsAllowed (build : Build) (request : NativeRequest) : Prop :=
  validRoot build (utf8 request.root) = true ∧
    (utf8 request.relativePath = [] ∨ validPath build (utf8 request.relativePath) = true)

variable {hit : HelperRequest} {req : NativeRequest} {operation offset length v : ℕ} {header body : Bytes}

theorem encodeNativeRequest_eq_ok : encodeSecureWorkspaceNativeRequest req = .ok frame ↔
      encodeBoundedUtf8 req.root maxRootBytes = .ok (utf8 req.root) ∧
        req.root.wellFormed = true ∧ req.relativePath.wellFormed = true ∧
        (utf8 req.relativePath).length ≤ maxPathBytes ∧ 0 ∉ utf8 req.relativePath ∧
        assertNativeRange req.operation.range = .ok () ∧
        frame = nativeRequestFrame (utf8 req.root) (utf8 req.relativePath)
          req.operation.code req.operation.offset req.operation.length := by
  have frame_eq : ∀ root path : Bytes, ascii "KSR3" ++ le 2 3 ++ le 2 req.operation.code ++
      le 4 root.length ++ le 4 path.length ++ le 4 nativeMaxBytes ++
      le 8 req.operation.offset ++ le 8 req.operation.length ++ root ++ path =
        nativeRequestFrame root path req.operation.code req.operation.offset
          req.operation.length := by
    intro root path
    simp only [nativeRequestFrame,append_assoc]
  unfold encodeSecureWorkspaceNativeRequest
  rw [bind_eq_ok]
  constructor
  · intro done
    obtain ⟨root,rooted,done⟩ := done
    obtain ⟨refused,done⟩ := refuse_eq_ok.mp done
    obtain ⟨_,ranged,done⟩ := bind_eq_ok.mp done
    obtain ⟨rfl,_⟩ := encodeBoundedUtf8_eq_ok.mp rooted
    simp only [Bool.or_eq_true,decide_eq_true_eq,not_or,not_lt,not_not,contains_iff_mem] at refused
    obtain ⟨⟨⟨small,no_zero⟩,formed⟩,formed'⟩ := refused
    refine ⟨rooted,utf8Text_utf8_iff.mp formed',utf8Text_utf8_iff.mp formed,small,no_zero,ranged,?_⟩
    rw [← pure_eq_ok.mp done]
    exact frame_eq _ _
  · intro fs
    obtain ⟨rooted,formed',formed,small,no_zero,ranged,rfl⟩ := fs
    refine ⟨_,rooted,refuse_eq_ok.mpr ⟨?_,bind_eq_ok.mpr ⟨(),ranged,?_⟩⟩⟩
    · simp only [Bool.or_eq_true,decide_eq_true_eq,not_or,not_lt,not_not,contains_iff_mem]
      exact ⟨⟨⟨small,no_zero⟩,utf8Text_utf8_iff.mpr formed⟩,utf8Text_utf8_iff.mpr formed'⟩
    · rw [pure_eq_ok]
      exact frame_eq _ _

namespace HelperRequest

structure Valid (build : Build) (found : HelperRequest) : Prop where
  version : found.version = 3
  cap : found.cap = nativeMaxBytes
  operation : 1 ≤ found.operation ∧ found.operation ≤ 4
  length : found.length ≤ nativeMaxBytes
  offset : found.offset + found.length ≤ ksrSafeInteger
  whole : found.operation ≠ 2 → found.offset = 0 ∧ found.length = 0
  root : found.root ≠ [] ∧ found.root.length ≤ maxRootBytes ∧ 0 ∉ found.root ∧
    validUtf8Mode false found.root.length found.root = true
  path : found.path.length ≤ maxPathBytes ∧ 0 ∉ found.path ∧ validUtf8Mode false found.path.length found.path = true
  rooted : validRoot build found.root = true
  relative : found.path = [] ∨ validPath build found.path = true

end HelperRequest

theorem parseBody_eq_ok (native : v = 3) :
    parseBody build header body v operation offset length = .ok hit ↔
      hit = ⟨hit.root,hit.path,nativeMaxBytes,3,operation,offset,length⟩ ∧
        body = hit.root ++ hit.path ∧ read 8 4 header = hit.root.length ∧
        read 12 4 header = hit.path.length ∧ read 16 4 header = nativeMaxBytes ∧
        (hit.root ≠ [] ∧ hit.root.length ≤ maxRootBytes ∧ 0 ∉ hit.root ∧
          validUtf8Mode false hit.root.length hit.root = true) ∧
        (hit.path.length ≤ maxPathBytes ∧ 0 ∉ hit.path ∧ validUtf8Mode false hit.path.length hit.path = true) ∧
        validRoot build hit.root = true ∧
        (hit.path = [] ∨ validPath build hit.path = true) := by
  subst native
  unfold parseBody
  rw [refuse_eq_ok]
  constructor
  · intro done
    obtain ⟨sizes,done⟩ := done
    obtain ⟨contents,done⟩ := refuse_eq_ok.mp done
    obtain ⟨rooted,done⟩ := refuse_eq_ok.mp done
    obtain ⟨relative,done⟩ := refuse_eq_ok.mp done
    simp only [if_true,Bool.or_eq_true,Bool.and_eq_true,decide_eq_true_eq,not_or,not_lt,
      not_not,ne_eq,not_true,and_false,not_false_eq_true,and_true] at sizes
    obtain ⟨⟨⟨some_root,rootSmall⟩,pathSmall⟩,cap⟩ := sizes
    simp only [Bool.or_eq_true,decide_eq_true_eq,not_or,not_not,contains_iff_mem,
      Bool.not_eq_true',Bool.not_eq_false,ne_eq,not_true,decide_false] at contents
    obtain ⟨⟨⟨⟨size,rootZero⟩,pathZero⟩,rootText⟩,pathText⟩ := contents
    rw [Bool.not_eq_true',Bool.not_eq_false] at rooted
    rw [Bool.and_eq_true,decide_eq_true_eq,not_and,Bool.not_eq_true',Bool.not_eq_false] at relative
    obtain rfl := Except.ok.inj done
    have rootLength : (body.take (Bytes.read 8 4 header)).length = Bytes.read 8 4 header := by
      rw [length_take]
      omega
    have pathLength : ((body.drop (Bytes.read 8 4 header)).take
        (Bytes.read 12 4 header)).length = Bytes.read 12 4 header := by
      rw [length_take,length_drop]
      omega
    have all : (body.drop (Bytes.read 8 4 header)).take (Bytes.read 12 4 header) =
        body.drop (Bytes.read 8 4 header) := by
      apply take_of_length_le
      rw [length_drop]
      omega
    refine ⟨by rw [cap]; rfl,by rw [all,take_append_drop],rootLength.symm,pathLength.symm,cap,
      ⟨?_,rootLength.trans_le rootSmall,rootZero,rootText⟩,
      ⟨pathLength.trans_le pathSmall,pathZero,pathText⟩,rooted,?_⟩
    · intro empty
      have nothing : body.take (Bytes.read 8 4 header) = [] := empty
      rw [nothing] at rootLength
      exact some_root rootLength.symm
    · by_cases empty : Bytes.read 12 4 header = 0
      · left
        rw [empty]
        rfl
      · exact .inr (relative empty)
  · intro fs
    obtain ⟨whole,rfl,rootLength,pathLength,cap,root,path,rooted,relative⟩ := fs
    obtain ⟨some_root,rootSmall,rootZero,rootText⟩ := root
    obtain ⟨pathSmall,pathZero,pathText⟩ := path
    have filled : hit.root.length ≠ 0 := by rwa [Ne,length_eq_zero_iff]
    simp only [rootLength,pathLength,take_left,drop_left,take_length]
    refine ⟨?_,refuse_eq_ok.mpr ⟨?_,refuse_eq_ok.mpr ⟨?_,refuse_eq_ok.mpr ⟨?_,?_⟩⟩⟩⟩
    · simp only [if_true,Bool.or_eq_true,Bool.and_eq_true,decide_eq_true_eq,not_or,not_lt,
        not_not,ne_eq,not_true,and_false,not_false_eq_true,and_true]
      exact ⟨⟨⟨filled,rootSmall⟩,pathSmall⟩,cap⟩
    · simp only [Bool.or_eq_true,decide_eq_true_eq,not_or,not_not,contains_iff_mem,
        Bool.not_eq_true',Bool.not_eq_false,ne_eq,not_true,decide_false]
      exact ⟨⟨⟨⟨length_append,rootZero⟩,pathZero⟩,rootText⟩,pathText⟩
    · rw [rooted]
      decide
    · rw [Bool.and_eq_true,decide_eq_true_eq,not_and,Bool.not_eq_true',Bool.not_eq_false]
      intro some_path
      apply relative.resolve_left
      intro empty
      rw [empty] at some_path
      exact some_path rfl
    · rw [cap]
      exact congrArg Except.ok whole.symm

theorem parseBody_version
    (done : parseBody build header body v operation offset length = .ok hit) :
    hit.version = v := by
  obtain ⟨_,done⟩ := refuse_eq_ok.mp done
  obtain ⟨_,done⟩ := refuse_eq_ok.mp done
  obtain ⟨_,done⟩ := refuse_eq_ok.mp done
  obtain ⟨_,done⟩ := refuse_eq_ok.mp done
  rw [← Except.ok.inj done]

theorem request_parts (long : 36 ≤ frame.length) : frame = frame.take 4 ++ le 2 (read 4 2 frame) ++
    le 2 (read 6 2 frame) ++ le 4 (read 8 4 frame) ++ le 4 (read 12 4 frame) ++
    le 4 (read 16 4 frame) ++ (le 8 (read 20 8 frame) ++ (le 8 (read 28 8 frame) ++ frame.drop 36)) := by
  obtain ⟨magic,a,b,third,fourth,fifth,payload,whole,four,two,two',size,size',size''⟩ :=
    request_cut (show 20 ≤ frame.length by omega)
  obtain ⟨start,v,flags,sized,sized',capped,behind,total⟩ :=
    requestFields four two two' size size' size'' payload
  rw [← whole] at start v flags sized sized' capped behind total
  obtain ⟨offset,rest,rfl,eight⟩ := @cut 8 payload (by omega)
  rw [length_append] at total
  obtain ⟨length,rest,rfl,eight'⟩ := @cut 8 rest (by omega)
  have offsetRead : Bytes.read 20 8 frame = fromLe offset := by
    rw [show 20 = 20 + 0 from rfl,read_add,behind,read_here eight]
  have lengthRead : Bytes.read 28 8 frame = fromLe length := by
    rw [show 28 = 20 + 8 from rfl,read_add,behind,read_at eight eight']
  have left : frame.drop 36 = rest := by
    rw [show 36 = 20 + 16 from rfl,← drop_drop,behind,← append_assoc]
    exact drop_left' (by rw [length_append,eight,eight'])
  rw [start,v,flags,sized,sized',capped,offsetRead,lengthRead,left,
    ← eq_le_of_fromLe two rfl,← eq_le_of_fromLe two' rfl,← eq_le_of_fromLe size rfl,
    ← eq_le_of_fromLe size' rfl,← eq_le_of_fromLe size'' rfl,← eq_le_of_fromLe eight rfl,
    ← eq_le_of_fromLe eight' rfl]
  exact whole

theorem parseRequest_eq_ok :
    (parseRequest build frame = .ok hit ∧ hit.version = 3) ↔ hit.Valid build ∧
      frame = nativeRequestFrame hit.root hit.path hit.operation hit.offset
        hit.length := by
  have four : (frame.take 20).take 4 = frame.take 4 := by rw [take_take]; rfl
  unfold parseRequest
  rw [refuse_eq_ok]
  dsimp only
  rw [four,read_take (by omega),read_take (by omega)]
  constructor
  · intro done
    obtain ⟨⟨long,done⟩,native⟩ := done
    split_ifs at done with lane short refused two other one
    · simp only [Bool.or_eq_true,Bool.and_eq_true,decide_eq_true_eq,not_or,not_lt,not_and,not_not] at refused
      obtain ⟨⟨⟨⟨⟨low,high⟩,lengthSmall⟩,offsetSmall⟩,bothSmall⟩,whole⟩ := refused
      obtain ⟨shape,body,rootLength,pathLength,cap,root,path,rooted,relative⟩ :=
        (parseBody_eq_ok rfl).mp done
      rw [Bool.and_eq_true,decide_eq_true_eq,decide_eq_true_eq] at lane
      rw [read_take (by omega)] at rootLength pathLength cap
      have parts := request_parts (Nat.not_lt.mp short)
      rw [lane.1,lane.2,body,rootLength,pathLength,cap] at parts
      have operation : hit.operation = Bytes.read 6 2 frame := by rw [shape]
      have offset : hit.offset = Bytes.read 20 8 frame := by rw [shape]
      have length : hit.length = Bytes.read 28 8 frame := by rw [shape]
      have capped : hit.cap = nativeMaxBytes := by rw [shape]
      rw [← operation] at low high whole parts
      rw [← offset] at offsetSmall bothSmall whole parts
      rw [← length] at lengthSmall bothSmall whole parts
      refine ⟨⟨native,capped,⟨by omega,high⟩,lengthSmall,by omega,?_,root,path,rooted,relative⟩,parts⟩
      intro other
      have none_left := whole other
      omega
    · cases (parseBody_version done).symm.trans native
    · cases (parseBody_version done).symm.trans native
  · intro fs
    obtain ⟨valid,whole⟩ := fs
    obtain ⟨low,high⟩ := valid.operation
    obtain ⟨_,rootSmall,_⟩ := valid.root
    have pathSmall := valid.path.1
    have lengthSmall := valid.length
    have bothSmall := valid.offset
    have unranged := valid.whole
    unfold maxRootBytes at rootSmall
    unfold maxPathBytes at pathSmall
    unfold nativeMaxBytes at lengthSmall
    unfold ksrSafeInteger at bothSmall
    obtain ⟨start,v,flags,sized,sized',capped,behind,long⟩ :=
      @requestFields (ascii "KSR3") (le 2 3) (le 2 hit.operation) (le 4 hit.root.length)
        (le 4 hit.path.length) (le 4 nativeMaxBytes) rfl (length_le _ _) (length_le _ _)
        (length_le _ _) (length_le _ _) (length_le _ _)
        (le 8 hit.offset ++ (le 8 hit.length ++ (hit.root ++ hit.path)))
    rw [← nativeRequestFrame,← whole] at start v flags sized sized' capped behind long
    rw [fromLe_le (by decide)] at v
    rw [fromLe_le (by omega)] at flags sized sized'
    rw [fromLe_le (by unfold nativeMaxBytes; omega)] at capped
    have offsetRead : Bytes.read 20 8 frame = hit.offset := by
      rw [show 20 = 20 + 0 from rfl,read_add,behind,read_here (length_le _ _),fromLe_le (by omega)]
    have lengthRead : Bytes.read 28 8 frame = hit.length := by
      rw [show 28 = 20 + 8 from rfl,read_add,behind,read_at (length_le _ _) (length_le _ _),fromLe_le (by omega)]
    have left : frame.drop 36 = hit.root ++ hit.path := by
      rw [show 36 = 20 + 16 from rfl,← drop_drop,behind,← append_assoc]
      exact drop_left' (by simp)
    simp only [length_append,length_le] at long
    refine ⟨⟨by omega,?_⟩,valid.version⟩
    rw [if_pos (by simp [start,v]),refuse_eq_ok]
    refine ⟨by omega,refuse_eq_ok.mpr ⟨?_,?_⟩⟩
    · rw [flags,offsetRead,lengthRead]
      simp only [Bool.or_eq_true,Bool.and_eq_true,decide_eq_true_eq]
      unfold ksrNativeCap ksrSafeInteger
      omega
    · rw [parseBody_eq_ok rfl,read_take (by omega),read_take (by omega),read_take (by omega),
        flags,offsetRead,lengthRead]
      refine ⟨?_,left,sized,sized',capped,valid.root,valid.path,valid.rooted,valid.relative⟩
      have native := valid.version
      have cap := valid.cap
      cases hit
      simp only at native cap
      rw [native,cap]

theorem isSafeInteger_ofNat (n : ℕ) : isSafeInteger (Number.ofNat n) = true ↔ n ≤ 2 ^ 53 - 1 := by
  rw [Number.ofNat,isSafeInteger,Bool.and_eq_true,decide_eq_true_eq,decide_eq_true_eq,
    Rat.num_natCast,Rat.den_natCast,Int.natAbs_natCast]
  exact and_iff_right rfl

theorem isNegative_ofNat (n : ℕ) : isNegative (Number.ofNat n) = false := by
  simp [isNegative,Number.ofNat]

theorem exceeds_ofNat (bound n : ℕ) : exceeds bound (Number.ofNat n) = true ↔ bound < n := by
  simp [exceeds,Number.ofNat]

theorem sum_ofNat (a b : ℕ) :
    sum (Number.ofNat a) (Number.ofNat b) = Number.ofNat (a + b) := by
  simp [sum,Number.ofNat]

theorem assertNativeRange_some {range : NativeRange} : assertNativeRange (some range) = .ok () ↔ ∃ offset length : ℕ,
      range = ⟨Number.ofNat offset,Number.ofNat length⟩ ∧ length ≤ nativeMaxBytes ∧
        offset + length ≤ ksrSafeInteger := by
  rw [assertNativeRange,refuse_eq_ok]
  simp only [Bool.or_eq_true,Bool.not_eq_true',not_or,Bool.not_eq_false,Bool.not_eq_true,and_true]
  constructor
  · intro done
    obtain ⟨⟨⟨⟨⟨safe,positive⟩,safe'⟩,positive'⟩,small⟩,both⟩ := done
    obtain ⟨offset,_⟩ := safe_natural safe positive
    obtain ⟨length,_⟩ := safe_natural safe' positive'
    rw [← offset,← length,sum_ofNat,isSafeInteger_ofNat] at both
    rw [← length,← Bool.not_eq_true,exceeds_ofNat] at small
    refine ⟨natural range.offset,natural range.length,?_,by omega,?_⟩
    · rw [offset,length]
    · unfold ksrSafeInteger
      omega
  · intro fs
    obtain ⟨offset,length,rfl,small,both⟩ := fs
    unfold nativeMaxBytes at small
    unfold ksrSafeInteger at both
    refine ⟨⟨⟨⟨⟨?_,isNegative_ofNat _⟩,?_⟩,isNegative_ofNat _⟩,?_⟩,?_⟩
    · exact (isSafeInteger_ofNat _).mpr (by omega)
    · exact (isSafeInteger_ofNat _).mpr (by omega)
    · rw [← Bool.not_eq_true,exceeds_ofNat]
      unfold nativeMaxBytes
      omega
    · rw [sum_ofNat]
      exact (isSafeInteger_ofNat _).mpr (by omega)

theorem operation_bounds {operation : NativeOperation} (ranged : assertNativeRange operation.range = .ok ()) :
    (1 ≤ operation.code ∧ operation.code ≤ 4) ∧ operation.length ≤ nativeMaxBytes ∧
      operation.offset + operation.length ≤ ksrSafeInteger ∧
      (operation.code ≠ 2 → operation.offset = 0 ∧ operation.length = 0) := by
  have zero : natural 0 = 0 := natural_ofNat 0
  cases operation with
  | stat =>
    exact ⟨by decide,by simp [NativeOperation.length,NativeOperation.range,zero],
      by simp [NativeOperation.offset,NativeOperation.length,NativeOperation.range,zero],
      fun _ => ⟨zero,zero⟩⟩
  | list =>
    exact ⟨by decide,by simp [NativeOperation.length,NativeOperation.range,zero],
      by simp [NativeOperation.offset,NativeOperation.length,NativeOperation.range,zero],
      fun _ => ⟨zero,zero⟩⟩
  | read range =>
    cases range with
    | none =>
      exact ⟨by decide,by simp [NativeOperation.length,NativeOperation.range,zero],
        by simp [NativeOperation.offset,NativeOperation.length,NativeOperation.range,zero],
        fun _ => ⟨zero,zero⟩⟩
    | some range =>
      obtain ⟨offset,length,rfl,small,both⟩ := (assertNativeRange_some).mp ranged
      have offset_eq : NativeOperation.offset
          (.read (some ⟨Number.ofNat offset,Number.ofNat length⟩)) = offset := natural_ofNat offset
      have length_eq : NativeOperation.length
          (.read (some ⟨Number.ofNat offset,Number.ofNat length⟩)) = length := natural_ofNat length
      rw [offset_eq,length_eq]
      refine ⟨by simp [NativeOperation.code],small,both,?_⟩
      intro other
      exact absurd rfl other

def operationOf (operation offset length : ℕ) : NativeOperation :=
  if operation = 1 then .read none
  else if operation = 2 then .read (some ⟨Number.ofNat offset,Number.ofNat length⟩)
  else if operation = 3 then .stat
  else .list

theorem operationOf_fields (valid : hit.Valid build) :
    let operation := operationOf hit.operation hit.offset hit.length
    operation.code = hit.operation ∧ operation.offset = hit.offset ∧
      operation.length = hit.length ∧ assertNativeRange operation.range = .ok () := by
  have zero : natural 0 = 0 := natural_ofNat 0
  obtain ⟨low,high⟩ := valid.operation
  have unranged := valid.whole
  dsimp only
  by_cases ranged : hit.operation = 2
  · rw [operationOf,if_neg (by omega),if_pos ranged]
    exact ⟨ranged.symm,natural_ofNat _,natural_ofNat _,(assertNativeRange_some).mpr ⟨_,_,rfl,valid.length,valid.offset⟩⟩
  · obtain ⟨offset,length⟩ := unranged ranged
    rw [offset,length]
    unfold operationOf
    split_ifs with one three
    · exact ⟨one.symm,zero,zero,rfl⟩
    · exact ⟨three.symm,zero,zero,rfl⟩
    · exact ⟨by rw [NativeOperation.code]; omega,zero,zero,rfl⟩

theorem parse_encodeNativeRequest (done : encodeSecureWorkspaceNativeRequest req = .ok frame) :
    parseRequest build frame = .ok (helperRequest req) ↔ PathsAllowed build req := by
  obtain ⟨rooted,_,_,pathSmall,pathZero,ranged,whole⟩ := (encodeNativeRequest_eq_ok).mp done
  obtain ⟨_,some_root,rootSmall,rootZero⟩ := encodeBoundedUtf8_eq_ok.mp rooted
  obtain ⟨operation,lengthSmall,bothSmall,unranged⟩ := operation_bounds ranged
  constructor
  · intro parsed
    obtain ⟨valid,_⟩ := (parseRequest_eq_ok).mp ⟨parsed,rfl⟩
    exact ⟨valid.rooted,valid.relative⟩
  · intro allowed
    have valid : (helperRequest req).Valid build := {
      version := rfl
      cap := rfl
      operation := operation
      length := lengthSmall
      offset := bothSmall
      whole := unranged
      root := ⟨some_root,rootSmall,rootZero,validUtf8Mode_encodeUtf8 le_rfl rootZero⟩
      path := ⟨pathSmall,pathZero,validUtf8Mode_encodeUtf8 le_rfl pathZero⟩
      rooted := allowed.1
      relative := allowed.2 }
    exact (parseRequest_eq_ok.mpr ⟨valid,whole⟩).1

theorem encode_parseRequest
    (done : parseRequest build frame = .ok hit) (native : hit.version = 3) :
    ∃ req, helperRequest req = hit ∧ encodeSecureWorkspaceNativeRequest req = .ok frame := by
  obtain ⟨valid,whole⟩ := (parseRequest_eq_ok).mp ⟨done,native⟩
  obtain ⟨some_root,rootSmall,rootZero,rootText⟩ := valid.root
  obtain ⟨pathSmall,pathZero,pathText⟩ := valid.path
  obtain ⟨root,rooted⟩ := encodeUtf8_of_validUtf8Mode rootText
  obtain ⟨path,relative⟩ := encodeUtf8_of_validUtf8Mode pathText
  obtain ⟨code,offset,length,ranged⟩ := operationOf_fields valid
  refine ⟨⟨Units.ofText root,Units.ofText path,operationOf hit.operation hit.offset hit.length⟩,?_,?_⟩
  · rw [helperRequest,utf8_ofText,utf8_ofText,← rooted,← relative,code,offset,length]
    have cap := valid.cap
    cases hit
    simp only at native cap
    rw [native,cap]
  · rw [encodeNativeRequest_eq_ok]
    simp only [utf8_ofText,← rooted,← relative,code,offset,length]
    refine ⟨?_,Units.wellFormed_ofText _,Units.wellFormed_ofText _,pathSmall,pathZero,ranged,whole⟩
    rw [encodeBoundedUtf8_eq_ok,utf8_ofText]
    exact ⟨rooted,some_root,rootSmall,rootZero⟩

end Request

section Directory

variable {frame : Bytes} {es : List NativeDirEntry} {e : NativeDirEntry}

def entryBytes (entry : NativeDirEntry) : Bytes :=
  le 1 entry.type.code ++ (le 4 (utf8 entry.name).length ++ utf8 entry.name)

def ValidName (name : Units) : Prop :=
  decodeStrictUtf8 (utf8 name) = .ok name ∧ name ≠ units "." ∧ name ≠ units ".." ∧
    unit '/' ∉ name

theorem nativeDirectoryEntry_eq_ok {rest : Bytes} :
    nativeDirectoryEntry frame = .ok (e,rest) ↔ frame = entryBytes e ++ rest ∧
      ValidName e.name ∧ (utf8 e.name).length < 256 ^ 4 := by
  unfold nativeDirectoryEntry
  rw [refuse_eq_ok]
  constructor
  · intro done
    obtain ⟨long,done⟩ := done
    obtain ⟨kind,behind,rfl,one⟩ := @cut 1 frame (by omega)
    rw [length_append] at long
    obtain ⟨size,content,rfl,four⟩ := @cut 4 behind (by omega)
    have kindRead : Bytes.read 0 1 (kind ++ (size ++ content)) = fromLe kind := read_here one _
    have sizeRead : Bytes.read 1 4 (kind ++ (size ++ content)) = fromLe size :=
      read_at one four _
    have left : ∀ n, (kind ++ (size ++ content)).drop (5 + n) = content.drop n := by
      intro n
      rw [← drop_drop,← append_assoc]
      congr 1
      exact drop_left' (by rw [length_append,one,four])
    have five := left 0
    rw [add_zero,drop_zero] at five
    dsimp only at done
    rw [kindRead,sizeRead,five,left] at done
    cases known : nativeTypeOfCode (fromLe kind) with
    | none =>
      rw [known] at done
      cases done
    | some type =>
      rw [known] at done
      obtain ⟨short,done⟩ := refuse_eq_ok.mp done
      obtain ⟨name,read,done⟩ := bind_eq_ok.mp done
      obtain ⟨refused,done⟩ := refuse_eq_ok.mp done
      obtain ⟨rfl,rfl⟩ := Prod.mk.inj (pure_eq_ok.mp done)
      simp only [Bool.or_eq_true,decide_eq_true_eq,not_or,contains_iff_mem] at refused
      obtain ⟨⟨dot,dots⟩,slash⟩ := refused
      have spelled := utf8_of_utf8Text (decodeStrictUtf8_eq_ok.mp read).1
      simp only [length_append,one,four] at short
      have length : (content.take (fromLe size)).length = fromLe size := by
        rw [length_take]
        omega
      have bound := fromLe_lt size
      rw [four] at bound
      refine ⟨?_,⟨by rw [spelled]; exact read,dot,dots,slash⟩,by rw [spelled,length]; exact bound⟩
      rw [entryBytes,spelled,length,← nativeTypeOfCode_eq_some.mp known,
        ← eq_le_of_fromLe one rfl,← eq_le_of_fromLe four rfl,append_assoc,append_assoc,
        take_append_drop]
  · intro fs
    obtain ⟨rfl,valid,small⟩ := fs
    obtain ⟨read,dot,dots,slash⟩ := valid
    have known := nativeType_code e.type
    have kindRead : Bytes.read 0 1 (entryBytes e ++ rest) = e.type.code := by
      rw [entryBytes,append_assoc,read_here (length_le _ _),fromLe_le (by omega)]
    have sizeRead : Bytes.read 1 4 (entryBytes e ++ rest) = (utf8 e.name).length := by
      rw [entryBytes,append_assoc,append_assoc,read_at (length_le _ _) (length_le _ _),fromLe_le small]
    have total : (entryBytes e ++ rest).length = 5 + (utf8 e.name).length + rest.length := by
      simp only [entryBytes,length_append,length_le]
      omega
    have five : (entryBytes e ++ rest).drop 5 = utf8 e.name ++ rest := by
      rw [entryBytes,← append_assoc (le 1 _),append_assoc _ (utf8 _)]
      exact drop_left' (by simp)
    refine ⟨by omega,?_⟩
    dsimp only
    rw [kindRead,sizeRead,nativeTypeOfCode_code,five,take_left,← drop_drop,five,drop_left]
    refine refuse_eq_ok.mpr ⟨by omega,bind_eq_ok.mpr ⟨e.name,read,refuse_eq_ok.mpr ⟨?_,rfl⟩⟩⟩
    simp only [Bool.or_eq_true,decide_eq_true_eq,not_or,contains_iff_mem]
    exact ⟨⟨dot,dots⟩,slash⟩

theorem nativeDirectoryEntries_eq_ok : ∀ {count : ℕ} {names : List Units} {frame : Bytes}
    {es : List NativeDirEntry}, nativeDirectoryEntries count names frame = .ok es ↔
      es.length = count ∧ frame = es.flatMap entryBytes ∧
        (∀ e ∈ es, ValidName e.name ∧ (utf8 e.name).length < 256 ^ 4) ∧
        (es.map NativeDirEntry.name).Nodup ∧ ∀ e ∈ es, e.name ∉ names := by
  intro count
  induction count with
  | zero =>
    intro names frame es
    rw [nativeDirectoryEntries,refuse_eq_ok]
    constructor
    · intro done
      obtain ⟨empty,done⟩ := done
      obtain rfl := Except.ok.inj done
      rw [not_not,length_eq_zero_iff] at empty
      simp [empty]
    · intro fs
      obtain ⟨none_left,rfl,_⟩ := fs
      rw [length_eq_zero_iff.mp none_left]
      simp
  | succ count ih =>
    intro names frame es
    rw [nativeDirectoryEntries,bind_eq_ok]
    constructor
    · intro done
      obtain ⟨⟨e,behind⟩,first,done⟩ := done
      obtain ⟨fresh,done⟩ := refuse_eq_ok.mp done
      obtain ⟨others,post,done⟩ := bind_eq_ok.mp done
      obtain rfl := pure_eq_ok.mp done
      obtain ⟨rfl,valid⟩ := (nativeDirectoryEntry_eq_ok).mp first
      obtain ⟨counted,whole,allValid,nodup,apart⟩ := ih.mp post
      rw [contains_iff_mem] at fresh
      dsimp only at whole apart
      refine ⟨by rw [length_cons,counted],by rw [whole,flatMap_cons],?_,?_,?_⟩
      · intro other mem
        obtain rfl | mem := mem_cons.mp mem
        · exact valid
        · exact allValid other mem
      · rw [map_cons,nodup_cons]
        refine ⟨?_,nodup⟩
        intro mem
        obtain ⟨other,inside,same⟩ := mem_map.mp mem
        exact apart other inside (by rw [same]; exact mem_cons_self)
      · intro other mem
        obtain rfl | mem := mem_cons.mp mem
        · exact fresh
        · exact fun inside => apart other mem (mem_cons_of_mem _ inside)
    · intro fs
      obtain ⟨counted,rfl,allValid,nodup,apart⟩ := fs
      cases es with
      | nil => cases counted
      | cons e es =>
        rw [map_cons,nodup_cons] at nodup
        have valid := allValid e (by simp)
        refine ⟨(e,es.flatMap entryBytes),?_,refuse_eq_ok.mpr ⟨?_,?_⟩⟩
        · exact (nativeDirectoryEntry_eq_ok).mpr ⟨flatMap_cons,valid⟩
        · rw [contains_iff_mem]
          exact apart e (by simp)
        · refine bind_eq_ok.mpr ⟨es,ih.mpr ⟨by simpa using counted,rfl,?_,nodup.2,?_⟩,rfl⟩
          · exact fun other mem => allValid other (mem_cons_of_mem _ mem)
          · intro other mem inside
            obtain same | inside := mem_cons.mp inside
            · exact nodup.1 (mem_map.mpr ⟨other,mem,same⟩)
            · exact apart other (mem_cons_of_mem _ mem) inside

def directoryFrame (entries : List NativeDirEntry) : Bytes :=
  le 4 entries.length ++ entries.flatMap entryBytes

def directorySize (entries : List NativeDirEntry) : ℕ :=
  (entries.map fun entry => 5 + (utf8 entry.name).length).sum

theorem length_entries (es : List NativeDirEntry) :
    (es.flatMap entryBytes).length = directorySize es := by
  induction es with
  | nil => rfl
  | cons e es ih =>
    rw [flatMap_cons,length_append,ih,directorySize,directorySize,map_cons,sum_cons,entryBytes]
    simp only [length_append,length_le]
    omega

theorem decodeNativeDirectory_eq_ok :
    decodeSecureWorkspaceNativeDirectory frame = .ok es ↔
      frame = directoryFrame es ∧ es.length < 256 ^ 4 ∧
        (∀ e ∈ es, ValidName e.name ∧ (utf8 e.name).length < 256 ^ 4) ∧
        (es.map NativeDirEntry.name).Nodup := by
  unfold decodeSecureWorkspaceNativeDirectory
  rw [refuse_eq_ok]
  constructor
  · intro done
    obtain ⟨long,done⟩ := done
    obtain ⟨_,done⟩ := refuse_eq_ok.mp done
    obtain ⟨counted,whole,valid,nodup,_⟩ := (nativeDirectoryEntries_eq_ok).mp done
    obtain ⟨size,content,rfl,four⟩ := @cut 4 frame (by omega)
    have bound := fromLe_lt size
    rw [four] at bound
    rw [read_here four] at counted
    rw [drop_left' four] at whole
    refine ⟨?_,by rw [counted]; exact bound,valid,nodup⟩
    rw [directoryFrame,← whole,← eq_le_of_fromLe four counted.symm]
  · intro fs
    obtain ⟨rfl,small,valid,nodup⟩ := fs
    have counted : Bytes.read 0 4 (directoryFrame es) = es.length := by
      rw [directoryFrame,read_here (length_le _ _),fromLe_le small]
    have behind : (directoryFrame es).drop 4 = es.flatMap entryBytes :=
      drop_left' (length_le _ _)
    have total : (directoryFrame es).length = 4 + directorySize es := by
      rw [directoryFrame,length_append,length_le,length_entries]
    have least : 6 * es.length ≤ directorySize es := by
      clear small nodup counted behind total
      induction es with
      | nil => exact Nat.zero_le _
      | cons e es ih =>
        have post := ih fun other mem => valid other (mem_cons_of_mem _ mem)
        have filled := (decodeStrictUtf8_eq_ok.mp (valid e (by simp)).1.1).2.1
        have positive := length_pos_iff.mpr filled
        rw [directorySize,map_cons,sum_cons,← directorySize,length_cons]
        omega
    refine ⟨by omega,?_⟩
    dsimp only
    rw [counted,behind]
    refine refuse_eq_ok.mpr ⟨by omega,?_⟩
    exact (nativeDirectoryEntries_eq_ok).mpr ⟨rfl,rfl,valid,nodup,by simp⟩

theorem nativeDirectorySize_eq_ok : ∀ {es : List NativeDirEntry} {size total : ℕ},
    size ≤ nativeMaxBytes → (nativeDirectorySize size es = .ok total ↔
      total = size + directorySize es ∧ total ≤ nativeMaxBytes) := by
  intro es
  induction es with
  | nil =>
    intro size total small
    rw [nativeDirectorySize,Except.ok.injEq,directorySize,map_nil,sum_nil,add_zero]
    constructor
    · intro same
      exact ⟨same.symm,by omega⟩
    · exact fun fs => fs.1.symm
  | cons e es ih =>
    intro size total small
    rw [nativeDirectorySize,refuse_eq_ok,directorySize,map_cons,sum_cons,← directorySize]
    constructor
    · intro done
      obtain ⟨fits,done⟩ := done
      obtain ⟨counted,bounded⟩ := (ih (by omega)).mp done
      exact ⟨by omega,bounded⟩
    · intro fs
      obtain ⟨counted,bounded⟩ := fs
      exact ⟨by omega,(ih (by omega)).mpr ⟨by omega,bounded⟩⟩

theorem writeNativeDirectoryEntry_eq_ok {written : Bytes} :
    writeNativeDirectoryEntry e = .ok written ↔ e.name.wellFormed = true ∧ written = entryBytes e := by
  have known := nativeType_code e.type
  unfold writeNativeDirectoryEntry
  rw [refuse_eq_ok,refuse_eq_ok,not_not,utf8Text_utf8_iff,Except.ok.injEq,entryBytes,← append_assoc]
  constructor
  · intro done
    exact ⟨done.2.1,done.2.2.symm⟩
  · intro fs
    exact ⟨by omega,fs.1,fs.2.symm⟩

theorem writeEntries_eq_ok : ∀ {es : List NativeDirEntry} {written : List Bytes},
    es.mapM writeNativeDirectoryEntry = .ok written ↔
      (∀ e ∈ es, e.name.wellFormed = true) ∧ written = es.map entryBytes := by
  intro es
  induction es with
  | nil =>
    intro written
    rw [mapM_nil,pure_eq_ok]
    constructor
    · intro same
      exact ⟨by simp,same.symm⟩
    · exact fun fs => fs.2.symm
  | cons e es ih =>
    intro written
    rw [mapM_cons,bind_eq_ok]
    constructor
    · intro done
      obtain ⟨a,one,done⟩ := done
      obtain ⟨others,post,done⟩ := bind_eq_ok.mp done
      obtain rfl := pure_eq_ok.mp done
      obtain ⟨formed,rfl⟩ := (writeNativeDirectoryEntry_eq_ok).mp one
      obtain ⟨allFormed,rfl⟩ := ih.mp post
      refine ⟨?_,rfl⟩
      intro other mem
      obtain rfl | mem := mem_cons.mp mem
      · exact formed
      · exact allFormed other mem
    · intro fs
      obtain ⟨formed,rfl⟩ := fs
      exact ⟨_,(writeNativeDirectoryEntry_eq_ok).mpr ⟨formed e (by simp),rfl⟩,
        bind_eq_ok.mpr ⟨_,ih.mpr ⟨fun other mem => formed other (mem_cons_of_mem _ mem),rfl⟩,rfl⟩⟩

theorem entries_injective : ∀ {first b : List NativeDirEntry},
    first.length = b.length → first.flatMap entryBytes = b.flatMap entryBytes →
      (∀ e ∈ first, e.name.wellFormed = true ∧ (utf8 e.name).length < 256 ^ 4) →
      (∀ e ∈ b, e.name.wellFormed = true ∧ (utf8 e.name).length < 256 ^ 4) →
      first = b := by
  intro first
  induction first with
  | nil =>
    intro b sized _ _ _
    exact (length_eq_zero_iff.mp sized.symm).symm
  | cons e first ih =>
    intro b sized same formed formed'
    cases b with
    | nil => cases sized
    | cons other b =>
      obtain ⟨named,short⟩ := formed e (by simp)
      obtain ⟨named',short'⟩ := formed' other (by simp)
      have known := nativeType_code e.type
      have known' := nativeType_code other.type
      rw [flatMap_cons,flatMap_cons,entryBytes,entryBytes,append_assoc,append_assoc,append_assoc,append_assoc] at same
      obtain ⟨kinds,same⟩ := append_inj same ((length_le _ _).trans (length_le _ _).symm)
      obtain ⟨sizes,same⟩ := append_inj same ((length_le _ _).trans (length_le _ _).symm)
      have codes := congrArg fromLe kinds
      have lengths := congrArg fromLe sizes
      rw [fromLe_le (by omega),fromLe_le (by omega)] at codes
      rw [fromLe_le short,fromLe_le short'] at lengths
      obtain ⟨names,same⟩ := append_inj same lengths
      have types : e.type = other.type := by
        have decoded := nativeTypeOfCode_code e.type
        rw [codes,nativeTypeOfCode_code] at decoded
        exact (Option.some.inj decoded).symm
      have name : e.name = other.name := by
        have read := utf8Text_utf8_iff.mpr named
        rw [names,utf8Text_utf8_iff.mpr named'] at read
        exact (Option.some.inj read).symm
      have whole : e = other := by
        cases e
        cases other
        simp only at types name
        rw [types,name]
      rw [whole,ih (by simpa using sized) same (fun other mem => formed other (mem_cons_of_mem _ mem))
        fun other mem => formed' other (mem_cons_of_mem _ mem)]

theorem encodeNativeDirectory_eq_ok :
    encodeSecureWorkspaceNativeDirectory es = .ok frame ↔ frame = directoryFrame es ∧
      frame.length ≤ nativeMaxBytes ∧
      decodeSecureWorkspaceNativeDirectory frame = .ok es := by
  have total : (directoryFrame es).length = 4 + directorySize es := by
    rw [directoryFrame,length_append,length_le,length_entries]
  have start : 4 ≤ nativeMaxBytes := by
    unfold nativeMaxBytes
    omega
  unfold encodeSecureWorkspaceNativeDirectory
  rw [bind_eq_ok]
  constructor
  · intro done
    obtain ⟨size,sized,done⟩ := done
    obtain ⟨written,wrote,done⟩ := bind_eq_ok.mp done
    obtain ⟨decoded,read,done⟩ := bind_eq_ok.mp done
    obtain rfl := pure_eq_ok.mp done
    obtain ⟨rfl,small⟩ := (nativeDirectorySize_eq_ok start).mp sized
    obtain ⟨formed,rfl⟩ := (writeEntries_eq_ok).mp wrote
    rw [← flatMap_def,← directoryFrame] at read ⊢
    obtain ⟨same,fits,valid,_⟩ := (decodeNativeDirectory_eq_ok).mp read
    have bytes : ∀ e ∈ es, (utf8 e.name).length < 256 ^ 4 := by
      intro e mem
      have least : 5 + (utf8 e.name).length ≤ directorySize es :=
        le_sum_of_mem (mem_map.mpr ⟨e,mem,rfl⟩)
      unfold nativeMaxBytes at small
      omega
    have many : es.length < 256 ^ 4 := by
      have least : es.length ≤ directorySize es := by
        rw [directorySize,← length_map (f := fun e => 5 + (utf8 e.name).length)]
        apply length_le_sum_of_one_le
        intro size mem
        obtain ⟨e,_,rfl⟩ := mem_map.mp mem
        omega
      unfold nativeMaxBytes at small
      omega
    rw [directoryFrame,directoryFrame] at same
    obtain ⟨counts,bodies⟩ := append_inj same ((length_le _ _).trans (length_le _ _).symm)
    have counted := congrArg fromLe counts
    rw [fromLe_le many,fromLe_le fits] at counted
    have whole : es = decoded := by
      apply entries_injective counted bodies
      · exact fun e mem => ⟨formed e mem,bytes e mem⟩
      · intro e mem
        obtain ⟨⟨strict,_⟩,short⟩ := valid e mem
        exact ⟨utf8Text_utf8_iff.mp (decodeStrictUtf8_eq_ok.mp strict).1,short⟩
    exact ⟨rfl,by omega,by rw [← whole] at read; exact read⟩
  · intro fs
    obtain ⟨rfl,small,read⟩ := fs
    obtain ⟨_,_,valid,_⟩ := (decodeNativeDirectory_eq_ok).mp read
    refine ⟨_,(nativeDirectorySize_eq_ok start).mpr ⟨rfl,by omega⟩,bind_eq_ok.mpr
      ⟨_,(writeEntries_eq_ok).mpr ⟨?_,rfl⟩,?_⟩⟩
    · intro e mem
      exact utf8Text_utf8_iff.mp (decodeStrictUtf8_eq_ok.mp (valid e mem).1.1).1
    · rw [← flatMap_def,← directoryFrame]
      exact bind_eq_ok.mpr ⟨es,read,rfl⟩

end Directory
end Keiko.SecureWorkspaceWire
