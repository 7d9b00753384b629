import Keiko.SecureWorkspaceText

/-! The codecs of the wire format in both directions: what is decoded of an encoded value, and
which of the frames that decode are the encoding of their value. -/
namespace Keiko.SecureWorkspaceWire
open Keiko.Library Keiko.Library.Bytes List Option

section Fields

variable {magic first second third fourth fifth : Bytes}

theorem responseFields (four : magic.length = 4) (two : first.length = 2)
    (other : second.length = 2) (size : third.length = 4) (payload : Bytes) :
    let frame := magic ++ first ++ second ++ third ++ payload
    frame.take 4 = magic ∧ read 4 2 frame = fromLe first ∧ read 6 2 frame = fromLe second ∧
      read 8 4 frame = fromLe third ∧ frame.drop 12 = payload ∧
      frame.length = 12 + payload.length := by
  have header : (magic ++ first ++ second ++ third).length = 12 := by simp [four,two,other,size]
  dsimp only
  refine ⟨?_,?_,?_,?_,drop_left' header,by rw [length_append,header]⟩
  · rw [append_assoc,append_assoc,append_assoc]
    exact take_left' four
  · rw [append_assoc,append_assoc,append_assoc]
    exact read_at four two _
  · rw [append_assoc,append_assoc]
    exact read_at (by simp [four,two]) other _
  · rw [append_assoc]
    exact read_at (by simp [four,two,other]) size _

theorem response_cut {bytes : Bytes} (long : 12 ≤ bytes.length) : ∃ magic first second third payload : Bytes,
      bytes = magic ++ first ++ second ++ third ++ payload ∧ magic.length = 4 ∧
        first.length = 2 ∧ second.length = 2 ∧ third.length = 4 := by
  obtain ⟨header,payload,rfl,twelve⟩ := cut long
  obtain ⟨header,third,rfl,eight⟩ := @cut 8 header (by omega)
  obtain ⟨header,second,rfl,six⟩ := @cut 6 header (by omega)
  obtain ⟨magic,first,rfl,four⟩ := @cut 4 header (by omega)
  simp only [length_append] at twelve eight six
  exact ⟨magic,first,second,third,payload,rfl,four,by omega,by omega,by omega⟩

theorem requestFields (four : magic.length = 4) (two : first.length = 2)
    (other : second.length = 2) (size : third.length = 4) (size' : fourth.length = 4)
    (size'' : fifth.length = 4) (payload : Bytes) :
    let frame := magic ++ first ++ second ++ third ++ fourth ++ fifth ++ payload
    frame.take 4 = magic ∧ read 4 2 frame = fromLe first ∧ read 6 2 frame = fromLe second ∧
      read 8 4 frame = fromLe third ∧ read 12 4 frame = fromLe fourth ∧
      read 16 4 frame = fromLe fifth ∧ frame.drop 20 = payload ∧
      frame.length = 20 + payload.length := by
  have header : (magic ++ first ++ second ++ third ++ fourth ++ fifth).length = 20 := by
    simp [four,two,other,size,size',size'']
  have regroup : magic ++ first ++ second ++ third ++ fourth ++ fifth ++ payload =
      magic ++ first ++ second ++ third ++ (fourth ++ fifth ++ payload) := by simp
  obtain ⟨start,v,flags,sized,_,_⟩ :=
    responseFields four two other size (fourth ++ fifth ++ payload)
  dsimp only
  refine ⟨?_,?_,?_,?_,?_,?_,drop_left' header,by rw [length_append,header]⟩
  · rw [regroup,start]
  · rw [regroup,v]
  · rw [regroup,flags]
  · rw [regroup,sized]
  · rw [append_assoc,append_assoc]
    exact read_at (by simp [four,two,other,size]) size' _
  · rw [append_assoc]
    exact read_at (by simp [four,two,other,size,size']) size'' _

theorem request_cut {bytes : Bytes} (long : 20 ≤ bytes.length) :
    ∃ magic first second third fourth fifth payload : Bytes,
      bytes = magic ++ first ++ second ++ third ++ fourth ++ fifth ++ payload ∧
        magic.length = 4 ∧ first.length = 2 ∧ second.length = 2 ∧ third.length = 4 ∧
        fourth.length = 4 ∧ fifth.length = 4 := by
  obtain ⟨header,payload,rfl,twenty⟩ := cut long
  obtain ⟨magic,first,second,third,sizes,rfl,four,two,other,size⟩ :=
    @response_cut header (by omega)
  simp only [length_append] at twenty
  obtain ⟨fourth,fifth,rfl,size'⟩ := @cut 4 sizes (by omega)
  rw [length_append] at twenty
  refine ⟨magic,first,second,third,fourth,fifth,payload,by simp,four,two,other,size,size',by omega⟩

end Fields

section Read

variable {frame : Bytes} {req : ReadRequest} {v : Number}

theorem natural_ofNat (n : ℕ) : natural (Number.ofNat n) = n := by
  simp [natural,Number.ofNat]

theorem isCap_iff : isSecureWorkspaceReadByteCap v = true ↔
    v = Number.ofNat maxBytes ∨ v = Number.ofNat legacyMaxBytes := by
  simp [isSecureWorkspaceReadByteCap]

theorem ofNat_natural_cap (cap : isSecureWorkspaceReadByteCap v = true) :
    Number.ofNat (natural v) = v ∧ natural v < 256 ^ 4 := by
  obtain rfl | rfl := isCap_iff.mp cap
  · exact ⟨by rw [natural_ofNat],by rw [natural_ofNat]; decide⟩
  · exact ⟨by rw [natural_ofNat],by rw [natural_ofNat]; decide⟩

def requestFrame (root path : Bytes) (cap : ℕ) : Bytes :=
  ascii "KSR1" ++ le 2 version ++ le 2 0 ++ le 4 root.length ++ le 4 path.length ++ le 4 cap ++
    (root ++ path)

theorem encodeReadRequest_eq_ok : encodeSecureWorkspaceReadRequest req = .ok frame ↔
      ∃ root path, frame = requestFrame root path (natural req.byteCap) ∧
        encodeBoundedUtf8 req.root maxRootBytes = .ok root ∧
        encodeBoundedUtf8 req.relativePath maxPathBytes = .ok path ∧
        isSecureWorkspaceReadByteCap req.byteCap = true := by
  constructor
  · intro done
    obtain ⟨root,rooted,done⟩ := bind_eq_ok.mp done
    obtain ⟨path,pathed,done⟩ := bind_eq_ok.mp done
    split_ifs at done with refused
    rw [Bool.not_eq_true,Bool.not_eq_false'] at refused
    obtain rfl := pure_eq_ok.mp done
    exact ⟨root,path,append_assoc _ _ _,rooted,pathed,refused⟩
  · intro fs
    obtain ⟨root,path,rfl,rooted,pathed,cap⟩ := fs
    refine bind_eq_ok.mpr ⟨root,rooted,bind_eq_ok.mpr ⟨path,pathed,?_⟩⟩
    rw [cap,requestFrame,← append_assoc]
    rfl

theorem decodeReadRequest_eq_ok : decodeSecureWorkspaceReadRequest frame = .ok req ↔
      ∃ root path, frame = requestFrame root path (natural req.byteCap) ∧
        root.length ≤ maxRootBytes ∧ path.length ≤ maxPathBytes ∧
        decodeStrictUtf8 root = .ok req.root ∧
        decodeStrictUtf8 path = .ok req.relativePath ∧
        isSecureWorkspaceReadByteCap req.byteCap = true := by
  constructor
  · intro done
    unfold decodeSecureWorkspaceReadRequest at done
    obtain ⟨outside,done⟩ := refuse_eq_ok.mp done
    obtain ⟨other,done⟩ := refuse_eq_ok.mp done
    obtain ⟨refused,done⟩ := refuse_eq_ok.mp done
    simp only [Bool.or_eq_true,decide_eq_true_eq,not_or,not_lt] at outside
    simp only [Bool.or_eq_true,decide_eq_true_eq,not_or,not_lt,not_not,Bool.not_eq_true',
      Bool.not_eq_false] at refused other
    obtain ⟨magic,first,second,third,fourth,fifth,payload,whole,four,two,two',size,size',size''⟩ :=
      request_cut outside.1
    obtain ⟨start,version,flags,sized,sized',capped,behind,long⟩ :=
      requestFields four two two' size size' size'' payload
    rw [← whole] at start version flags sized sized' capped behind long
    obtain ⟨root,rooted,done⟩ := bind_eq_ok.mp done
    obtain ⟨path,pathed,done⟩ := bind_eq_ok.mp done
    obtain rfl := pure_eq_ok.mp done
    rw [requestHeaderBytes] at rooted pathed refused
    rw [← drop_drop] at pathed
    rw [behind] at rooted pathed
    obtain ⟨⟨⟨⟨⟨versioned,flagged⟩,rootSmall⟩,pathSmall⟩,cap⟩,total⟩ := refused
    have rootLength : (payload.take (Bytes.read 8 4 frame)).length = Bytes.read 8 4 frame := by
      rw [length_take]
      omega
    have pathLength : (payload.drop (Bytes.read 8 4 frame)).length = Bytes.read 12 4 frame := by
      rw [length_drop]
      omega
    refine ⟨_,_,?_,by omega,by omega,rooted,pathed,cap⟩
    rw [requestFrame,rootLength,pathLength,take_append_drop,natural_ofNat,← other,start,
      sized,sized',capped,← eq_le_of_fromLe two (version.symm.trans versioned),
      ← eq_le_of_fromLe two' (flags.symm.trans flagged),← eq_le_of_fromLe size rfl,
      ← eq_le_of_fromLe size' rfl,← eq_le_of_fromLe size'' rfl]
    exact whole
  · intro fs
    obtain ⟨root,path,whole,rootSmall,pathSmall,rooted,pathed,cap⟩ := fs
    obtain ⟨natural_cap,small⟩ := ofNat_natural_cap cap
    obtain ⟨start,version,flags,sized,sized',capped,behind,long⟩ :=
      @requestFields (ascii "KSR1") (le 2 version) (le 2 0) (le 4 root.length) (le 4 path.length)
        (le 4 (natural req.byteCap)) rfl (length_le _ _) (length_le _ _) (length_le _ _)
        (length_le _ _) (length_le _ _) (root ++ path)
    unfold maxRootBytes at rootSmall
    unfold maxPathBytes at pathSmall
    rw [← requestFrame,← whole] at start version flags sized sized' capped behind long
    rw [fromLe_le (by omega)] at sized sized'
    rw [fromLe_le small] at capped
    rw [fromLe_le (by decide)] at version flags
    rw [length_append] at long
    have root_behind : (frame.drop 20).take root.length = root := by
      rw [behind,take_left]
    have path_behind : frame.drop (20 + root.length) = path := by
      rw [← drop_drop,behind,drop_left]
    unfold decodeSecureWorkspaceReadRequest
    dsimp only
    rw [start,version,flags,sized,sized',capped,natural_cap,cap,if_neg,if_neg,if_neg,
      requestHeaderBytes,root_behind,path_behind,rooted,pathed]
    · rfl
    · simp only [Bool.or_eq_true,decide_eq_true_eq,Bool.not_true,Bool.false_eq_true,or_false]
      unfold requestHeaderBytes maxRootBytes maxPathBytes
      omega
    · exact fun other => other rfl
    · simp only [Bool.or_eq_true,decide_eq_true_eq]
      unfold requestHeaderBytes maxFrameBytes maxRootBytes maxPathBytes
      omega

theorem decode_encodeReadRequest (done : encodeSecureWorkspaceReadRequest req = .ok frame) :
    decodeSecureWorkspaceReadRequest frame = .ok ⟨Units.ofText (Units.toText req.root),
      Units.ofText (Units.toText req.relativePath),req.byteCap⟩ := by
  obtain ⟨root,path,rfl,rooted,pathed,cap⟩ := encodeReadRequest_eq_ok.mp done
  obtain ⟨_,_,rootSmall,_⟩ := encodeBoundedUtf8_eq_ok.mp rooted
  obtain ⟨_,_,pathSmall,_⟩ := encodeBoundedUtf8_eq_ok.mp pathed
  exact decodeReadRequest_eq_ok.mpr ⟨root,path,rfl,rootSmall,pathSmall,
    decodeStrictUtf8_encodeBoundedUtf8 rooted,decodeStrictUtf8_encodeBoundedUtf8 pathed,cap⟩

theorem encode_decodeReadRequest (done : decodeSecureWorkspaceReadRequest frame = .ok req) :
    encodeSecureWorkspaceReadRequest req = .ok frame := by
  obtain ⟨root,path,rfl,rootSmall,pathSmall,rooted,pathed,cap⟩ := decodeReadRequest_eq_ok.mp done
  exact encodeReadRequest_eq_ok.mpr ⟨root,path,rfl,encodeBoundedUtf8_decodeStrictUtf8 rooted rootSmall,
    encodeBoundedUtf8_decodeStrictUtf8 pathed pathSmall,cap⟩

end Read

section Response

variable {frame : Bytes}

theorem codeToStatus_statusToCode (status : Status) : codeToStatus (statusToCode status) = some status := by
  cases status with
  | ok => rfl
  | closed status => cases status <;> rfl

theorem codeToStatus_eq_some {code : ℕ} {status : Status} :
    codeToStatus code = some status ↔ code = statusToCode status := by
  constructor
  · intro hit
    unfold codeToStatus at hit
    split at hit <;> cases hit <;> rfl
  · intro same
    rw [same,codeToStatus_statusToCode]

theorem statusToCode_lt (status : Status) : statusToCode status < 10 := by
  cases status with
  | ok => decide
  | closed status => cases status <;> decide

def responseFrame (magic : Bytes) (version : ℕ) (code : ℕ) (payload : Bytes) : Bytes :=
  magic ++ le 2 version ++ le 2 code ++ le 4 payload.length ++ payload

theorem responseFrame_fields {magic payload : Bytes} {v code : ℕ} (four : magic.length = 4)
    (known : v < 256 ^ 2) (coded : code < 256 ^ 2) (small : payload.length < 256 ^ 4) :
    let frame := responseFrame magic v code payload
    frame.take 4 = magic ∧ read 4 2 frame = v ∧ read 6 2 frame = code ∧
      read 8 4 frame = payload.length ∧ frame.drop 12 = payload ∧
      frame.length = 12 + payload.length := by
  obtain ⟨start,versioned,status,sized,behind,long⟩ :=
    responseFields four (length_le 2 v) (length_le 2 code) (length_le 4 payload.length) payload
  rw [fromLe_le known] at versioned
  rw [fromLe_le coded] at status
  rw [fromLe_le small] at sized
  exact ⟨start,versioned,status,sized,behind,long⟩

theorem eq_responseFrame {v code : ℕ} (long : 12 ≤ frame.length)
    (versioned : read 4 2 frame = v) (coded : read 6 2 frame = code)
    (sized : read 8 4 frame = frame.length - 12) :
    (frame.take 4).length = 4 ∧ frame = responseFrame (frame.take 4) v code (frame.drop 12) := by
  obtain ⟨first,second,third,fourth,payload,whole,four,two,two',size⟩ := response_cut long
  obtain ⟨start,version',code',size',behind,total⟩ := responseFields four two two' size payload
  rw [← whole] at start version' code' size' behind total
  refine ⟨by rw [start,four],?_⟩
  rw [responseFrame,start,behind,← eq_le_of_fromLe two (version'.symm.trans versioned),
    ← eq_le_of_fromLe two' (code'.symm.trans coded),
    ← eq_le_of_fromLe size (size'.symm.trans (sized.trans (by omega)))]
  exact whole

theorem responseFrame_inj {first second payload : Bytes} {v code : ℕ} :
    responseFrame first v code payload = responseFrame second v code payload ↔ first = second := by
  constructor
  · intro same
    simpa [responseFrame] using same
  · exact congrArg (responseFrame · v code payload)

theorem encodeReadResponse_eq_ok {response : ReadResponse} : encodeSecureWorkspaceReadResponse response = .ok frame ↔
      response.payload.length ≤ maxBytes ∧
        frame = responseFrame (ascii "KSS1") 1 (statusToCode response.status) response.payload := by
  unfold encodeSecureWorkspaceReadResponse
  dsimp only
  constructor
  · intro done
    split_ifs at done with large
    exact ⟨by omega,(Except.ok.inj done).symm⟩
  · intro fs
    rw [if_neg (by omega),fs.2]
    rfl

theorem decodeReadResponse_eq_ok {response : ReadResponse} : decodeSecureWorkspaceReadResponse frame = .ok response ↔
      response.payload.length ≤ maxBytes ∧
        frame = responseFrame (ascii "KSS1") 1 (statusToCode response.status) response.payload := by
  constructor
  · intro done
    unfold decodeSecureWorkspaceReadResponse at done
    obtain ⟨outside,done⟩ := refuse_eq_ok.mp done
    obtain ⟨other,done⟩ := refuse_eq_ok.mp done
    simp only [Bool.or_eq_true,decide_eq_true_eq,not_or,not_lt] at outside
    unfold maxResponseBytes responseHeaderBytes at outside
    dsimp only at done
    cases known : codeToStatus (Bytes.read 6 2 frame) with
    | none =>
      rw [known] at done
      cases done
    | some status =>
      rw [known] at done
      obtain ⟨refused,done⟩ := refuse_eq_ok.mp done
      simp only [Bool.or_eq_true,decide_eq_true_eq,not_or,not_not] at refused
      unfold responseHeaderBytes at refused
      have coded := codeToStatus_eq_some.mp known
      have whole := (eq_responseFrame outside.1 refused.1 coded refused.2).2
      rw [not_not.mp other] at whole
      cases status with
      | ok =>
        obtain rfl := Except.ok.inj done
        refine ⟨?_,whole⟩
        rw [ReadResponse.payload,length_drop]
        unfold responseHeaderBytes
        omega
      | closed status =>
        obtain ⟨empty,done⟩ := refuse_eq_ok.mp done
        obtain rfl := Except.ok.inj done
        refine ⟨Nat.zero_le _,?_⟩
        have none_left : frame.drop 12 = [] := by
          apply drop_eq_nil_of_le
          omega
        rw [none_left] at whole
        exact whole
  · intro fs
    obtain ⟨small,whole⟩ := fs
    unfold maxBytes at small
    have coded := statusToCode_lt response.status
    obtain ⟨start,versioned,status,sized,behind,long⟩ :=
      @responseFrame_fields (ascii "KSS1") response.payload 1 (statusToCode response.status) rfl
        (by decide) (by omega) (by omega)
    rw [← whole] at start versioned status sized behind long
    unfold decodeSecureWorkspaceReadResponse
    dsimp only
    rw [if_neg,if_neg (not_not.mpr start),status,codeToStatus_statusToCode]
    · dsimp only
      rw [if_neg]
      · cases response with
        | ok bytes =>
          rw [ReadResponse.payload] at behind
          rw [responseHeaderBytes,behind]
          rfl
        | closed status =>
          rw [sized]
          rfl
      · simp only [Bool.or_eq_true,decide_eq_true_eq]
        rw [versioned,version,responseHeaderBytes]
        omega
    · simp only [Bool.or_eq_true,decide_eq_true_eq]
      unfold maxResponseBytes responseHeaderBytes maxBytes
      omega

end Response

section Snapshot

variable {frame : Bytes}

theorem safe_natural {n : Number} (safe : isSafeInteger n = true) (positive : isNegative n = false) :
    Number.ofNat (natural n) = n ∧ natural n < 256 ^ 8 := by
  cases n with
  | finite v =>
    simp only [isSafeInteger,Bool.and_eq_true,decide_eq_true_eq] at safe
    simp only [isNegative,decide_eq_false_iff_not,not_lt] at positive
    have low := Rat.num_nonneg.mpr positive
    constructor
    · rw [natural,Number.ofNat]
      congr 1
      have whole : (v.num : ℚ) = v := (Rat.den_eq_one_iff v).mp safe.1
      rw [← whole]
      norm_cast
      omega
    · rw [natural]
      omega
  | _ => cases safe

theorem bits_ofNat (n : Double) : (⟨UInt64.ofNat (fromLe (le 8 n.bits.toNat))⟩ : Double) = n := by
  have small := n.bits.toNat_lt
  rw [fromLe_le (by omega),UInt64.ofNat_toNat]

theorem assertSnapshotInfo_eq_ok {info : SnapshotInfo} {byteLength : ℕ} :
    assertSnapshotInfo info byteLength = .ok () ↔ isSafeInteger info.size = true ∧
      isNegative info.size = false ∧ info.size = Number.ofNat byteLength ∧
      exceeds maxBytes info.size = false ∧ info.mtimeMs.isFinite = true := by
  rw [assertSnapshotInfo,refuse_eq_ok]
  simp only [Bool.or_eq_true,Bool.not_eq_true',decide_eq_true_eq,not_or,Bool.not_eq_false,
    Bool.not_eq_true,not_not,and_true]
  tauto

namespace SnapshotResponse

def payload : SnapshotResponse → Bytes
  | ok bytes info => le 8 (natural info.size) ++ (le 8 info.mtimeMs.bits.toNat ++ bytes)
  | closed _ => []

def Valid : SnapshotResponse → Prop
  | ok bytes info => bytes.length ≤ maxBytes ∧ assertSnapshotInfo info bytes.length = .ok ()
  | closed _ => True

theorem payload_small {response : SnapshotResponse} (valid : response.Valid) :
    response.payload.length ≤ maxBytes + 16 := by
  cases response with
  | ok bytes info =>
    have small := valid.1
    simp only [payload,length_append,length_le]
    omega
  | closed status => exact Nat.zero_le _

end SnapshotResponse

theorem overwrite_responseFrame (code : ℕ) (payload : Bytes) :
    overwrite 4 (le 2 2) (overwrite 0 (ascii "KSS2") (responseFrame (ascii "KSS1") 1 code payload)) =
      responseFrame (ascii "KSS2") 2 code payload := by
  have written : (ascii "KSS1").length = 4 := rfl
  have four : (ascii "KSS2").length = 4 := rfl
  simp only [responseFrame,append_assoc]
  rw [overwrite_here (written.trans four.symm),overwrite_skip four.le,four,Nat.sub_self,
    overwrite_here ((length_le _ _).trans (length_le _ _).symm)]

theorem overwrite_size (code : ℕ) (facts payload : Bytes) :
    let sized := overwrite 8 (le 4 (payload.length + facts.length))
      (responseFrame (ascii "KSS2") 2 code payload)
    sized.take 12 ++ facts ++ sized.drop 12 =
      responseFrame (ascii "KSS2") 2 code (facts ++ payload) := by
  have four : (ascii "KSS2").length = 4 := rfl
  have header : (ascii "KSS2" ++ le 2 2 ++ le 2 code).length = 8 := by simp [four]
  have sized : overwrite 8 (le 4 (payload.length + facts.length))
      (responseFrame (ascii "KSS2") 2 code payload) =
        (ascii "KSS2" ++ le 2 2 ++ le 2 code ++ le 4 (payload.length + facts.length)) ++
          payload := by
    rw [responseFrame,append_assoc (ascii "KSS2" ++ le 2 2 ++ le 2 code),
      overwrite_skip header.le,header,Nat.sub_self,
      overwrite_here ((length_le _ _).trans (length_le _ _).symm)]
    simp
  have twelve : (ascii "KSS2" ++ le 2 2 ++ le 2 code ++
      le 4 (payload.length + facts.length)).length = 12 := by simp [four]
  dsimp only
  rw [sized,take_left' twelve,drop_left' twelve,responseFrame,length_append,add_comm facts.length]
  simp

theorem encodeSnapshotResponse_eq_ok {response : SnapshotResponse} :
    encodeSecureWorkspaceSnapshotResponse response = .ok frame ↔ response.Valid ∧
      frame = responseFrame (ascii "KSS2") 2 (statusToCode response.base.status) response.payload := by
  unfold encodeSecureWorkspaceSnapshotResponse
  rw [bind_eq_ok]
  cases response with
  | closed status =>
    constructor
    · intro done
      obtain ⟨written,based,done⟩ := done
      rw [(encodeReadResponse_eq_ok.mp based).2] at done
      obtain rfl := pure_eq_ok.mp done
      exact ⟨trivial,overwrite_responseFrame _ _⟩
    · intro fs
      rw [fs.2]
      refine ⟨_,encodeReadResponse_eq_ok.mpr ⟨Nat.zero_le _,rfl⟩,?_⟩
      exact pure_eq_ok.mpr (overwrite_responseFrame _ _)
  | ok bytes info =>
    have written : ∀ facts : Bytes, facts.length = 16 →
        let sized := overwrite 8 (le 4 (bytes.length + snapshotMetadataBytes))
          (overwrite 4 (le 2 2) (overwrite 0 (ascii "KSS2")
            (responseFrame (ascii "KSS1") 1 (statusToCode .ok) bytes)))
        sized.take responseHeaderBytes ++ facts ++ sized.drop responseHeaderBytes =
          responseFrame (ascii "KSS2") 2 (statusToCode .ok) (facts ++ bytes) := by
      intro facts sixteen
      have whole := overwrite_size (statusToCode .ok) facts bytes
      rw [overwrite_responseFrame,snapshotMetadataBytes,← sixteen]
      exact whole
    have facts := written (le 8 (natural info.size) ++ le 8 info.mtimeMs.bits.toNat) (by simp)
    rw [append_assoc (le 8 _)] at facts
    constructor
    · intro done
      obtain ⟨base,based,done⟩ := done
      obtain ⟨small,rfl⟩ := encodeReadResponse_eq_ok.mp based
      obtain ⟨_,asserted,done⟩ := bind_eq_ok.mp done
      obtain rfl := pure_eq_ok.mp done
      exact ⟨⟨small,asserted⟩,facts⟩
    · intro fs
      obtain ⟨⟨small,asserted⟩,rfl⟩ := fs
      exact ⟨_,encodeReadResponse_eq_ok.mpr ⟨small,rfl⟩,bind_eq_ok.mpr ⟨(),asserted,pure_eq_ok.mpr facts⟩⟩

theorem decodeSnapshotResponse_eq_ok {response : SnapshotResponse} :
    decodeSecureWorkspaceSnapshotResponse frame = .ok response ↔ response.Valid ∧
      ∃ magic : Bytes, magic.length = 4 ∧ asciiText magic = "KSS2".toList ∧
        frame = responseFrame magic 2 (statusToCode response.base.status) response.payload := by
  constructor
  · intro done
    unfold decodeSecureWorkspaceSnapshotResponse at done
    obtain ⟨outside,done⟩ := refuse_eq_ok.mp done
    simp only [Bool.or_eq_true,decide_eq_true_eq,not_or,not_lt,not_not] at outside
    unfold snapshotMaxResponseBytes maxResponseBytes responseHeaderBytes snapshotMetadataBytes at outside
    obtain ⟨⟨⟨low,high⟩,magical⟩,versioned⟩ := outside
    cases known : codeToStatus (Bytes.read 6 2 frame) with
    | none =>
      rw [known] at done
      cases done
    | some status =>
      rw [known] at done
      obtain ⟨sized,done⟩ := refuse_eq_ok.mp done
      obtain ⟨four,whole⟩ :=
        eq_responseFrame low versioned (codeToStatus_eq_some.mp known) (not_not.mp sized)
      cases status with
      | closed status =>
        obtain ⟨long,done⟩ := refuse_eq_ok.mp done
        obtain rfl := Except.ok.inj done
        unfold responseHeaderBytes at long
        have empty : frame.drop 12 = [] := drop_eq_nil_of_le (by omega)
        rw [empty] at whole
        exact ⟨trivial,_,four,magical,whole⟩
      | ok =>
        obtain ⟨short,done⟩ := refuse_eq_ok.mp done
        obtain ⟨_,asserted,done⟩ := bind_eq_ok.mp done
        obtain rfl := pure_eq_ok.mp done
        unfold responseHeaderBytes snapshotMetadataBytes at short asserted
        obtain ⟨facts,content,behind,sixteen⟩ := @cut 16 (frame.drop 12) (by simp; omega)
        obtain ⟨size,mtime,rfl,eight⟩ := @cut 8 facts (by omega)
        rw [length_append] at sixteen
        have eight' : mtime.length = 8 := by omega
        have sizeRead : Bytes.read 12 8 frame = fromLe size := by
          rw [show 12 = 12 + 0 from rfl,read_add,behind,append_assoc,read_here eight]
        have mtimeRead : Bytes.read 20 8 frame = fromLe mtime := by
          rw [show 20 = 12 + 8 from rfl,read_add,behind,append_assoc,read_at eight eight']
        have contentRead : frame.drop (12 + 16) = content := by
          rw [← drop_drop,behind]
          exact drop_left' (by simp; omega)
        have bound := fromLe_lt mtime
        rw [eight'] at bound
        refine ⟨⟨?_,asserted⟩,_,four,magical,?_⟩
        · unfold responseHeaderBytes snapshotMetadataBytes
          rw [length_drop]
          omega
        · have stamp : (UInt64.ofNat (fromLe mtime)).toNat = fromLe mtime := by
            rw [UInt64.toNat_ofNat']
            omega
          rw [SnapshotResponse.payload,natural_ofNat]
          unfold responseHeaderBytes snapshotMetadataBytes
          rw [sizeRead,mtimeRead,contentRead,stamp,← eq_le_of_fromLe eight rfl,
            ← eq_le_of_fromLe eight' rfl,← append_assoc,← behind]
          exact whole
  · intro fs
    obtain ⟨valid,magic,four,magical,whole⟩ := fs
    have small := SnapshotResponse.payload_small valid
    unfold maxBytes at small
    have coded := statusToCode_lt response.base.status
    obtain ⟨start,versioned,status,sized,behind,long⟩ :=
      @responseFrame_fields magic response.payload 2 (statusToCode response.base.status) four
        (by decide) (by omega) (by omega)
    rw [← whole] at start versioned status sized behind long
    unfold decodeSecureWorkspaceSnapshotResponse
    rw [status,codeToStatus_statusToCode]
    refine refuse_eq_ok.mpr ⟨?_,refuse_eq_ok.mpr ⟨?_,?_⟩⟩
    · simp only [Bool.or_eq_true,decide_eq_true_eq]
      unfold snapshotMaxResponseBytes maxResponseBytes responseHeaderBytes snapshotMetadataBytes maxBytes
      rw [start]
      simp only [magical,versioned,ne_eq,not_true,or_false]
      omega
    · unfold responseHeaderBytes
      omega
    · cases response with
      | closed status => exact refuse_eq_ok.mpr ⟨by simp [long,responseHeaderBytes,SnapshotResponse.payload],rfl⟩
      | ok bytes info =>
        obtain ⟨_,asserted⟩ := valid
        obtain ⟨safe,positive,_⟩ := assertSnapshotInfo_eq_ok.mp asserted
        obtain ⟨n,fits⟩ := safe_natural safe positive
        rw [SnapshotResponse.payload] at behind long
        have sizeRead : Bytes.read 12 8 frame = natural info.size := by
          rw [show 12 = 12 + 0 from rfl,read_add,behind,read_here (length_le _ _),fromLe_le fits]
        have mtimeRead : Bytes.read 20 8 frame = fromLe (le 8 info.mtimeMs.bits.toNat) := by
          rw [show 20 = 12 + 8 from rfl,read_add,behind,read_at (length_le _ _) (length_le _ _)]
        have contentRead : frame.drop (responseHeaderBytes + snapshotMetadataBytes) = bytes := by
          unfold responseHeaderBytes snapshotMetadataBytes
          rw [← drop_drop,behind,← append_assoc]
          exact drop_left' (by simp)
        simp only [length_append,length_le] at long
        refine refuse_eq_ok.mpr ⟨?_,bind_eq_ok.mpr ⟨(),?_,pure_eq_ok.mpr ?_⟩⟩
        · unfold responseHeaderBytes snapshotMetadataBytes
          omega
        · rw [contentRead,sizeRead,mtimeRead,n,bits_ofNat]
          exact asserted
        · rw [contentRead,sizeRead,mtimeRead,n,bits_ofNat]

end Snapshot

section Native

variable {frame : Bytes} {response : NativeResponse} {info : NativeFileInfo}

theorem nativeTypeOfCode_code (type : NativeFileType) : nativeTypeOfCode type.code = some type := by
  cases type <;> rfl

theorem nativeTypeOfCode_eq_some {code : ℕ} {type : NativeFileType} :
    nativeTypeOfCode code = some type ↔ code = type.code := by
  constructor
  · intro hit
    unfold nativeTypeOfCode at hit
    split at hit <;> cases hit <;> rfl
  · intro same
    rw [same,nativeTypeOfCode_code]

theorem nativeType_code (type : NativeFileType) : 1 ≤ type.code ∧ type.code ≤ 4 := by
  cases type <;> decide

def NativeFileInfo.Valid (info : NativeFileInfo) : Prop :=
  isSafeInteger info.size = true ∧ isNegative info.size = false ∧ info.mtimeMs.isFinite = true

def NativeFileInfo.facts (info : NativeFileInfo) : Bytes :=
  le 2 info.type.code ++ (le 2 0 ++ (le 8 (natural info.size) ++ le 8 info.mtimeMs.bits.toNat))

theorem NativeFileInfo.length_facts (info : NativeFileInfo) : info.facts.length = 20 := by
  simp [facts]

theorem writeNativeInfo_eq_ok {written : Bytes} :
    writeNativeInfo info = .ok written ↔ info.Valid ∧ written = info.facts := by
  have known := nativeType_code info.type
  have coded : info.type.code ≠ 0 := by omega
  rw [writeNativeInfo,refuse_eq_ok,Except.ok.injEq,append_assoc,append_assoc,← NativeFileInfo.facts]
  simp only [coded,decide_false,Bool.false_or,Bool.or_eq_true,Bool.not_eq_true',not_or,
    Bool.not_eq_false,Bool.not_eq_true]
  rw [NativeFileInfo.Valid]
  constructor
  · intro done
    exact ⟨⟨done.1.1.1,done.1.1.2,done.1.2⟩,done.2.symm⟩
  · intro done
    exact ⟨⟨⟨done.1.1,done.1.2.1⟩,done.1.2.2⟩,done.2.symm⟩

namespace NativeResponse

def facts (response : NativeResponse) : Bytes :=
  (response.info?.map NativeFileInfo.facts).getD [] ++ response.payload

def Valid (response : NativeResponse) : Prop :=
  (∀ info ∈ response.info?, info.Valid) ∧ response.payload.length ≤ nativeMaxBytes

theorem facts_small {response : NativeResponse} (valid : response.Valid) :
    response.facts.length ≤ nativeMaxBytes + 20 := by
  have small := valid.2
  rw [facts,length_append]
  cases response with
  | ok info bytes =>
    have size := info.length_facts
    simp only [info?,map_some,getD_some]
    omega
  | wrongKind info =>
    have size := info.length_facts
    simp only [info?,map_some,getD_some]
    omega
  | closed status =>
    simp only [info?,map_none,getD_none,length_nil]
    omega

theorem code_lt (response : NativeResponse) : response.code < 11 := by
  cases response with
  | ok info bytes => exact (by decide : 0 < 11)
  | wrongKind info => exact (by decide : 10 < 11)
  | closed status =>
    have small := statusToCode_lt (.closed status)
    rw [code]
    omega

end NativeResponse

theorem nativeInfo_eq_ok (long : 32 ≤ frame.length) : nativeInfo frame = .ok info ↔
      info.Valid ∧ (frame.drop 12).take 20 = info.facts := by
  obtain ⟨facts,content,behind,twenty⟩ := @cut 20 (frame.drop 12) (by simp; omega)
  obtain ⟨kind,facts,rfl,two⟩ := @cut 2 facts (by omega)
  rw [length_append] at twenty
  obtain ⟨reserved,facts,rfl,two'⟩ := @cut 2 facts (by omega)
  rw [length_append] at twenty
  obtain ⟨size,mtime,rfl,eight⟩ := @cut 8 facts (by omega)
  rw [length_append] at twenty
  have eight' : mtime.length = 8 := by omega
  have kindRead : Bytes.read 12 2 frame = fromLe kind := by
    rw [show 12 = 12 + 0 from rfl,read_add,behind,append_assoc,read_here two]
  have reservedRead : Bytes.read 14 2 frame = fromLe reserved := by
    rw [show 14 = 12 + 2 from rfl,read_add,behind,append_assoc,append_assoc,read_at two two']
  have sizeRead : Bytes.read 16 8 frame = fromLe size := by
    rw [show 16 = 12 + 4 from rfl,read_add,behind]
    rw [show kind ++ (reserved ++ (size ++ mtime)) ++ content =
      (kind ++ reserved) ++ (size ++ (mtime ++ content)) by simp]
    exact read_at (by simp [two,two']) eight _
  have mtimeRead : Bytes.read 24 8 frame = fromLe mtime := by
    rw [show 24 = 12 + 12 from rfl,read_add,behind]
    rw [show kind ++ (reserved ++ (size ++ mtime)) ++ content =
      (kind ++ reserved ++ size) ++ (mtime ++ content) by simp]
    exact read_at (by simp [two,two',eight]) eight' _
  have bound := fromLe_lt mtime
  rw [eight'] at bound
  have stamp : (UInt64.ofNat (fromLe mtime)).toNat = fromLe mtime := by
    rw [UInt64.toNat_ofNat']
    omega
  rw [behind,take_left' (by simp [two,two',eight,eight'])]
  unfold nativeInfo
  rw [kindRead,reservedRead,sizeRead,mtimeRead]
  constructor
  · intro done
    cases known : nativeTypeOfCode (fromLe kind) with
    | none =>
      rw [known] at done
      cases done
    | some type =>
      rw [known] at done
      obtain ⟨refused,done⟩ := refuse_eq_ok.mp done
      simp only [Bool.or_eq_true,Bool.not_eq_true',not_or,Bool.not_eq_false,Bool.not_eq_true,
        decide_eq_true_eq,not_not] at refused
      obtain ⟨⟨⟨zero,safe⟩,positive⟩,finite⟩ := refused
      obtain rfl := Except.ok.inj done
      refine ⟨⟨safe,positive,finite⟩,?_⟩
      rw [NativeFileInfo.facts,natural_ofNat,stamp,← nativeTypeOfCode_eq_some.mp known,
        ← eq_le_of_fromLe two rfl,← eq_le_of_fromLe two' zero,← eq_le_of_fromLe eight rfl,
        ← eq_le_of_fromLe eight' rfl]
  · intro fs
    obtain ⟨⟨safe,positive,finite⟩,written⟩ := fs
    obtain ⟨n,fits⟩ := safe_natural safe positive
    have known := nativeType_code info.type
    rw [NativeFileInfo.facts] at written
    obtain ⟨kinds,tail⟩ := append_inj written (two.trans (length_le _ _).symm)
    obtain ⟨zeros,tail⟩ := append_inj tail (two'.trans (length_le _ _).symm)
    obtain ⟨sizes,stamps⟩ := append_inj tail (eight.trans (length_le _ _).symm)
    rw [kinds,zeros,sizes,stamps,fromLe_le (by omega),nativeTypeOfCode_code,fromLe_le fits,n,bits_ofNat,
      fromLe_le (by decide)]
    refine refuse_eq_ok.mpr ⟨?_,rfl⟩
    simp [safe,positive,finite]

theorem decodeNativeResponse_eq_ok :
    decodeSecureWorkspaceNativeResponse frame = .ok response ↔ response.Valid ∧
      ∃ magic : Bytes, magic.length = 4 ∧ asciiText magic = "KSS3".toList ∧
        frame = responseFrame magic 3 response.code response.facts := by
  constructor
  · intro done
    obtain ⟨_,header,done⟩ := bind_eq_ok.mp done
    obtain ⟨outside,_⟩ := refuse_eq_ok.mp header
    simp only [Bool.or_eq_true,decide_eq_true_eq,not_or,not_lt,not_not] at outside
    unfold nativeMaxResponseBytes responseHeaderBytes nativeMaxBytes at outside
    obtain ⟨⟨⟨⟨low,high⟩,magical⟩,versioned⟩,sized⟩ := outside
    obtain ⟨four,whole⟩ := eq_responseFrame low versioned rfl sized
    dsimp only at done
    split_ifs at done with failed short coded filled
    · simp only [nativeFailureResponse] at done
      split at done
      case h_1 status known =>
        obtain ⟨long,done⟩ := refuse_eq_ok.mp done
        obtain rfl := Except.ok.inj done
        unfold responseHeaderBytes at long
        have empty : frame.drop 12 = [] := drop_eq_nil_of_le (by omega)
        rw [empty,codeToStatus_eq_some.mp known] at whole
        exact ⟨⟨by simp [NativeResponse.info?],Nat.zero_le _⟩,_,four,magical,whole⟩
      case h_2 => cases done
    · obtain ⟨info,read,done⟩ := bind_eq_ok.mp done
      cases done
    · obtain ⟨info,read,done⟩ := bind_eq_ok.mp done
      obtain rfl := pure_eq_ok.mp done
      unfold responseHeaderBytes nativeInfoBytes at short filled
      obtain ⟨valid,facts⟩ := (nativeInfo_eq_ok (by omega)).mp read
      have all : (frame.drop 12).take 20 = frame.drop 12 := by
        apply take_of_length_le
        simp at filled ⊢
        omega
      rw [all] at facts
      rw [facts,coded] at whole
      refine ⟨⟨?_,Nat.zero_le _⟩,_,four,magical,?_⟩
      · intro info' mem
        obtain rfl := some.inj mem
        exact valid
      · simp only [NativeResponse.facts,NativeResponse.info?,NativeResponse.payload,
          map_some,getD_some,append_nil]
        exact whole
    · obtain ⟨info,read,done⟩ := bind_eq_ok.mp done
      obtain rfl := pure_eq_ok.mp done
      unfold responseHeaderBytes nativeInfoBytes at short
      obtain ⟨valid,facts⟩ := (nativeInfo_eq_ok (by omega)).mp read
      have coded : Bytes.read 6 2 frame = 0 := by
        simp only [Bool.and_eq_true,decide_eq_true_eq,not_and,not_not] at failed
        by_contra other
        exact coded (failed other)
      rw [coded] at whole
      refine ⟨⟨?_,?_⟩,_,four,magical,?_⟩
      · intro info' mem
        obtain rfl := some.inj mem
        exact valid
      · rw [NativeResponse.payload,length_drop]
        unfold responseHeaderBytes nativeInfoBytes nativeMaxBytes
        omega
      · rw [NativeResponse.facts,NativeResponse.info?,NativeResponse.payload,map_some,getD_some,← facts]
        unfold responseHeaderBytes nativeInfoBytes
        rw [← drop_drop,take_append_drop]
        exact whole
  · intro fs
    obtain ⟨valid,magic,four,magical,whole⟩ := fs
    have small := NativeResponse.facts_small valid
    have coded := NativeResponse.code_lt response
    unfold nativeMaxBytes at small
    obtain ⟨start,versioned,status,sized,behind,long⟩ :=
      @responseFrame_fields magic response.facts 3 response.code four (by decide) (by omega) (by omega)
    rw [← whole] at start versioned status sized behind long
    refine bind_eq_ok.mpr ⟨(),refuse_eq_ok.mpr ⟨?_,rfl⟩,?_⟩
    · simp only [Bool.or_eq_true,decide_eq_true_eq]
      unfold nativeMaxResponseBytes responseHeaderBytes nativeMaxBytes
      rw [start]
      simp only [magical,versioned,ne_eq,not_true,or_false]
      omega
    have read : ∀ info ∈ response.info?, nativeInfo frame = .ok info ∧ 32 ≤ frame.length ∧
        frame.drop (responseHeaderBytes + nativeInfoBytes) = response.payload := by
      intro info mem
      have twenty := info.length_facts
      have facts : response.facts = info.facts ++ response.payload := by
        rw [NativeResponse.facts,mem_def.mp mem]
        rfl
      rw [facts] at behind long
      rw [length_append] at long
      refine ⟨(nativeInfo_eq_ok (by omega)).mpr ⟨valid.1 info mem,?_⟩,by omega,?_⟩
      · rw [behind]
        exact take_left' twenty
      · unfold responseHeaderBytes nativeInfoBytes
        rw [← drop_drop,behind]
        exact drop_left' twenty
    dsimp only
    rw [status]
    cases response with
    | closed closed =>
      have failed : (decide (NativeResponse.code (.closed closed) ≠ 0) &&
          decide (NativeResponse.code (.closed closed) ≠ 10)) = true := by
        cases closed <;> rfl
      have known : codeToStatus (NativeResponse.code (.closed closed)) = some (.closed closed) :=
        codeToStatus_statusToCode (.closed closed)
      rw [if_pos failed,nativeFailureResponse,known]
      refine refuse_eq_ok.mpr ⟨?_,rfl⟩
      have empty : (NativeResponse.closed closed).facts = [] := rfl
      rw [empty] at long
      unfold responseHeaderBytes
      exact not_not.mpr long
    | wrongKind info =>
      obtain ⟨described,enough,payload⟩ := read info rfl
      rw [if_neg (by simp [NativeResponse.code])]
      refine refuse_eq_ok.mpr ⟨?_,bind_eq_ok.mpr ⟨info,described,?_⟩⟩
      · unfold responseHeaderBytes nativeInfoBytes
        omega
      · rw [payload]
        rfl
    | ok info bytes =>
      obtain ⟨described,enough,payload⟩ := read info rfl
      rw [if_neg (by simp [NativeResponse.code,statusToCode])]
      refine refuse_eq_ok.mpr ⟨?_,bind_eq_ok.mpr ⟨info,described,?_⟩⟩
      · unfold responseHeaderBytes nativeInfoBytes
        omega
      · rw [payload]
        rfl

theorem encodeNativeResponse_eq_ok :
    encodeSecureWorkspaceNativeResponse response = .ok frame ↔ response.Valid ∧
      frame = responseFrame (ascii "KSS3") 3 response.code response.facts := by
  have magic : (ascii "KSS3").length = 4 ∧ asciiText (ascii "KSS3") = "KSS3".toList :=
    ⟨rfl,by decide⟩
  have assembled : ∀ info : Bytes, info = (response.info?.map NativeFileInfo.facts).getD [] →
      ascii "KSS3" ++ le 2 3 ++ le 2 response.code ++
        le 4 ((if response.info?.isSome then nativeInfoBytes else 0) + response.payload.length) ++
        info ++ response.payload = responseFrame (ascii "KSS3") 3 response.code response.facts := by
    intro info same
    have size : (if response.info?.isSome then nativeInfoBytes else 0) = info.length := by
      rw [same]
      cases response.info? with
      | none => rfl
      | some info => exact info.length_facts.symm
    rw [size,responseFrame,NativeResponse.facts,← same,length_append,append_assoc]
  have written : ∀ info : Bytes, writeOptionalInfo response.info? = .ok info ↔ (∀ info ∈ response.info?, info.Valid) ∧
        info = (response.info?.map NativeFileInfo.facts).getD [] := by
    intro info
    cases response.info? with
    | none =>
      rw [writeOptionalInfo]
      simp [eq_comm]
    | some given =>
      rw [writeOptionalInfo,writeNativeInfo_eq_ok]
      simp
  unfold encodeSecureWorkspaceNativeResponse
  rw [refuse_eq_ok,bind_eq_ok]
  constructor
  · intro done
    obtain ⟨small,info,facts,done⟩ := done
    obtain ⟨described,same⟩ := (written info).mp facts
    obtain ⟨_,_,done⟩ := bind_eq_ok.mp done
    obtain rfl := pure_eq_ok.mp done
    exact ⟨⟨described,by omega⟩,assembled info same⟩
  · intro fs
    obtain ⟨valid,rfl⟩ := fs
    have small := valid.2
    refine ⟨by omega,_,(written _).mpr ⟨valid.1,rfl⟩,bind_eq_ok.mpr ?_⟩
    rw [assembled _ rfl]
    exact ⟨response,decodeNativeResponse_eq_ok.mpr ⟨valid,_,magic.1,magic.2,rfl⟩,rfl⟩

end Native
end Keiko.SecureWorkspaceWire
