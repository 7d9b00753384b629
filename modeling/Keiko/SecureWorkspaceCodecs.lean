import Keiko.SecureWorkspaceNative

/-! The codecs of the wire format together: for each of them the values that come back from their
frames, and the frames that come back from their values. -/
namespace Keiko.SecureWorkspaceWire
open Keiko.Library Keiko.Library.Bytes

section Codecs

variable {α : Type} {encode : α → Except String Bytes} {decode : Bytes → Except String α}

def DecodesBack (encode : α → Except String Bytes) (decode : Bytes → Except String α) (faithful : α → Prop) : Prop :=
  ∀ value frame, encode value = .ok frame → (decode frame = .ok value ↔ faithful value)

def EncodesBack (encode : α → Except String Bytes) (decode : Bytes → Except String α)
    (canonical : Bytes → Prop) : Prop :=
  ∀ frame value, decode frame = .ok value → (encode value = .ok frame ↔ canonical frame)

theorem decodesBack_readRequest :
    DecodesBack encodeSecureWorkspaceReadRequest decodeSecureWorkspaceReadRequest fun req =>
      req.root.wellFormed = true ∧ req.relativePath.wellFormed = true := by
  intro req frame done
  beta_reduce
  rw [decode_encodeReadRequest done,Except.ok.injEq,Units.wellFormed_iff,Units.wellFormed_iff]
  constructor
  · intro same
    exact ⟨congrArg ReadRequest.root same,congrArg ReadRequest.relativePath same⟩
  · intro formed
    rw [formed.1,formed.2]

theorem encodesBack_readRequest : EncodesBack encodeSecureWorkspaceReadRequest decodeSecureWorkspaceReadRequest
      fun _ => True := by
  intro frame req done
  exact iff_of_true (encode_decodeReadRequest done) trivial

theorem decodesBack_readResponse : DecodesBack encodeSecureWorkspaceReadResponse decodeSecureWorkspaceReadResponse
      fun _ => True := by
  intro response frame done
  exact iff_of_true (decodeReadResponse_eq_ok.mpr (encodeReadResponse_eq_ok.mp done)) trivial

theorem encodesBack_readResponse : EncodesBack encodeSecureWorkspaceReadResponse decodeSecureWorkspaceReadResponse
      fun _ => True := by
  intro frame response done
  exact iff_of_true (encodeReadResponse_eq_ok.mpr (decodeReadResponse_eq_ok.mp done)) trivial

theorem take_responseFrame {magic payload : Bytes} {v code : ℕ} (four : magic.length = 4) :
    (responseFrame magic v code payload).take 4 = magic := by
  simp only [responseFrame,List.append_assoc]
  exact List.take_left' four

theorem decodesBack_snapshotResponse :
    DecodesBack encodeSecureWorkspaceSnapshotResponse decodeSecureWorkspaceSnapshotResponse fun _ => True := by
  intro response frame done
  obtain ⟨valid,whole⟩ := encodeSnapshotResponse_eq_ok.mp done
  exact iff_of_true (decodeSnapshotResponse_eq_ok.mpr ⟨valid,_,rfl,by decide,whole⟩) trivial

theorem encodesBack_snapshotResponse :
    EncodesBack encodeSecureWorkspaceSnapshotResponse decodeSecureWorkspaceSnapshotResponse
      fun frame => frame.take 4 = ascii "KSS2" := by
  intro frame response done
  obtain ⟨valid,magic,four,_,rfl⟩ := decodeSnapshotResponse_eq_ok.mp done
  beta_reduce
  rw [encodeSnapshotResponse_eq_ok,responseFrame_inj,take_responseFrame four,and_iff_right valid]

theorem decodesBack_nativeResponse : DecodesBack encodeSecureWorkspaceNativeResponse decodeSecureWorkspaceNativeResponse
      fun _ => True := by
  intro response frame done
  obtain ⟨valid,whole⟩ := encodeNativeResponse_eq_ok.mp done
  exact iff_of_true (decodeNativeResponse_eq_ok.mpr ⟨valid,_,rfl,by decide,whole⟩) trivial

theorem encodesBack_nativeResponse : EncodesBack encodeSecureWorkspaceNativeResponse decodeSecureWorkspaceNativeResponse
      fun frame => frame.take 4 = ascii "KSS3" := by
  intro frame response done
  obtain ⟨valid,magic,four,_,rfl⟩ := decodeNativeResponse_eq_ok.mp done
  beta_reduce
  rw [encodeNativeResponse_eq_ok,responseFrame_inj,take_responseFrame four,and_iff_right valid]

theorem decodesBack_nativeDirectory :
    DecodesBack encodeSecureWorkspaceNativeDirectory decodeSecureWorkspaceNativeDirectory fun _ => True := by
  intro es frame done
  exact iff_of_true (encodeNativeDirectory_eq_ok.mp done).2.2 trivial

theorem encodesBack_nativeDirectory :
    EncodesBack encodeSecureWorkspaceNativeDirectory decodeSecureWorkspaceNativeDirectory
      fun frame => frame.length ≤ nativeMaxBytes := by
  intro frame es done
  rw [encodeNativeDirectory_eq_ok]
  constructor
  · exact fun fs => fs.2.1
  · intro small
    exact ⟨(decodeNativeDirectory_eq_ok.mp done).1,small,done⟩

theorem nativeDirectory_names {frame : Bytes} {es : List NativeDirEntry}
    (done : decodeSecureWorkspaceNativeDirectory frame = .ok es) :
    (es.map NativeDirEntry.name).Nodup ∧ ∀ e ∈ es, e.name ≠ [] ∧
      e.name ≠ units "." ∧ e.name ≠ units ".." ∧ unit '/' ∉ e.name := by
  obtain ⟨_,_,valid,nodup⟩ := decodeNativeDirectory_eq_ok.mp done
  refine ⟨nodup,?_⟩
  intro e mem
  obtain ⟨⟨strict,dot,dots,slash⟩,_⟩ := valid e mem
  refine ⟨?_,dot,dots,slash⟩
  intro empty
  rw [empty] at strict
  exact (decodeStrictUtf8_eq_ok.mp strict).2.1 rfl

end Codecs

section Format

/-- Both directions of every codec: the values whose frames decode to themselves, and the accepted
frames that are the encoding of their value. -/
theorem wireFormat_exact (build : Build) :
    (DecodesBack encodeSecureWorkspaceReadRequest decodeSecureWorkspaceReadRequest
        (fun request => request.root.wellFormed = true ∧ request.relativePath.wellFormed = true) ∧
      EncodesBack encodeSecureWorkspaceReadRequest decodeSecureWorkspaceReadRequest
        fun _ => True) ∧
    (DecodesBack encodeSecureWorkspaceReadResponse decodeSecureWorkspaceReadResponse
        (fun _ => True) ∧
      EncodesBack encodeSecureWorkspaceReadResponse decodeSecureWorkspaceReadResponse
        fun _ => True) ∧
    (DecodesBack encodeSecureWorkspaceSnapshotResponse decodeSecureWorkspaceSnapshotResponse
        (fun _ => True) ∧
      EncodesBack encodeSecureWorkspaceSnapshotResponse decodeSecureWorkspaceSnapshotResponse
        fun frame => frame.take 4 = ascii "KSS2") ∧
    ((∀ request frame, encodeSecureWorkspaceNativeRequest request = .ok frame →
        (parseRequest build frame = .ok (helperRequest request) ↔ PathsAllowed build request)) ∧
      ∀ frame found, parseRequest build frame = .ok found → found.version = 3 →
        ∃ request, helperRequest request = found ∧
          encodeSecureWorkspaceNativeRequest request = .ok frame) ∧
    (DecodesBack encodeSecureWorkspaceNativeResponse decodeSecureWorkspaceNativeResponse
        (fun _ => True) ∧
      EncodesBack encodeSecureWorkspaceNativeResponse decodeSecureWorkspaceNativeResponse
        fun frame => frame.take 4 = ascii "KSS3") ∧
    (DecodesBack encodeSecureWorkspaceNativeDirectory decodeSecureWorkspaceNativeDirectory
        (fun _ => True) ∧
      EncodesBack encodeSecureWorkspaceNativeDirectory decodeSecureWorkspaceNativeDirectory
        (fun frame => frame.length ≤ nativeMaxBytes) ∧
      ∀ frame entries, decodeSecureWorkspaceNativeDirectory frame = .ok entries →
        (entries.map NativeDirEntry.name).Nodup ∧ ∀ entry ∈ entries, entry.name ≠ [] ∧
          entry.name ≠ units "." ∧ entry.name ≠ units ".." ∧ unit '/' ∉ entry.name) :=
  ⟨⟨decodesBack_readRequest,encodesBack_readRequest⟩,
    ⟨decodesBack_readResponse,encodesBack_readResponse⟩,
    ⟨decodesBack_snapshotResponse,encodesBack_snapshotResponse⟩,
    ⟨fun _ _ => parse_encodeNativeRequest,fun _ _ => encode_parseRequest⟩,
    ⟨decodesBack_nativeResponse,encodesBack_nativeResponse⟩,
    ⟨decodesBack_nativeDirectory,encodesBack_nativeDirectory,fun _ _ => nativeDirectory_names⟩⟩

/-- Half of a surrogate pair in a root comes back as the replacement character. -/
theorem lone_half_changes :
    ¬ ∀ request frame, encodeSecureWorkspaceReadRequest request = .ok frame →
      decodeSecureWorkspaceReadRequest frame = .ok request := by
  intro faithful
  have root : encodeBoundedUtf8 [unit '/',0xd800] maxRootBytes =
      .ok (Text.encodeUtf8 ['/','\uFFFD']) :=
    encodeBoundedUtf8_eq_ok.mpr ⟨rfl,by decide,by decide,by decide⟩
  have path : encodeBoundedUtf8 [unit 'a'] maxPathBytes = .ok (Text.encodeUtf8 ['a']) :=
    encodeBoundedUtf8_eq_ok.mpr ⟨rfl,by decide,by decide,by decide⟩
  have encoded := (@encodeReadRequest_eq_ok _ ⟨[unit '/',0xd800],[unit 'a'],
    Number.ofNat maxBytes⟩).mpr ⟨_,_,rfl,root,path,isCap_iff.mpr (.inl rfl)⟩
  have formed := (decodesBack_readRequest _ _ encoded).mp (faithful _ _ encoded)
  exact absurd formed.1 (by decide)

end Format
end Keiko.SecureWorkspaceWire
