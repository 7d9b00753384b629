import Keiko.SecureWorkspaceHelper

/-! Strings of the wire format in their bytes: what the server writes and reads of a string, and
the helper's check of the bytes against the encoding. -/
namespace Keiko.SecureWorkspaceWire
open Keiko.Library Keiko.Library.Bytes List Option

section Zero

theorem zero_mem_encodeChar {c : Char} : (0 : UInt8) ∈ String.utf8EncodeChar c ↔ c.toNat = 0 := by
  have value : c.val.toNat = c.toNat := rfl
  have size := c.valid
  unfold UInt32.isValidChar Nat.isValidChar at size
  rw [value] at size
  have byte : ∀ n < 256, (0 : UInt8) = UInt8.ofNat n ↔ n = 0 := by
    intro n small
    rw [← UInt8.toNat_inj,UInt8.toNat_ofNat',UInt8.toNat_zero]
    omega
  unfold String.utf8EncodeChar
  rw [value]
  dsimp only
  split_ifs
  · rw [mem_singleton,byte _ (by omega)]
  · rw [mem_cons,mem_singleton,byte _ (by omega),byte _ (by omega)]
    omega
  · rw [mem_cons,mem_cons,mem_singleton,byte _ (by omega),byte _ (by omega),byte _ (by omega)]
    omega
  · rw [mem_cons,mem_cons,mem_cons,mem_singleton,byte _ (by omega),
      byte _ (by omega),byte _ (by omega),byte _ (by omega)]
    omega

theorem zero_mem_ofChar {c : Char} : (0 : UInt16) ∈ Units.ofChar c ↔ c.toNat = 0 := by
  have size := c.valid
  have value : c.val.toNat = c.toNat := rfl
  unfold UInt32.isValidChar Nat.isValidChar at size
  rw [value] at size
  have unit : ∀ n < 65536, (0 : UInt16) = UInt16.ofNat n ↔ n = 0 := by
    intro n small
    rw [← UInt16.toNat_inj,UInt16.toNat_ofNat',UInt16.toNat_zero]
    omega
  unfold Units.ofChar
  split_ifs
  · rw [mem_singleton,unit _ (by omega)]
  · rw [mem_cons,mem_singleton,unit _ (by omega),unit _ (by omega)]
    omega

theorem zero_mem_iff (t : Text) : (0 : UInt8) ∈ Text.encodeUtf8 t ↔ (0 : UInt16) ∈ Units.ofText t := by
  rw [Text.encodeUtf8,Units.ofText,mem_flatMap,mem_flatMap]
  constructor
  · intro hit
    obtain ⟨c,mem,zero⟩ := hit
    exact ⟨c,mem,zero_mem_ofChar.mpr (zero_mem_encodeChar.mp zero)⟩
  · intro hit
    obtain ⟨c,mem,zero⟩ := hit
    exact ⟨c,mem,zero_mem_encodeChar.mpr (zero_mem_ofChar.mp zero)⟩

theorem encodeUtf8_eq_nil {t : Text} : Text.encodeUtf8 t = [] ↔ t = [] := by
  cases t with
  | nil => simp [Text.encodeUtf8]
  | cons c t => simp [Text.encodeUtf8,String.utf8EncodeChar_ne_nil]

theorem ofText_eq_nil {t : Text} : Units.ofText t = [] ↔ t = [] := by
  cases t with
  | nil => simp [Units.ofText]
  | cons c t =>
    have written : Units.ofChar c ≠ [] := by
      unfold Units.ofChar
      split_ifs <;> simp
    simp [Units.ofText,written]

end Zero

section Strings

variable {v : Units} {bytes : Bytes} {limit : ℕ}

theorem utf8_ofText (t : Text) : utf8 (Units.ofText t) = Text.encodeUtf8 t := by
  rw [utf8,Units.toText_ofText]

theorem utf8Text_utf8 (v : Units) : utf8Text (utf8 v) = some (Units.ofText (Units.toText v)) := by
  rw [utf8Text,utf8,Text.decodeUtf8_encodeUtf8]
  rfl

theorem utf8Text_utf8_iff : utf8Text (utf8 v) = some v ↔ v.wellFormed = true := by
  rw [utf8Text_utf8,Units.wellFormed_iff]
  exact ⟨some.inj,congrArg some⟩

theorem utf8Text_eq_some : utf8Text bytes = some v ↔
    ∃ t, bytes = Text.encodeUtf8 t ∧ v = Units.ofText t := by
  constructor
  · intro read
    obtain ⟨t,decoded,rfl⟩ := map_eq_some_iff.mp read
    exact ⟨t,(Text.encodeUtf8_of_decodeUtf8 decoded).symm,rfl⟩
  · intro written
    obtain ⟨t,rfl,rfl⟩ := written
    rw [utf8Text,Text.decodeUtf8_encodeUtf8]
    rfl

theorem utf8_of_utf8Text (read : utf8Text bytes = some v) : utf8 v = bytes := by
  obtain ⟨t,rfl,rfl⟩ := utf8Text_eq_some.mp read
  exact utf8_ofText t

theorem encodeBoundedUtf8_eq_ok : encodeBoundedUtf8 v limit = .ok bytes ↔
    bytes = utf8 v ∧ bytes ≠ [] ∧ bytes.length ≤ limit ∧ 0 ∉ bytes := by
  rw [encodeBoundedUtf8]
  constructor
  · intro done
    split_ifs at done with refused
    obtain rfl := Except.ok.inj done
    simp only [Bool.or_eq_true,decide_eq_true_eq,not_or,contains_iff_mem,length_eq_zero_iff,not_lt] at refused
    exact ⟨rfl,refused.1.1,refused.1.2,refused.2⟩
  · intro bounded
    obtain ⟨rfl,some_bytes,small,no_zero⟩ := bounded
    rw [if_neg]
    simp only [Bool.or_eq_true,decide_eq_true_eq,not_or,contains_iff_mem,length_eq_zero_iff,not_lt]
    exact ⟨⟨some_bytes,small⟩,no_zero⟩

theorem decodeStrictUtf8_eq_ok : decodeStrictUtf8 bytes = .ok v ↔
    utf8Text bytes = some v ∧ bytes ≠ [] ∧ 0 ∉ bytes := by
  rw [decodeStrictUtf8]
  cases read : utf8Text bytes with
  | none => simp
  | some decoded =>
    obtain ⟨t,rfl,rfl⟩ := utf8Text_eq_some.mp read
    dsimp only
    rw [Ne,encodeUtf8_eq_nil,zero_mem_iff,some.injEq]
    constructor
    · intro done
      split_ifs at done with refused
      simp only [Bool.or_eq_true,decide_eq_true_eq,not_or,contains_iff_mem,length_eq_zero_iff,ofText_eq_nil] at refused
      exact ⟨Except.ok.inj done,refused.1,refused.2⟩
    · intro strict
      obtain ⟨rfl,some_text,no_zero⟩ := strict
      rw [if_neg]
      simp only [Bool.or_eq_true,decide_eq_true_eq,not_or,contains_iff_mem,length_eq_zero_iff,ofText_eq_nil]
      exact ⟨some_text,no_zero⟩

theorem decodeStrictUtf8_encodeBoundedUtf8 (done : encodeBoundedUtf8 v limit = .ok bytes) :
    decodeStrictUtf8 bytes = .ok (Units.ofText (Units.toText v)) := by
  obtain ⟨rfl,some_bytes,_,no_zero⟩ := encodeBoundedUtf8_eq_ok.mp done
  exact decodeStrictUtf8_eq_ok.mpr ⟨utf8Text_utf8 v,some_bytes,no_zero⟩

theorem encodeBoundedUtf8_decodeStrictUtf8 (done : decodeStrictUtf8 bytes = .ok v)
    (small : bytes.length ≤ limit) : encodeBoundedUtf8 v limit = .ok bytes := by
  obtain ⟨read,some_bytes,no_zero⟩ := decodeStrictUtf8_eq_ok.mp done
  exact encodeBoundedUtf8_eq_ok.mpr ⟨(utf8_of_utf8Text read).symm,some_bytes,small,no_zero⟩

end Strings

section Helper

theorem codePoint_one {c : UInt8} (small : c.toNat < 0x80) (rest : Bytes) :
    codePoint (c :: rest) = some (c.toNat,rest) := by
  unfold codePoint
  simp only [small,if_true]

theorem codePoint_two {c d : UInt8} (low : 0xc2 ≤ c.toNat) (high : c.toNat ≤ 0xdf)
    (next : continues d = true) (rest : Bytes) :
    codePoint (c :: d :: rest) = some (c.toNat % 32 * 64 + d.toNat % 64,rest) := by
  have wide : ¬ c.toNat < 0x80 := by omega
  unfold codePoint
  simp only [wide,if_false,low,high,next,decide_true,Bool.and_true,if_true]

theorem codePoint_three {c d e : UInt8} {cp : ℕ} (low : 0xe0 ≤ c.toNat) (high : c.toNat ≤ 0xef)
    (next : continues d = true) (last : continues e = true)
    (value : cp = c.toNat % 16 * 4096 + d.toNat % 64 * 64 + e.toNat % 64) (rest : Bytes) :
    codePoint (c :: d :: e :: rest) = if cp < 0x800 || (0xd800 ≤ cp && cp ≤ 0xdfff) then none else some (cp,rest) := by
  have wide : ¬ c.toNat < 0x80 := by omega
  have above : ¬ c.toNat ≤ 0xdf := by omega
  subst value
  unfold codePoint
  simp only [wide,if_false,above,low,high,next,last,decide_true,decide_false,Bool.and_true,
    Bool.and_false,Bool.false_eq_true,if_true]

theorem codePoint_four {c d e f : UInt8} {cp : ℕ} (low : 0xf0 ≤ c.toNat) (high : c.toNat ≤ 0xf4)
    (next : continues d = true) (third : continues e = true) (last : continues f = true)
    (value : cp = c.toNat % 8 * 262144 + d.toNat % 64 * 4096 + e.toNat % 64 * 64 + f.toNat % 64)
    (rest : Bytes) : codePoint (c :: d :: e :: f :: rest) =
      if cp < 0x10000 || 0x10ffff < cp then none else some (cp,rest) := by
  have wide : ¬ c.toNat < 0x80 := by omega
  have above : ¬ c.toNat ≤ 0xdf := by omega
  have beyond : ¬ c.toNat ≤ 0xef := by omega
  subst value
  unfold codePoint
  simp only [wide,if_false,above,beyond,low,high,next,third,last,decide_true,decide_false,
    Bool.and_true,Bool.and_false,Bool.false_eq_true,if_true]

theorem continues_ofNat {n : ℕ} (small : n < 64) :
    continues (UInt8.ofNat (n + 0x80)) = true ∧ (UInt8.ofNat (n + 0x80)).toNat = n + 0x80 := by
  have value : (UInt8.ofNat (n + 0x80)).toNat = n + 0x80 := by
    rw [UInt8.toNat_ofNat']
    omega
  rw [continues,value,decide_eq_true_eq]
  omega

theorem codePoint_encodeChar (c : Char) (rest : Bytes) :
    codePoint (String.utf8EncodeChar c ++ rest) = some (c.toNat,rest) := by
  have value : c.val.toNat = c.toNat := rfl
  have size := c.valid
  unfold UInt32.isValidChar Nat.isValidChar at size
  rw [value] at size
  have byte : ∀ n < 256, (UInt8.ofNat n).toNat = n := by
    intro n small
    rw [UInt8.toNat_ofNat']
    omega
  have low : ∀ n, continues (UInt8.ofNat (n % 0x40 + 0x80)) = true ∧
      (UInt8.ofNat (n % 0x40 + 0x80)).toNat = n % 0x40 + 0x80 :=
    fun n => continues_ofNat (Nat.mod_lt _ (by omega))
  unfold String.utf8EncodeChar
  rw [value]
  dsimp only
  split_ifs with one two three
  · have a := byte c.toNat (by omega)
    rw [singleton_append,codePoint_one (by omega),a]
  · have a := byte (c.toNat / 64 % 0x20 + 0xc0) (by omega)
    rw [cons_append,singleton_append,codePoint_two (by omega) (by omega) (low _).1,a,(low _).2]
    congr 2
    omega
  · have a := byte (c.toNat / 4096 % 0x10 + 0xe0) (by omega)
    rw [cons_append,cons_append,singleton_append,
      @codePoint_three _ _ _ c.toNat (by omega) (by omega) (low _).1 (low _).1,if_neg]
    · simp only [Bool.or_eq_true,Bool.and_eq_true,decide_eq_true_eq]
      omega
    · rw [a,(low _).2,(low _).2]
      omega
  · have a := byte (c.toNat / 262144 % 0x08 + 0xf0) (by omega)
    rw [cons_append,cons_append,cons_append,singleton_append,
      @codePoint_four _ _ _ _ c.toNat (by omega) (by omega) (low _).1 (low _).1 (low _).1,if_neg]
    · simp only [Bool.or_eq_true,decide_eq_true_eq]
      omega
    · rw [a,(low _).2,(low _).2,(low _).2]
      omega

theorem eq_ofNat {b : UInt8} {n : ℕ} (value : n = b.toNat) : UInt8.ofNat n = b := by
  rw [value,UInt8.ofNat_toNat]

theorem encodeChar_of_codePoint {bytes rest : Bytes} {cp : ℕ} (done : codePoint bytes = some (cp,rest)) :
    ∃ c : Char, c.toNat = cp ∧ bytes = String.utf8EncodeChar c ++ rest := by
  have valid : ∀ {n : ℕ}, n < 0xd800 ∨ 0xdfff < n ∧ n < 0x110000 →
      (Char.ofNat n).toNat = n ∧ (Char.ofNat n).val.toNat = n := by
    intro n scalar
    have value : (Char.ofNat n).toNat = n := Units.toNat_charOfNat scalar
    exact ⟨value,value⟩
  unfold codePoint at done
  split at done
  case h_1 => cases done
  case h_2 c tail =>
    have size := c.toNat_lt
    split at done
    case isTrue small =>
      obtain ⟨rfl,rfl⟩ := Prod.mk.inj (some.inj done)
      obtain ⟨value,number⟩ := @valid c.toNat (by omega)
      refine ⟨_,value,?_⟩
      unfold String.utf8EncodeChar
      rw [number,if_pos (by omega),eq_ofNat rfl]
      rfl
    case isFalse wide =>
      split at done
      case h_2 => cases done
      case h_1 d tail =>
        have second := d.toNat_lt
        split at done
        case isTrue two =>
          simp only [continues,Bool.and_eq_true,decide_eq_true_eq] at two
          obtain ⟨rfl,rfl⟩ := Prod.mk.inj (some.inj done)
          obtain ⟨value,number⟩ := @valid (c.toNat % 32 * 64 + d.toNat % 64) (by omega)
          refine ⟨_,value,?_⟩
          unfold String.utf8EncodeChar
          rw [number,if_neg (by omega),if_pos (by omega),eq_ofNat (b := c) (by omega),eq_ofNat (b := d) (by omega)]
          rfl
        case isFalse =>
          split at done
          case h_2 => cases done
          case h_1 e tail =>
            have third := e.toNat_lt
            split at done
            case isTrue three =>
              simp only [continues,Bool.and_eq_true,decide_eq_true_eq] at three
              dsimp only at done
              split_ifs at done with refused
              simp only [Bool.or_eq_true,Bool.and_eq_true,decide_eq_true_eq] at refused
              obtain ⟨rfl,rfl⟩ := Prod.mk.inj (some.inj done)
              obtain ⟨value,number⟩ :=
                @valid (c.toNat % 16 * 4096 + d.toNat % 64 * 64 + e.toNat % 64) (by omega)
              refine ⟨_,value,?_⟩
              unfold String.utf8EncodeChar
              rw [number,if_neg (by omega),if_neg (by omega),if_pos (by omega),
                eq_ofNat (b := c) (by omega),eq_ofNat (b := d) (by omega),
                eq_ofNat (b := e) (by omega)]
              rfl
            case isFalse =>
              split at done
              case h_2 => cases done
              case h_1 f tail =>
                have fourth := f.toNat_lt
                split at done
                case isFalse => cases done
                case isTrue four =>
                  simp only [continues,Bool.and_eq_true,decide_eq_true_eq] at four
                  dsimp only at done
                  split_ifs at done with refused
                  simp only [Bool.or_eq_true,decide_eq_true_eq] at refused
                  obtain ⟨rfl,rfl⟩ := Prod.mk.inj (some.inj done)
                  obtain ⟨value,number⟩ := @valid (c.toNat % 8 * 262144 + d.toNat % 64 * 4096 +
                    e.toNat % 64 * 64 + f.toNat % 64) (by omega)
                  refine ⟨_,value,?_⟩
                  unfold String.utf8EncodeChar
                  rw [number,if_neg (by omega),if_neg (by omega),if_neg (by omega),
                    eq_ofNat (b := c) (by omega),eq_ofNat (b := d) (by omega),
                    eq_ofNat (b := e) (by omega),eq_ofNat (b := f) (by omega)]
                  rfl

theorem validUtf8Mode_encodeUtf8 : ∀ {t : Text} {fuel : ℕ},
    (Text.encodeUtf8 t).length ≤ fuel → 0 ∉ Text.encodeUtf8 t →
      validUtf8Mode false fuel (Text.encodeUtf8 t) = true := by
  intro t
  induction t with
  | nil =>
    intro fuel long no_zero
    cases fuel <;> rfl
  | cons c t ih =>
    intro fuel long no_zero
    have spelled : Text.encodeUtf8 (c :: t) = String.utf8EncodeChar c ++ Text.encodeUtf8 t := flatMap_cons
    rw [spelled] at long no_zero ⊢
    have point := codePoint_encodeChar c (Text.encodeUtf8 t)
    rw [mem_append,not_or,zero_mem_encodeChar] at no_zero
    obtain ⟨b,others,a⟩ := exists_cons_of_ne_nil (@String.utf8EncodeChar_ne_nil c)
    rw [a,cons_append] at long point ⊢
    rw [length_cons,length_append] at long
    cases fuel with
    | zero => omega
    | succ fuel =>
      rw [validUtf8Mode,point]
      simp only [no_zero.1,decide_false,Bool.false_and,Bool.or_self,Bool.false_eq_true,if_false]
      exact ih (by omega) no_zero.2

theorem encodeUtf8_of_validUtf8Mode : ∀ {fuel : ℕ} {bytes : Bytes},
    validUtf8Mode false fuel bytes = true → ∃ t, bytes = Text.encodeUtf8 t := by
  intro fuel
  induction fuel with
  | zero =>
    intro bytes valid
    cases bytes with
    | nil => exact ⟨[],rfl⟩
    | cons b bytes => cases valid
  | succ fuel ih =>
    intro bytes valid
    cases bytes with
    | nil => exact ⟨[],rfl⟩
    | cons b bytes =>
      rw [validUtf8Mode] at valid
      cases point : codePoint (b :: bytes) with
      | none =>
        rw [point] at valid
        cases valid
      | some hit =>
        rw [point] at valid
        dsimp only at valid
        split_ifs at valid
        obtain ⟨t,behind⟩ := ih valid
        obtain ⟨c,_,whole⟩ := encodeChar_of_codePoint point
        refine ⟨c :: t,?_⟩
        rw [whole,behind]
        exact flatMap_cons.symm

end Helper
end Keiko.SecureWorkspaceWire
