import Keiko.Library.CodeUnit
import Keiko.Library.Text

/-! JavaScript strings against texts: a string of code units is the encoding of a text just when
no half of a surrogate pair stands alone in it. -/
namespace Keiko.Library.Units
open List Option Bool

def isHigh (c : CodeUnit) : Bool := 0xd800 ≤ c.toNat && c.toNat < 0xdc00

def isLow (c : CodeUnit) : Bool := 0xdc00 ≤ c.toNat && c.toNat < 0xe000

def single (c : CodeUnit) : Option Char :=
  if 0xd800 ≤ c.toNat && c.toNat < 0xe000 then none else some (Char.ofNat c.toNat)

def pair (c d : CodeUnit) : Char :=
  Char.ofNat (0x10000 + (c.toNat - 0xd800) * 0x400 + (d.toNat - 0xdc00))

def points : Units → List (Option Char)
  | [] => []
  | [c] => [single c]
  | c :: d :: rest =>
    if isHigh c && isLow d then some (pair c d) :: points rest else single c :: points (d :: rest)

/-- `isWellFormed`. -/
def wellFormed (text : Units) : Bool := (points text).all Option.isSome

/-- `toWellFormed`, as a text. -/
def toText (text : Units) : Text := (points text).map (Option.getD · '\uFFFD')

def ofChar (c : Char) : Units :=
  if c.toNat < 0x10000 then [UInt16.ofNat c.toNat]
  else [UInt16.ofNat (0xd800 + (c.toNat - 0x10000) / 0x400),UInt16.ofNat (0xdc00 + (c.toNat - 0x10000) % 0x400)]

def ofText (text : Text) : Units := text.flatMap ofChar

theorem toNat_charOfNat {n : ℕ} (valid : n.isValidChar) : (Char.ofNat n).toNat = n := by
  rw [Char.ofNat,dif_pos valid]
  rfl

theorem points_plain {c : CodeUnit} (plain : isHigh c = false) (rest : Units) :
    points (c :: rest) = single c :: points rest := by
  cases rest with
  | nil => rfl
  | cons d rest => simp [points,plain]

theorem points_ofChar (c : Char) (rest : Units) : points (ofChar c ++ rest) = some c :: points rest := by
  have valid := c.valid
  have v : c.val.toNat = c.toNat := rfl
  unfold UInt32.isValidChar Nat.isValidChar at valid
  rw [v] at valid
  unfold ofChar
  split
  case isTrue small =>
    have size : (UInt16.ofNat c.toNat).toNat = c.toNat := by
      rw [UInt16.toNat_ofNat']
      omega
    have whole : Char.ofNat c.toNat = c := Char.ofNat_toNat c
    rw [singleton_append,points_plain,single,size,whole]
    · rw [if_neg]
      simp only [and_eq_true,decide_eq_true_eq]
      omega
    · rw [isHigh,size,and_eq_false_iff,decide_eq_false_iff_not,decide_eq_false_iff_not]
      omega
  case isFalse wide =>
    have high : (UInt16.ofNat (0xd800 + (c.toNat - 0x10000) / 0x400)).toNat = 0xd800 + (c.toNat - 0x10000) / 0x400 := by
      rw [UInt16.toNat_ofNat']
      omega
    have low : (UInt16.ofNat (0xdc00 + (c.toNat - 0x10000) % 0x400)).toNat = 0xdc00 + (c.toNat - 0x10000) % 0x400 := by
      rw [UInt16.toNat_ofNat']
      omega
    rw [cons_append,singleton_append,points,if_pos,pair,high,low]
    · have whole : 0x10000 + (0xd800 + (c.toNat - 0x10000) / 0x400 - 0xd800) * 0x400 +
          (0xdc00 + (c.toNat - 0x10000) % 0x400 - 0xdc00) = c.toNat := by omega
      rw [whole,Char.ofNat_toNat]
    · simp only [isHigh,isLow,high,low,and_eq_true,decide_eq_true_eq]
      omega

theorem points_ofText (t : Text) : points (ofText t) = t.map some := by
  induction t with
  | nil => rfl
  | cons c t ih =>
    rw [ofText,flatMap_cons,points_ofChar,← ofText,ih,map_cons]

@[simp] theorem toText_ofText (t : Text) : toText (ofText t) = t := by
  simp [toText,points_ofText,Function.comp_def]

@[simp] theorem wellFormed_ofText (t : Text) : wellFormed (ofText t) = true := by
  simp [wellFormed,points_ofText]

theorem ofChar_single {c : CodeUnit} {d : Char} (alone : single c = some d) : ofChar d = [c] := by
  unfold single at alone
  split at alone
  case isTrue => cases alone
  case isFalse plain =>
    obtain rfl := some.inj alone
    have small := c.toNat_lt
    simp only [and_eq_true,decide_eq_true_eq] at plain
    have v : (Char.ofNat c.toNat).toNat = c.toNat := by
      apply toNat_charOfNat
      unfold Nat.isValidChar
      omega
    rw [ofChar,v,if_pos small,UInt16.ofNat_toNat]

theorem ofChar_pair {c d : CodeUnit} (high : isHigh c = true) (low : isLow d = true) : ofChar (pair c d) = [c,d] := by
  simp only [isHigh,isLow,and_eq_true,decide_eq_true_eq] at high low
  have v : (pair c d).toNat = 0x10000 + (c.toNat - 0xd800) * 0x400 + (d.toNat - 0xdc00) := by
    apply toNat_charOfNat
    unfold Nat.isValidChar
    omega
  have a : 0xd800 + (0x10000 + (c.toNat - 0xd800) * 0x400 + (d.toNat - 0xdc00) - 0x10000) / 0x400 =
      c.toNat := by omega
  have b : 0xdc00 + (0x10000 + (c.toNat - 0xd800) * 0x400 + (d.toNat - 0xdc00) - 0x10000) % 0x400 =
      d.toNat := by omega
  rw [ofChar,v,if_neg (by omega),a,b,UInt16.ofNat_toNat,UInt16.ofNat_toNat]

theorem ofText_toText : ∀ {t : Units}, wellFormed t = true → ofText (toText t) = t := by
  intro t
  induction t using points.induct with
  | case1 =>
    intro formed
    rfl
  | case2 c =>
    intro formed
    rw [wellFormed,points,all_cons,and_eq_true,isSome_iff_exists] at formed
    obtain ⟨⟨d,alone⟩,_⟩ := formed
    simp [toText,points,alone,ofText,ofChar_single alone]
  | case3 c d rest both ih =>
    intro formed
    rw [wellFormed,points,if_pos both,all_cons] at formed
    have behind := ih (by simpa [wellFormed] using formed)
    rw [and_eq_true] at both
    rw [toText,points,if_pos (by simp [both]),map_cons,ofText,flatMap_cons,
      getD_some,ofChar_pair both.1 both.2,← ofText,← toText,behind]
    rfl
  | case4 c d rest apart ih =>
    intro formed
    rw [wellFormed,points,if_neg apart,all_cons,and_eq_true,isSome_iff_exists] at formed
    obtain ⟨⟨e,alone⟩,others⟩ := formed
    rw [toText,points,if_neg apart,map_cons,ofText,flatMap_cons,alone,
      getD_some,ofChar_single alone,← ofText,← toText,ih others]
    rfl

theorem wellFormed_iff {t : Units} : wellFormed t = true ↔ ofText (toText t) = t := by
  constructor
  · exact ofText_toText
  · intro same
    rw [← same,wellFormed_ofText]

end Keiko.Library.Units
