import Mathlib.Algebra.GroupWithZero.Nat
import Mathlib.Data.List.Basic

/-! Text of a JavaScript program as the list of its code points. Lengths and
offsets that the language counts in UTF-16 units are computed from the code
points, so an astral character is one element of a text and two units long. -/
namespace Keiko.Library
open List Option

abbrev Text := List Char

instance : LawfulBEq Text := inferInstance

namespace Text

variable {ls : List Text} {t l : Text} {c : Char}

theorem of_all (p : Char → Prop) [DecidablePred p]
    (all : (t.all fun c => decide (p c)) = true) (mem : c ∈ t) : p c :=
  of_decide_eq_true (all_eq_true.mp all c mem)

def utf16Width (c : Char) : Nat := if c.toNat < 0x10000 then 1 else 2

/-- `length` of a JavaScript string. -/
def utf16Length (text : Text) : Nat := (text.map utf16Width).sum

@[simp] theorem utf16Length_nil : utf16Length [] = 0 := rfl

@[simp] theorem utf16Length_cons (c : Char) (t : Text) :
    utf16Length (c :: t) = utf16Width c + utf16Length t := by
  simp [utf16Length]

@[simp] theorem utf16Length_append (a b : Text) :
    utf16Length (a ++ b) = utf16Length a + utf16Length b := by
  simp [utf16Length]

theorem utf16Width_pos (c : Char) : 0 < utf16Width c := by
  unfold utf16Width
  split <;> omega

theorem utf16Width_newline : utf16Width '\n' = 1 := rfl

def isDigit (c : Char) : Bool := '0' ≤ c && c ≤ '9'

/-- `Number(digits)` of a text of decimal digits. -/
def decimal (digits : Text) : Nat :=
  digits.foldl (fun value digit => 10 * value + (digit.toNat - '0'.toNat)) 0

/-- `String(n)` of a natural number. -/
def numberText (n : Nat) : Text := Nat.toDigits 10 n

theorem numberText_injective : Function.Injective numberText := by
  intro m n same
  have values := congrArg (Nat.ofDigitChars 10 · 0) same
  simpa [numberText] using values

theorem decimal_numberText (n : Nat) : decimal (numberText n) = n := by
  have v : Nat.ofDigitChars 10 (Nat.toDigits 10 n) 0 = n := Nat.ofDigitChars_ten_toDigits
  rwa [Nat.ofDigitChars_eq_foldl] at v

theorem numberText_ne_nil (n : Nat) : numberText n ≠ [] := Nat.toDigits_ne_nil

theorem isDigit_of_mem_numberText {n : Nat} (mem : c ∈ numberText n) : isDigit c = true := by
  have digit : c.isDigit = true := Nat.isDigit_of_mem_toDigits (by decide) (by decide) mem
  simp only [Char.isDigit,Bool.and_eq_true,decide_eq_true_eq] at digit
  simp only [isDigit,Bool.and_eq_true,decide_eq_true_eq]
  exact digit

/-- White space and line terminators of the language, as `trim` and `\s` read them. -/
def isSpaceCode (code : Int) : Bool :=
  [9, 10, 11, 12, 13, 32, 160, 5760, 8232, 8233, 8239, 8287, 12288, 65279].contains code ||
    (8192 ≤ code && code ≤ 8202)

def isSpace (c : Char) : Bool := isSpaceCode c.toNat

def trimEnd (text : Text) : Text := (text.reverse.dropWhile isSpace).reverse

def trim (text : Text) : Text := trimEnd (text.dropWhile isSpace)

theorem trimEnd_sublist (t : Text) : (trimEnd t).Sublist t := by
  have shorter := (dropWhile_sublist (l := t.reverse) isSpace).reverse
  rwa [reverse_reverse] at shorter

theorem trim_sublist (t : Text) : (trim t).Sublist t :=
  (trimEnd_sublist _).trans (dropWhile_sublist isSpace)

theorem isSpace_of_getLast?_trimEnd (t : Text) : ∀ c ∈ (trimEnd t).getLast?, isSpace c = false := by
  intro c last
  have first := head?_dropWhile_not isSpace t.reverse
  rw [trimEnd,getLast?_reverse] at last
  rw [mem_def.mp last] at first
  simpa using first

theorem trimEnd_eq (ends : ∀ c ∈ t.getLast?, isSpace c = false) : trimEnd t = t := by
  rw [trimEnd]
  cases reversed : t.reverse with
  | nil => simpa using (reverse_eq_nil_iff.mp reversed).symm
  | cons c rest =>
    have last : t.getLast? = some c := by rw [getLast?_eq_head?_reverse,reversed]; rfl
    rw [dropWhile_cons_of_neg (by simp [ends c last]),← reversed,reverse_reverse]

theorem trimEnd_cons (t : Text) (ends : isSpace c = false) : trimEnd (c :: t) = c :: trimEnd t := by
  rw [trimEnd,trimEnd,reverse_cons,dropWhile_append]
  cases trimmed : t.reverse.dropWhile isSpace with
  | nil => simp [ends]
  | cons d rest => simp

theorem trim_cons (t : Text) (starts : isSpace c = false) : trim (c :: t) = c :: trimEnd t := by
  rw [trim,dropWhile_cons_of_neg (by simp [starts]),trimEnd_cons t starts]

/-- `includes`. -/
def includes (part : Text) (text : Text) : Bool := text.tails.any part.isPrefixOf

/-- `split("\n")`. -/
def splitLines (text : Text) : List Text := text.splitOn '\n'

/-- `join("\n")`. -/
def joinLines (lines : List Text) : Text := List.intercalate ['\n'] lines

theorem splitLines_ne_nil (t : Text) : splitLines t ≠ [] := splitOn_ne_nil _ _

@[simp] theorem joinLines_splitLines (t : Text) : joinLines (splitLines t) = t :=
  intercalate_splitOn '\n'

theorem splitLines_joinLines (unbroken : ∀ l ∈ ls, '\n' ∉ l)
    (some_line : ls ≠ []) : splitLines (joinLines ls) = ls :=
  splitOn_intercalate '\n' unbroken some_line

theorem splitLines_unbroken (t : Text) : ∀ l ∈ splitLines t, '\n' ∉ l := by
  induction t with
  | nil => simp [splitLines]
  | cons c t ih =>
    intro l mem
    rw [splitLines,splitOn_cons_eq_if_modifyHead] at mem
    split at mem
    case isTrue =>
      obtain rfl | inside := mem_cons.mp mem
      · simp
      · exact ih l inside
    case isFalse other =>
      obtain ⟨a,rest,ls⟩ := exists_cons_of_ne_nil (splitLines_ne_nil t)
      rw [splitLines] at ls
      rw [ls,modifyHead_cons] at mem
      rw [splitLines,ls] at ih
      obtain rfl | inside := mem_cons.mp mem
      · simp only [mem_cons,not_or]
        exact ⟨fun same => other (by simp [← same]),ih a (by simp)⟩
      · exact ih l (by simp [inside])

@[simp] theorem joinLines_singleton (l : Text) : joinLines [l] = l :=
  intercalate_singleton

theorem joinLines_cons (l : Text) (some_line : ls ≠ []) :
    joinLines (l :: ls) = l ++ '\n' :: joinLines ls := by
  rw [joinLines,intercalate_cons_of_ne_nil some_line]
  simp [joinLines]

theorem splitLines_eq_singleton (unbroken : '\n' ∉ l) :
    splitLines l = [l] := splitOn_eq_singleton unbroken

theorem splitLines_append {start : Text} (unbroken : '\n' ∉ start) (t : Text) :
    splitLines (start ++ t) = (splitLines t).modifyHead (start ++ ·) := by
  induction start with
  | nil =>
    rw [nil_append]
    cases splitLines t <;> rfl
  | cons c start ih =>
    rw [mem_cons,not_or] at unbroken
    rw [splitLines] at ih ⊢
    rw [cons_append,splitOn_cons_eq_if_modifyHead,if_neg (by simpa using Ne.symm unbroken.1),ih unbroken.2]
    cases splitLines t <;> rfl

theorem splitLines_joinLines_flatMap {texts : List Text} (some_text : texts ≠ []) :
    splitLines (joinLines texts) = texts.flatMap splitLines := by
  induction texts with
  | nil => contradiction
  | cons t texts ih =>
    cases texts with
    | nil => simp
    | cons b texts =>
      rw [joinLines_cons t (cons_ne_nil _ _),splitLines,splitOn_append_cons_self,flatMap_cons]
      exact congrArg (splitLines t ++ ·) (ih (cons_ne_nil _ _))

theorem flatMap_splitLines (unbroken : ∀ l ∈ ls, '\n' ∉ l) :
    ls.flatMap splitLines = ls := by
  induction ls with
  | nil => rfl
  | cons l ls ih =>
    rw [flatMap_cons,splitLines_eq_singleton (unbroken l (by simp)),ih fun l mem => unbroken l (by simp [mem])]
    rfl

def byteLength (text : Text) : Nat := (text.map Char.utf8Size).sum

@[simp] theorem byteLength_nil : byteLength [] = 0 := rfl

@[simp] theorem byteLength_cons (c : Char) (t : Text) : byteLength (c :: t) = c.utf8Size + byteLength t := by
  simp [byteLength]

@[simp] theorem byteLength_append (a b : Text) :
    byteLength (a ++ b) = byteLength a + byteLength b := by
  simp [byteLength]

theorem utf8Size_ascii (ascii : c.toNat < 128) : c.utf8Size = 1 := by
  unfold Char.utf8Size
  rw [if_pos]
  rw [UInt32.le_iff_toNat_le]
  exact Nat.le_of_lt_succ ascii

theorem byteLength_ascii (ascii : ∀ c ∈ t, c.toNat < 128) : byteLength t = t.length := by
  induction t with
  | nil => rfl
  | cons c t ih =>
    rw [byteLength_cons,length_cons,utf8Size_ascii (ascii c mem_cons_self),
      ih fun other mem => ascii other (mem_cons_of_mem _ mem),Nat.add_comm]

theorem byteLength_intercalate (c : Char) (texts : List Text) : byteLength (List.intercalate [c] texts) =
      (texts.map byteLength).sum + (texts.length - 1) * c.utf8Size := by
  induction texts with
  | nil => simp
  | cons t texts ih =>
    cases texts with
    | nil => simp
    | cons next texts =>
      rw [intercalate_cons_cons,byteLength_append,byteLength_append,ih,byteLength_cons,byteLength_nil]
      simp only [length_cons,Nat.add_sub_cancel,map_cons,sum_cons,Nat.add_mul]
      omega

theorem utf16Width_le_utf8Size (c : Char) : utf16Width c ≤ c.utf8Size := by
  unfold utf16Width Char.utf8Size
  have code : c.val.toNat = c.toNat := rfl
  simp only [UInt32.le_iff_toNat_le,code]
  split
  · split_ifs <;> omega
  · next wide =>
    rw [if_neg,if_neg,if_neg]
    · omega
    · change ¬ c.toNat ≤ 65535
      omega
    · change ¬ c.toNat ≤ 2047
      omega
    · change ¬ c.toNat ≤ 127
      omega

theorem utf16Length_le_byteLength (t : Text) : utf16Length t ≤ byteLength t := by
  induction t with
  | nil => exact Nat.le_refl _
  | cons c t ih =>
    rw [utf16Length_cons,byteLength_cons]
    exact Nat.add_le_add (utf16Width_le_utf8Size c) ih

theorem byteLength_sublist {part : Text} (sublist : part.Sublist t) : byteLength part ≤ byteLength t := by
  induction sublist with
  | slnil => exact Nat.le_refl _
  | cons c _ ih =>
    rw [byteLength_cons]
    exact Nat.le_trans ih (Nat.le_add_left _ _)
  | cons_cons c _ ih =>
    rw [byteLength_cons,byteLength_cons]
    exact Nat.add_le_add_left ih _

theorem byteLength_le_joinLines (mem : l ∈ ls) :
    byteLength l ≤ byteLength (joinLines ls) := by
  induction ls with
  | nil => simp at mem
  | cons a ls ih =>
    by_cases last : ls = []
    · subst last
      obtain rfl := mem_singleton.mp mem
      simp
    · rw [joinLines_cons a last,byteLength_append,byteLength_cons]
      obtain rfl | inside := mem_cons.mp mem
      · exact Nat.le_add_right _ _
      · have shorter := ih inside
        omega

theorem byteLength_lt_of_mem_tail (mem : l ∈ (splitLines t).tail) :
    byteLength l < byteLength t := by
  obtain ⟨a,rest,ls⟩ := exists_cons_of_ne_nil (splitLines_ne_nil t)
  rw [ls,tail_cons] at mem
  have shorter := byteLength_le_joinLines mem
  rw [← joinLines_splitLines t,ls,joinLines_cons a (ne_nil_of_mem mem),byteLength_append,byteLength_cons]
  have width := Char.utf8Size_pos '\n'
  omega

/-- `new TextEncoder().encode`. -/
def encodeUtf8 (text : Text) : List UInt8 := text.flatMap String.utf8EncodeChar

def decodeUtf8 (bytes : List UInt8) : Option Text :=
  bytes.toByteArray.utf8Decode?.map Array.toList

theorem decodeUtf8_encodeUtf8 (t : Text) : decodeUtf8 (encodeUtf8 t) = some t := by
  have encoded : (encodeUtf8 t).toByteArray = t.utf8Encode := rfl
  rw [decodeUtf8,encoded,utf8Decode?_utf8Encode]
  rfl

theorem byteLength_eq (t : Text) : byteLength t = (encodeUtf8 t).length := by
  induction t with
  | nil => rfl
  | cons c t ih =>
    rw [byteLength_cons,ih]
    simp [encodeUtf8]

theorem encodeUtf8_of_decodeUtf8 {bytes : List UInt8}
    (decoded : decodeUtf8 bytes = some t) : encodeUtf8 t = bytes := by
  obtain ⟨chars,hit,rfl⟩ := map_eq_some_iff.mp decoded
  have some_chars : bytes.toByteArray.utf8Decode?.isSome = true := by simp [hit]
  have encoded := ByteArray.utf8Encode_get_utf8Decode? (h := some_chars)
  simp only [hit,get_some] at encoded
  have same : (encodeUtf8 chars.toList).toByteArray = bytes.toByteArray := encoded
  simpa using congrArg (fun array => array.data.toList) same

end Text

end Keiko.Library
