import Keiko.Library.Utf16
import Mathlib.Data.List.TakeWhile

/-! JavaScript strings as a program takes them apart: trimming, runs of white space, and the code
points. The string from a position on is a list of code units. -/
namespace Keiko.Library.Units
open List Option Bool

section Trim

/-- `trimStart`. -/
def trimStart (text : Units) : Units := text.dropWhile CodeUnit.isSpace

/-- `trimEnd`. -/
def trimEnd (text : Units) : Units := (text.reverse.dropWhile CodeUnit.isSpace).reverse

/-- `trim`. -/
def trim (text : Units) : Units := trimEnd (trimStart text)

/-- `join`. -/
def join (separator : Units) (texts : List Units) : Units := List.intercalate separator texts

variable {text : Units} {c : CodeUnit}

@[simp] theorem trim_nil : trim [] = [] := rfl

theorem isSpace_head (trimmed : trim (c :: text) = c :: text) : CodeUnit.isSpace c = false := by
  cases space : CodeUnit.isSpace c with
  | false => rfl
  | true =>
    exfalso
    have shorter : (trim (c :: text)).length ≤ text.length := by
      rw [trim,trimEnd,length_reverse,trimStart,dropWhile_cons_of_pos space]
      have back := (dropWhile_suffix CodeUnit.isSpace (l := (text.dropWhile CodeUnit.isSpace).reverse)).length_le
      have front := (dropWhile_suffix CodeUnit.isSpace (l := text)).length_le
      rw [length_reverse] at back
      exact le_trans back front
    rw [trimmed,length_cons] at shorter
    omega

theorem isSpace_of_mem_head_trim (first : c ∈ (trim text).head?) : CodeUnit.isSpace c = false := by
  have started : trimStart text ≠ [] ∧ (trimStart text).head? = some c := by
    obtain ⟨back,whole⟩ : trim text <+: trimStart text := by
      rw [trim,trimEnd,← reverse_suffix,reverse_reverse]
      exact dropWhile_suffix _
    obtain ⟨rest,cut⟩ := head?_eq_some_iff.mp first
    rw [cut] at whole
    rw [← whole]
    exact ⟨cons_ne_nil _ _,rfl⟩
  have kept := head_dropWhile_not CodeUnit.isSpace started.1
  rw [trimStart,head?_eq_some_head (by exact started.1),some.injEq] at started
  rwa [started.2] at kept

theorem trimStart_eq (a : ∀ c ∈ text.head?, CodeUnit.isSpace c = false) : trimStart text = text := by
  cases text with
  | nil => rfl
  | cons c text => exact dropWhile_cons_of_neg (by simp [a c rfl])

theorem trim_append (a : ∀ c ∈ text.head?, CodeUnit.isSpace c = false) :
    ∃ spaces, text = trim text ++ spaces ∧ ∀ c ∈ spaces, CodeUnit.isSpace c = true := by
  refine ⟨(text.reverse.takeWhile CodeUnit.isSpace).reverse,?_,?_⟩
  · rw [trim,trimStart_eq a,trimEnd,← reverse_append,takeWhile_append_dropWhile,reverse_reverse]
  · intro c mem
    exact mem_takeWhile_imp (mem_reverse.mp mem)

theorem trim_eq (first : ∀ c ∈ text.head?, CodeUnit.isSpace c = false)
    (last : ∀ c ∈ text.getLast?, CodeUnit.isSpace c = false) : trim text = text := by
  obtain ⟨spaces,whole,blank⟩ := trim_append first
  cases final : spaces.getLast? with
  | none => rw [getLast?_eq_none_iff.mp final,append_nil] at whole; exact whole.symm
  | some c =>
    have ends : c ∈ text.getLast? := by
      rw [whole,getLast?_append,final,some_or]
      rfl
    have letter := last c ends
    rw [blank c (mem_of_getLast? final)] at letter
    cases letter

theorem length_trim_lt (a : ∀ c ∈ text.head?, CodeUnit.isSpace c = false)
    (last : c ∈ text.getLast?) (space : CodeUnit.isSpace c = true) :
    (trim text).length < text.length := by
  obtain ⟨front,rfl⟩ := getLast?_eq_some_iff.mp last
  have shorter := (dropWhile_suffix CodeUnit.isSpace (l := front.reverse)).length_le
  rw [trim,trimStart_eq a,trimEnd,length_reverse,reverse_append,reverse_singleton,
    singleton_append,dropWhile_cons_of_pos space,length_append]
  rw [length_reverse] at shorter
  exact Nat.lt_succ_of_le shorter

end Trim

section CodePoints

/-- `codePointAt(0)`. -/
def codePoint : Units → Option Nat
  | [] => none
  | [c] => some c.toNat
  | c :: d :: _ => if isHigh c && isLow d then some (pair c d).toNat else some c.toNat

def codePoints : Units → List Nat
  | [] => []
  | [c] => [c.toNat]
  | c :: d :: rest =>
    if isHigh c && isLow d then (pair c d).toNat :: codePoints rest
    else c.toNat :: codePoints (d :: rest)

/-- `String.fromCodePoint` of one point. -/
def ofCodePoint (n : Nat) : Units :=
  if n < 0x10000 then [UInt16.ofNat n]
  else [UInt16.ofNat (0xd800 + (n - 0x10000) / 0x400),UInt16.ofNat (0xdc00 + (n - 0x10000) % 0x400)]

/-- `\s` of a code point. -/
def isSpacePoint (n : Nat) : Bool := n < 0x10000 && CodeUnit.isSpace (UInt16.ofNat n)

variable {text : Units} {c : CodeUnit}

theorem codePoints_plain (plain : isHigh c = false) (text : Units) :
    codePoints (c :: text) = c.toNat :: codePoints text := by
  cases text with
  | nil => rfl
  | cons d text => rw [codePoints,plain,Bool.false_and,if_neg Bool.false_ne_true]

theorem codePoints_append (text : Units) {rest : Units} (plain : ∀ d ∈ rest.head?, isLow d = false) :
    codePoints (text ++ rest) = codePoints text ++ codePoints rest := by
  induction text using codePoints.induct with
  | case1 => rfl
  | case2 c =>
    cases rest with
    | nil => rfl
    | cons d rest =>
      have joined : codePoints (c :: d :: rest) = c.toNat :: codePoints (d :: rest) := by
        rw [codePoints,plain d rfl,Bool.and_false,if_neg Bool.false_ne_true]
      exact joined
  | case3 c d text both ih =>
    rw [cons_append,cons_append,codePoints,codePoints,if_pos both,if_pos both,ih,cons_append]
  | case4 c d text apart ih =>
    rw [cons_append,cons_append,codePoints,codePoints,if_neg apart,if_neg apart,cons_append,← cons_append,ih]

theorem le_pair {d : CodeUnit} (high : isHigh c = true) (low : isLow d = true) : 0x10000 ≤ (pair c d).toNat := by
  simp only [isHigh,isLow,and_eq_true,decide_eq_true_eq] at high low
  rw [pair,toNat_charOfNat]
  · omega
  · right
    omega

theorem ofCodePoint_toNat (c : CodeUnit) : ofCodePoint c.toNat = [c] := by
  rw [ofCodePoint,if_pos c.toNat_lt,UInt16.ofNat_toNat]

theorem codePoints_lt {n : ℕ} (mem : n ∈ codePoints text) : n < 0x110000 := by
  induction text using codePoints.induct with
  | case1 => cases mem
  | case2 c =>
    have small := c.toNat_lt
    have same := mem_singleton.mp mem
    omega
  | case3 c d text both ih =>
    rw [codePoints,if_pos both] at mem
    rcases mem_cons.mp mem with same | post
    · have valid : (pair c d).val.toNat < 0xd800 ∨ 0xdfff < (pair c d).val.toNat ∧
          (pair c d).val.toNat < 0x110000 := (pair c d).valid
      change n = (pair c d).val.toNat at same
      omega
    · exact ih post
  | case4 c d text apart ih =>
    rw [codePoints,if_neg apart] at mem
    rcases mem_cons.mp mem with same | post
    · have small := c.toNat_lt
      omega
    · exact ih post

theorem mem_of_mem_codePoints {n : ℕ} (mem : n ∈ codePoints text) (basic : n < 0x10000) : UInt16.ofNat n ∈ text := by
  induction text using codePoints.induct with
  | case1 => cases mem
  | case2 c =>
    rw [mem_singleton.mp mem,UInt16.ofNat_toNat]
    exact mem_singleton_self c
  | case3 c d text both ih =>
    rw [codePoints,if_pos both] at mem
    obtain ⟨high,low⟩ := and_eq_true_iff.mp both
    have wide := le_pair high low
    rcases mem_cons.mp mem with same | post
    · omega
    · exact mem_cons_of_mem _ (mem_cons_of_mem _ (ih post))
  | case4 c d text apart ih =>
    rw [codePoints,if_neg apart] at mem
    rcases mem_cons.mp mem with same | post
    · rw [same,UInt16.ofNat_toNat]
      exact mem_cons_self
    · exact mem_cons_of_mem _ (ih post)

theorem codePoint_cons {n : Nat} (plain : n < 0xd800) : codePoint (c :: text) = some n ↔ c.toNat = n := by
  cases text with
  | nil => rw [codePoint,some.injEq]
  | cons d text =>
    rw [codePoint]
    split
    next halves =>
      obtain ⟨high,low⟩ := and_eq_true_iff.mp halves
      have wide := le_pair high low
      simp only [isHigh,and_eq_true,decide_eq_true_eq] at high
      rw [some.injEq]
      constructor
      · intro same
        omega
      · intro same
        omega
    next => rw [some.injEq]

end CodePoints

end Keiko.Library.Units
