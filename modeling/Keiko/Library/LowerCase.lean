import Keiko.Library.UnitText

/-! Lower case of a JavaScript string, independent of the locale. The tables of the Unicode standard
are a parameter; the one rule that looks at the text around a letter is that of the final sigma. -/
namespace Keiko.Library.Units
open List Bool

structure CaseTables where
  isCased : ℕ → Bool
  isCaseIgnorable : ℕ → Bool
  /-- The lower case of a code point by itself. -/
  lowercase : ℕ → List ℕ

namespace CaseTables
variable (tables : CaseTables)

/-- A cased letter stands in front of the list, behind nothing but letters that case ignores. -/
def meetsCased : List ℕ → Bool
  | [] => false
  | point :: points =>
    tables.isCased point || (tables.isCaseIgnorable point && meetsCased points)

/-- The lower case of a code point behind and before others; those behind which it stands come
nearest first. -/
def lowerPoint (before : List ℕ) (point : ℕ) (behind : List ℕ) : List ℕ :=
  if point = 0x3a3 && tables.meetsCased before && !tables.meetsCased behind then [0x3c2]
  else tables.lowercase point

def lowerFrom : (before points : List ℕ) → List ℕ
  | _, [] => []
  | before, point :: points =>
    tables.lowerPoint before point points ++ lowerFrom (point :: before) points

/-- `toLowerCase`. -/
def toLowerCase (text : Units) : Units :=
  (tables.lowerFrom [] (codePoints text)).flatMap ofCodePoint

section Contexts
variable {tables} {point : ℕ} {points others : List ℕ}

theorem meetsCased_append (points : List ℕ) (closed : tables.meetsCased others = false) :
    tables.meetsCased (points ++ others) = tables.meetsCased points := by
  induction points with
  | nil => exact closed
  | cons point points ih => rw [cons_append,meetsCased,meetsCased,ih]

theorem lowerFrom_append (pre points : List ℕ) (closed : tables.meetsCased others = false) :
    tables.lowerFrom pre (points ++ others) =
      tables.lowerFrom pre points ++ tables.lowerFrom (points.reverse ++ pre) others := by
  induction points generalizing pre with
  | nil => rfl
  | cons point points ih =>
    rw [cons_append,lowerFrom,lowerFrom,ih,lowerPoint,lowerPoint,meetsCased_append points closed,
      append_assoc,reverse_cons,append_assoc,singleton_append]

theorem lowerFrom_before (front points : List ℕ) (closed : tables.meetsCased others = false) :
    tables.lowerFrom (front ++ others) points = tables.lowerFrom front points := by
  induction points generalizing front with
  | nil => rfl
  | cons point points ih =>
    rw [lowerFrom,lowerFrom,lowerPoint,lowerPoint,meetsCased_append front closed,← cons_append,ih]

/-- A point that has no case and is its own lower case. -/
structure Caseless (tables : CaseTables) (point : ℕ) : Prop where
  uncased : tables.isCased point = false
  lowercase : tables.lowercase point = [point]
  plain : point ≠ 0x3a3

theorem Caseless.lowerPoint (caseless : Caseless tables point) (pre behind : List ℕ) :
    tables.lowerPoint pre point behind = [point] := by
  have other : (point = 0x3a3) = False := eq_false caseless.plain
  rw [CaseTables.lowerPoint,caseless.lowercase]
  simp only [other,decide_false,Bool.false_and,Bool.false_eq_true,if_false]

theorem Caseless.meetsCased_singleton (caseless : Caseless tables point) : tables.meetsCased [point] = false := by
  rw [meetsCased,meetsCased,caseless.uncased,Bool.and_false,Bool.or_false]

theorem Caseless.lowerFrom_cons (caseless : Caseless tables point) (points : List ℕ) :
    tables.lowerFrom [] (point :: points) = point :: tables.lowerFrom [] points := by
  have back := lowerFrom_before [] points caseless.meetsCased_singleton
  rw [lowerFrom,caseless.lowerPoint]
  exact congrArg (point :: ·) back

theorem Caseless.lowerFrom_concat (caseless : Caseless tables point) (points : List ℕ) :
    tables.lowerFrom [] (points ++ [point]) = tables.lowerFrom [] points ++ [point] := by
  rw [lowerFrom_append [] points caseless.meetsCased_singleton,lowerFrom,caseless.lowerPoint]
  rfl

theorem Caseless.lowerFrom_divide (caseless : Caseless tables point)
    (heeded : tables.isCaseIgnorable point = false) (points others : List ℕ) :
    tables.lowerFrom [] (points ++ point :: others) =
      tables.lowerFrom [] points ++ point :: tables.lowerFrom [] others := by
  have closed : ∀ rest, tables.meetsCased (point :: rest) = false := by
    intro rest
    rw [meetsCased,caseless.uncased,heeded,Bool.false_and,Bool.or_false]
  have back := lowerFrom_before [] others (closed (points.reverse ++ []))
  rw [lowerFrom_append [] points (closed others),lowerFrom,caseless.lowerPoint]
  exact congrArg (tables.lowerFrom [] points ++ point :: ·) back

end Contexts

section Widths
variable {tables} {text rest : Units} {c : CodeUnit}

def width (tables : CaseTables) (point : ℕ) : ℕ := ((tables.lowercase point).flatMap ofCodePoint).length

/-- How long letters are in lower case: every one has some unit, half of a pair alone is one, a
letter outside the basic plane stays outside, and either small sigma is one unit. -/
structure Widths (tables : CaseTables) : Prop where
  filled : ∀ point, 0 < tables.width point
  half : ∀ point, 0xdc00 ≤ point → point < 0xe000 → tables.width point = 1
  astral : ∀ point, 0x10000 ≤ point → 2 ≤ tables.width point
  sigma : tables.width 0x3a3 = 1

theorem Widths.lowerFrom (widths : Widths tables) (pre points : List ℕ) :
    ((tables.lowerFrom pre points).flatMap ofCodePoint).length = (points.map tables.width).sum := by
  induction points generalizing pre with
  | nil => rfl
  | cons point points ih =>
    rw [CaseTables.lowerFrom,flatMap_append,length_append,ih,map_cons,sum_cons]
    congr 1
    rw [lowerPoint]
    split
    next special =>
      simp only [and_eq_true,decide_eq_true_eq] at special
      rw [special.1.1,widths.sigma]
      rfl
    next => rfl

theorem Widths.length_toLowerCase (widths : Widths tables) (text : Units) :
    (tables.toLowerCase text).length = ((codePoints text).map tables.width).sum :=
  widths.lowerFrom [] (codePoints text)

theorem Widths.length_cons (widths : Widths tables) (c : CodeUnit) (text : Units) :
    (tables.toLowerCase text).length < (tables.toLowerCase (c :: text)).length := by
  rw [widths.length_toLowerCase,widths.length_toLowerCase]
  cases text with
  | nil => exact Nat.add_pos_left (widths.filled c.toNat) _
  | cons d text =>
    rw [codePoints]
    split
    next both =>
      obtain ⟨high,low⟩ := and_eq_true_iff.mp both
      have wide := widths.astral _ (le_pair high low)
      have range := low
      simp only [isLow,and_eq_true,decide_eq_true_eq] at range
      have half := widths.half d.toNat range.1 range.2
      have plain : isHigh d = false := by
        simp only [isHigh,and_eq_false_iff,decide_eq_false_iff_not]
        omega
      rw [codePoints_plain plain,map_cons,map_cons,sum_cons,sum_cons,half]
      omega
    next =>
      have filled := widths.filled c.toNat
      rw [map_cons,sum_cons]
      omega

theorem Widths.length_append (widths : Widths tables) {front : Units} (filled : front ≠ [])
    (text : Units) : (tables.toLowerCase text).length < (tables.toLowerCase (front ++ text)).length := by
  induction front with
  | nil => exact absurd rfl filled
  | cons c front ih =>
    have longer := widths.length_cons c (front ++ text)
    by_cases empty : front = []
    · rw [empty] at longer ⊢
      exact longer
    · exact lt_trans (ih empty) longer

theorem Widths.suffix_eq (widths : Widths tables) {whole : Units} (a : text <:+ whole)
    (b : rest <:+ whole) (same : tables.toLowerCase text = tables.toLowerCase rest) :
    text = rest := by
  rcases suffix_or_suffix_of_suffix a b with mem | mem
  · obtain ⟨front,rfl⟩ := mem
    by_cases empty : front = []
    · rw [empty,nil_append]
    · have longer := widths.length_append empty text
      rw [same] at longer
      exact absurd longer (lt_irrefl _)
  · obtain ⟨front,rfl⟩ := mem
    by_cases empty : front = []
    · rw [empty,nil_append]
    · have longer := widths.length_append empty rest
      rw [same] at longer
      exact absurd longer (lt_irrefl _)

end Widths

section Dividing
variable {tables} {c : CodeUnit}

/-- A unit that divides texts whose lower case is taken: it has none and no letter has it in its
lower case. -/
structure Divides (tables : CaseTables) (c : CodeUnit) : Prop where
  caseless : tables.Caseless c.toNat
  heeded : tables.isCaseIgnorable c.toNat = false
  alone : ∀ point < 0x110000, c ∈ (tables.lowercase point).flatMap ofCodePoint → point = c.toNat
  basic : c.toNat < 0xd800

theorem Divides.toLowerCase (divides : Divides tables c) (text rest : Units) :
    tables.toLowerCase (text ++ c :: rest) = tables.toLowerCase text ++ c :: tables.toLowerCase rest := by
  have basic := divides.basic
  have plain : ∀ d ∈ (c :: rest).head?, isLow d = false := by
    intro d first
    obtain rfl := Option.some.inj first
    simp only [isLow,and_eq_false_iff,decide_eq_false_iff_not]
    omega
  have alone : isHigh c = false := by
    simp only [isHigh,and_eq_false_iff,decide_eq_false_iff_not]
    omega
  rw [CaseTables.toLowerCase,codePoints_append text plain,codePoints_plain alone,
    divides.caseless.lowerFrom_divide divides.heeded,flatMap_append,flatMap_cons,
    ofCodePoint_toNat]
  rfl

theorem mem_of_mem_toLowerCase {text : Units} (mem : c ∈ tables.toLowerCase text)
    (alone : ∀ point < 0x110000, c ∈ (tables.lowercase point).flatMap ofCodePoint → point = c.toNat)
    (sigma : c.toNat ≠ 0x3c2) : c ∈ text := by
  have hit : ∀ points pre, (∀ point ∈ points, point < 0x110000) →
      c ∈ (tables.lowerFrom pre points).flatMap ofCodePoint → c.toNat ∈ points := by
    intro points
    induction points with
    | nil =>
      intro pre _ inside
      cases inside
    | cons point points ih =>
      intro pre valid inside
      rw [lowerFrom,flatMap_append,mem_append] at inside
      rcases inside with here | post
      · rw [lowerPoint] at here
        split at here
        next =>
          have final : c = 0x3c2 := by simpa [ofCodePoint] using here
          rw [final] at sigma
          exact absurd rfl sigma
        next => exact alone point (valid point mem_cons_self) here ▸ mem_cons_self
      · have rest : ∀ other ∈ points, other < 0x110000 :=
          fun other inside => valid other (mem_cons_of_mem _ inside)
        exact mem_cons_of_mem _ (ih (point :: pre) rest post)
  have basic := c.toNat_lt
  have valid : ∀ point ∈ codePoints text, point < 0x110000 := fun _ => codePoints_lt
  have unit := mem_of_mem_codePoints (hit (codePoints text) [] valid mem) (by omega)
  rwa [UInt16.ofNat_toNat] at unit

theorem Divides.mem (divides : Divides tables c) {text : Units} (member : c ∈ tables.toLowerCase text)
    (sigma : c.toNat ≠ 0x3c2) : c ∈ text :=
  mem_of_mem_toLowerCase member divides.alone sigma

theorem Divides.toLowerCase_eq (divides : Divides tables c) (sigma : c.toNat ≠ 0x3c2)
    {text a b : Units} (same : tables.toLowerCase text = a ++ c :: b) :
    ∃ front back, text = front ++ c :: back ∧ tables.toLowerCase front = a ∧ tables.toLowerCase back = b := by
  induction length : text.length using Nat.strongRecOn generalizing text a with
  | ind length ih =>
    have member : c ∈ text := by
      refine divides.mem ?_ sigma
      rw [same]
      exact mem_append_right _ mem_cons_self
    obtain ⟨front,back,rfl,absent⟩ := eq_append_cons_of_mem member
    rw [divides.toLowerCase] at same
    rw [length_append,length_cons] at length
    rcases append_eq_append_iff.mp same with ⟨between,rest,tail⟩ | ⟨between,rest,tail⟩
    · cases between with
      | nil =>
        rw [append_nil] at rest
        exact ⟨front,back,rfl,rest.symm,(cons.inj tail).2⟩
      | cons d between =>
        obtain ⟨here,tail⟩ := cons.inj tail
        obtain ⟨middle,last,divided,lowered,behind⟩ := ih back.length (by omega) tail rfl
        refine ⟨front ++ c :: middle,last,?_,?_,behind⟩
        · rw [divided,append_assoc,cons_append]
        · rw [divides.toLowerCase,lowered,rest,← here]
    · cases between with
      | nil =>
        rw [append_nil] at rest
        exact ⟨front,back,rfl,rest,(cons.inj tail).2.symm⟩
      | cons d between =>
        obtain ⟨here,_⟩ := cons.inj tail
        have inside : c ∈ tables.toLowerCase front := by
          rw [rest,here]
          exact mem_append_right _ mem_cons_self
        exact absurd (divides.mem inside sigma) absent

end Dividing

theorem eq_of_mem_ofCodePoint {point : ℕ} {c : CodeUnit} (valid : point < 0x110000) (small : c.toNat < 0x80)
    (mem : c ∈ ofCodePoint point) : point = c.toNat := by
  unfold ofCodePoint at mem
  split at mem
  next basic =>
    rw [mem_singleton.mp mem,UInt16.toNat_ofNat_of_lt' basic]
  next =>
    exfalso
    rcases mem_cons.mp mem with here | post
    · rw [here,UInt16.toNat_ofNat_of_lt' (by simp only [UInt16.size]; omega)] at small
      omega
    · rw [mem_singleton.mp post,UInt16.toNat_ofNat_of_lt' (by simp only [UInt16.size]; omega)] at small
      omega

end CaseTables

end Keiko.Library.Units
