import Keiko.Library.CodeUnit
import Mathlib.Order.Lattice
import Mathlib.Order.Nat

/-! Positions and offsets of an editor's text. A line ends with a line feed, a carriage return, or both
as one, and a position that lies outside of the text is moved to the nearest place inside. -/
namespace Keiko.LineOffsets
open Keiko.Library List

section Offsets

structure LanguagePosition where
  line : ℤ
  character : ℤ
  deriving DecidableEq

def LF : CodeUnit := unit '\n'

def CR : CodeUnit := unit '\r'

def lineStartsFrom (index : ℕ) : Units → List ℕ
  | [] => []
  | code :: rest =>
    if code = LF ∨ code = CR ∧ rest.head? ≠ some LF then (index + 1) :: lineStartsFrom (index + 1) rest
    else lineStartsFrom (index + 1) rest

def computeLineStarts (text : Units) : List ℕ := 0 :: lineStartsFrom 0 text

def clamp (value low high : ℤ) : ℤ := if value < low then low else if high < value then high else value

variable (text : Units) (lineStarts : List ℕ)

def lineStart (line : ℕ) : ℕ := lineStarts[line]?.getD 0

def lineContentEnd (line : ℕ) : ℕ :=
  let start := lineStart lineStarts line
  let stop := if line + 1 < lineStarts.length then lineStarts[line + 1]?.getD text.length else text.length
  if start < stop ∧ text[stop - 1]? = some LF then
    if start < stop - 1 ∧ text[stop - 2]? = some CR then stop - 2 else stop - 1
  else if start < stop ∧ text[stop - 1]? = some CR then stop - 1
  else stop

def positionToOffset (position : LanguagePosition) : ℤ :=
  let line := (clamp position.line 0 (lineStarts.length - 1)).toNat
  let start := lineStart lineStarts line
  clamp (start + max 0 position.character) start (lineContentEnd text lineStarts line)

/-- The loop of the binary search, with a bound on its rounds. -/
def searchLine (bounded : ℤ) : (fuel low high : ℕ) → ℕ
  | 0, low, _ => low
  | fuel + 1, low, high =>
    if low < high then
      let mid := low + (high - low + 1) / 2
      if lineStart lineStarts mid ≤ bounded then searchLine bounded fuel mid high
      else searchLine bounded fuel low (mid - 1)
    else low

def offsetToPosition (offset : ℤ) : LanguagePosition :=
  let bounded := clamp offset 0 text.length
  let low := searchLine lineStarts bounded lineStarts.length 0 (lineStarts.length - 1)
  ⟨low,bounded - lineStart lineStarts low⟩

end Offsets

section Starts

variable {text : Units} {i j k : ℕ}

/-- A line ends behind this place. -/
def Breaks (text : Units) (i : ℕ) : Prop :=
  text[i]? = some LF ∨ text[i]? = some CR ∧ text[i + 1]? ≠ some LF

theorem Breaks.lt (breaks : Breaks text i) : i < text.length := by
  rcases breaks with here | ⟨here,_⟩
  · exact (List.getElem?_eq_some_iff.mp here).1
  · exact (List.getElem?_eq_some_iff.mp here).1

theorem mem_lineStartsFrom : j ∈ lineStartsFrom k text ↔ ∃ i, j = k + i + 1 ∧ Breaks text i := by
  induction text generalizing k with
  | nil => simp [lineStartsFrom,Breaks]
  | cons code rest ih =>
    have split : (∃ i, j = k + i + 1 ∧ Breaks (code :: rest) i) ↔
        j = k + 1 ∧ Breaks (code :: rest) 0 ∨ ∃ i, j = k + 1 + i + 1 ∧ Breaks rest i := by
      constructor
      · rintro ⟨_ | i,rfl,breaks⟩
        · exact .inl ⟨rfl,breaks⟩
        · exact .inr ⟨i,by omega,breaks⟩
      · rintro (⟨rfl,breaks⟩ | ⟨i,rfl,breaks⟩)
        · exact ⟨0,rfl,breaks⟩
        · exact ⟨i + 1,by omega,breaks⟩
    have first : Breaks (code :: rest) 0 ↔ code = LF ∨ code = CR ∧ rest.head? ≠ some LF := by
      simp [Breaks,head?_eq_getElem?]
    rw [split,first,← ih,lineStartsFrom]
    split
    next ends => simp [ends]
    next inside => simp [inside]

theorem pairwise_lineStartsFrom (text : Units) (k : ℕ) : (k :: lineStartsFrom k text).Pairwise (· < ·) := by
  induction text generalizing k with
  | nil => exact pairwise_singleton _ _
  | cons code rest ih =>
    obtain ⟨later,sorted⟩ := pairwise_cons.mp (ih (k + 1))
    rw [lineStartsFrom]
    split
    · refine pairwise_cons.mpr ⟨fun start mem => ?_,ih (k + 1)⟩
      rcases mem_cons.mp mem with rfl | mem
      · exact Nat.lt_succ_self k
      · exact (Nat.lt_succ_self k).trans (later start mem)
    · exact pairwise_cons.mpr ⟨fun start mem => (Nat.lt_succ_self k).trans (later start mem),sorted⟩

theorem mem_computeLineStarts : j ∈ computeLineStarts text ↔ j = 0 ∨ ∃ i, j = i + 1 ∧ Breaks text i := by
  simp [computeLineStarts,mem_lineStartsFrom]

end Starts

section Lines

variable {text : Units} {line i : ℕ}

abbrev lineCount (text : Units) : ℕ := (computeLineStarts text).length

abbrev startOf (text : Units) (line : ℕ) : ℕ := lineStart (computeLineStarts text) line

abbrev stopOf (text : Units) (line : ℕ) : ℕ := lineContentEnd text (computeLineStarts text) line

/-- What a line of a text is: its content, and what ends it. -/
structure Line (text : Units) (start stop next : ℕ) : Prop where
  ordered : start ≤ stop
  plain : ∀ i, start ≤ i → i < stop → text[i]? ≠ some LF ∧ text[i]? ≠ some CR
  ends : stop = next ∧ next = text.length ∨ stop + 1 = next ∧ Breaks text stop ∨
    stop + 2 = next ∧ text[stop]? = some CR ∧ text[stop + 1]? = some LF

theorem Line.stop_le {start stop next : ℕ} (shape : Line text start stop next) : stop ≤ text.length := by
  rcases shape.ends with ⟨rfl,last⟩ | ⟨_,breaks⟩ | ⟨_,back,_⟩
  · exact last.le
  · exact breaks.lt.le
  · exact (List.getElem?_eq_some_iff.mp back).1.le

def nextStart (text : Units) (line : ℕ) : ℕ :=
  if line + 1 < lineCount text then (computeLineStarts text)[line + 1]?.getD text.length
  else text.length

theorem lineStart_eq (inside : line < lineCount text) :
    startOf text line = (computeLineStarts text)[line] := by
  rw [startOf,lineStart,List.getElem?_eq_getElem inside,Option.getD_some]

theorem nextStart_eq (more : line + 1 < lineCount text) : nextStart text line = startOf text (line + 1) := by
  rw [nextStart,if_pos more,lineStart_eq more,List.getElem?_eq_getElem more,Option.getD_some]

theorem lineStart_lt {other : ℕ} (less : line < other) (inside : other < lineCount text) :
    startOf text line < startOf text other := by
  rw [lineStart_eq inside,lineStart_eq (less.trans inside)]
  exact pairwise_iff_getElem.mp (pairwise_lineStartsFrom text 0) _ _ _ _ less

theorem lineStart_le_length (inside : line < lineCount text) :
    startOf text line ≤ text.length := by
  rw [lineStart_eq inside]
  rcases mem_computeLineStarts.mp (getElem_mem inside) with same | ⟨i,same,breaks⟩
  · omega
  · have bound := breaks.lt
    omega

/-- A break on a line stands at its end. -/
theorem nextStart_of_breaks (inside : line < lineCount text) (breaks : Breaks text i)
    (low : startOf text line ≤ i) (high : i < nextStart text line) :
    line + 1 < lineCount text ∧ nextStart text line = i + 1 := by
  obtain ⟨other,(bound : other < lineCount text),same⟩ :=
    mem_iff_getElem.mp (mem_computeLineStarts.mpr (.inr ⟨i,rfl,breaks⟩))
  rw [← lineStart_eq bound] at same
  have later : line < other := by
    by_contra early
    rcases Nat.lt_or_eq_of_le (Nat.not_lt.mp early) with less | rfl
    · have := lineStart_lt less inside
      omega
    · omega
  have more : line + 1 < lineCount text := by omega
  refine ⟨more,?_⟩
  rw [nextStart_eq more] at high ⊢
  rcases Nat.lt_or_eq_of_le (show line + 1 ≤ other from later) with less | rfl
  · have := lineStart_lt less bound
    omega
  · exact same

theorem nextStart_breaks (inside : line < lineCount text) :
    nextStart text line = text.length ∧ line + 1 = lineCount text ∨
      ∃ i, nextStart text line = i + 1 ∧ Breaks text i ∧ startOf text line ≤ i := by
  by_cases more : line + 1 < lineCount text
  · have later := @lineStart_lt text line (line + 1) (Nat.lt_succ_self _) more
    have same := nextStart_eq more
    rw [lineStart_eq more] at same later
    rcases mem_computeLineStarts.mp (getElem_mem more) with zero | ⟨i,next,breaks⟩
    · omega
    · exact .inr ⟨i,by omega,breaks,by omega⟩
  · exact .inl ⟨if_neg more,by omega⟩

theorem line_lineContentEnd (inside : line < lineCount text) :
    Line text (startOf text line) (stopOf text line) (nextStart text line) := by
  have only {i : ℕ} (breaks : Breaks text i) := @nextStart_of_breaks text line i inside breaks
  have last := nextStart_breaks inside
  have short := lineStart_le_length inside
  have unfolded : stopOf text line =
      (if startOf text line < nextStart text line ∧ text[nextStart text line - 1]? = some LF then
        if startOf text line < nextStart text line - 1 ∧
          text[nextStart text line - 2]? = some CR then nextStart text line - 2 else nextStart text line - 1
      else if startOf text line < nextStart text line ∧
        text[nextStart text line - 1]? = some CR then nextStart text line - 1 else nextStart text line) := rfl
  rw [unfolded]
  generalize startOf text line = start at only last short ⊢
  generalize nextStart text line = next at only last ⊢
  -- A break in front of the last place of the line would begin another line.
  have plain {stop : ℕ} (le : stop ≤ next)
      (feed : ∀ i, start ≤ i → i < stop → text[i]? = some LF → i + 1 ≠ next)
      (alone : ∀ i, start ≤ i → i < stop → text[i]? = some CR → i + 1 ≠ next)
      (pair : ∀ i, start ≤ i → i < stop → text[i]? = some CR → text[i + 1]? = some LF → i + 2 ≠ next) :
      ∀ i, start ≤ i → i < stop → text[i]? ≠ some LF ∧ text[i]? ≠ some CR := by
    intro i low high
    refine ⟨fun here => feed i low high here (only (.inl here) low (by omega)).2.symm,fun here => ?_⟩
    by_cases followed : text[i + 1]? = some LF
    · have one := alone i low high here
      exact pair i low high here followed (only (.inl followed) (by omega) (by omega)).2.symm
    · exact alone i low high here (only (.inr ⟨here,followed⟩) low (by omega)).2.symm
  split
  next here =>
    obtain ⟨some_units,here⟩ := here
    split
    next both =>
      refine ⟨by omega,plain (by omega) (by omega) (by omega) (by omega),.inr (.inr ⟨by omega,both.2,?_⟩)⟩
      rwa [show next - 2 + 1 = next - 1 by omega]
    next feed =>
      refine ⟨by omega,plain (by omega) (by omega) (by omega) ?_,.inr (.inl ⟨by omega,.inl here⟩)⟩
      intro i low high same _ behind
      exact feed ⟨by omega,by rwa [show next - 2 = i by omega]⟩
  next feed =>
    split
    next here =>
      have breaks : Breaks text (next - 1) := by
        rcases last with ⟨same,_⟩ | ⟨i,same,breaks,_⟩
        · refine .inr ⟨here.2,?_⟩
          rw [show next - 1 + 1 = text.length by omega,getElem?_eq_none (le_refl _)]
          simp
        · rwa [show next - 1 = i by omega]
      refine ⟨by omega,plain (by omega) (by omega) (by omega) ?_,.inr (.inl ⟨by omega,breaks⟩)⟩
      intro i low high _ same behind
      exact feed ⟨here.1,by rwa [show next - 1 = i + 1 by omega]⟩
    next other =>
      have le : start ≤ next := by
        rcases last with ⟨same,_⟩ | ⟨i,same,_,low⟩ <;> omega
      have no_feed (i : ℕ) (low : start ≤ i) (here : text[i]? = some LF) : i + 1 ≠ next := fun same =>
        feed ⟨by omega,by rwa [show next - 1 = i by omega]⟩
      have no_return (i : ℕ) (low : start ≤ i) (here : text[i]? = some CR) : i + 1 ≠ next := fun same =>
        other ⟨by omega,by rwa [show next - 1 = i by omega]⟩
      refine ⟨le,plain (le_refl _) (fun i low _ => no_feed i low) (fun i low _ => no_return i low)
        (fun i low _ _ behind => no_feed (i + 1) (by omega) behind),?_⟩
      rcases last with ⟨same,_⟩ | ⟨i,same,here | ⟨here,_⟩,low⟩
      · exact .inl ⟨rfl,same⟩
      · exact absurd same.symm (no_feed i low here)
      · exact absurd same.symm (no_return i low here)

end Lines

section Positions

variable {text : Units} {line : ℕ} {bounded : ℤ}

def lineOf (text : Units) (position : LanguagePosition) : ℕ :=
  (clamp position.line 0 (lineCount text - 1)).toNat

theorem lineOf_lt (text : Units) (position : LanguagePosition) : lineOf text position < lineCount text := by
  have some_line : 0 < lineCount text := Nat.succ_pos _
  unfold lineOf clamp
  split_ifs <;> omega

/-- The offset stands between the two characters of one break. -/
def InsideBreak (text : Units) (offset : ℤ) : Prop :=
  ∃ i : ℕ, offset = i + 1 ∧ text[i]? = some CR ∧ text[i + 1]? = some LF

/-- The last line that begins at the offset or in front of it. -/
def Holds (text : Units) (bounded : ℤ) (line : ℕ) : Prop :=
  startOf text line ≤ bounded ∧
    ∀ i, line < i → i < lineCount text → bounded < startOf text i

theorem searchLine_holds {fuel low high : ℕ} (enough : high ≤ low + fuel) (ordered : low ≤ high)
    (inside : high < lineCount text) (reached : startOf text low ≤ bounded)
    (past : ∀ i, high < i → i < lineCount text → bounded < startOf text i) :
    searchLine (computeLineStarts text) bounded fuel low high < lineCount text ∧
      Holds text bounded (searchLine (computeLineStarts text) bounded fuel low high) := by
  induction fuel generalizing low high with
  | zero =>
    obtain rfl : low = high := by omega
    exact ⟨inside,reached,past⟩
  | succ fuel ih =>
    rw [searchLine]
    split
    next less =>
      simp only
      split
      next here => exact ih (by omega) (by omega) inside here past
      next beyond =>
        have beyond : bounded < startOf text (low + (high - low + 1) / 2) := not_le.mp beyond
        refine ih (by omega) (by omega) (by omega) reached fun i far bound => ?_
        rcases Nat.lt_or_eq_of_le (show low + (high - low + 1) / 2 ≤ i by omega) with later | rfl
        · have := lineStart_lt later bound
          omega
        · exact beyond
    next =>
      obtain rfl : low = high := by omega
      exact ⟨inside,reached,past⟩

theorem Holds.unique {other : ℕ} (holds : Holds text bounded line) (again : Holds text bounded other)
    (inside : line < lineCount text) (within : other < lineCount text) :
    line = other := by
  rcases lt_trichotomy line other with less | same | less
  · exact absurd again.1 (not_le.mpr (holds.2 _ less within))
  · exact same
  · exact absurd holds.1 (not_le.mpr (again.2 _ less inside))

theorem stop_lt_start {other : ℕ} (less : line < other) (bound : other < lineCount text) :
    stopOf text line < startOf text other := by
  have more : line + 1 < lineCount text := by omega
  have inside : line < lineCount text := by omega
  have same := nextStart_eq more
  have first : startOf text (line + 1) ≤ startOf text other := by
    rcases Nat.lt_or_eq_of_le (show line + 1 ≤ other from less) with less | rfl
    · exact (lineStart_lt less bound).le
    · exact le_refl _
  have shape := line_lineContentEnd inside
  have past : stopOf text line < nextStart text line := by
    rcases shape.ends with ⟨whole,_⟩ | ⟨next,_⟩ | ⟨next,_⟩
    · obtain ⟨j,next,breaks,least⟩ := (nextStart_breaks inside).resolve_left (by omega)
      obtain ⟨feed,back⟩ := shape.plain j least (by omega)
      rcases breaks with here | ⟨here,_⟩
      · exact absurd here feed
      · exact absurd here back
    · omega
    · omega
  omega

/-- Every offset up to the end of a line's content is on that line. -/
theorem holds_of_le (low : startOf text line ≤ bounded) (high : bounded ≤ stopOf text line) :
    Holds text bounded line := by
  refine ⟨low,fun i later bound => ?_⟩
  have past := stop_lt_start later bound
  omega

theorem Holds.le_stop (holds : Holds text bounded line) (inside : line < lineCount text)
    (high : bounded ≤ text.length) :
    bounded ≤ stopOf text line ∨ bounded = stopOf text line + 1 ∧ InsideBreak text bounded := by
  have shape := line_lineContentEnd inside
  have low := shape.ordered
  have early {i : ℕ} (breaks : Breaks text i) (least : startOf text line ≤ i) (most : i < nextStart text line) :
      bounded < nextStart text line := by
    have more := (nextStart_of_breaks inside breaks least most).1
    rw [nextStart_eq more]
    exact holds.2 (line + 1) (Nat.lt_succ_self line) more
  rcases shape.ends with ⟨whole,last⟩ | ⟨next,breaks⟩ | ⟨next,back,feed⟩
  · exact .inl (by omega)
  · have := early breaks low (by omega)
    exact .inl (by omega)
  · have := early (.inl feed) (by omega) (by omega)
    by_cases before : bounded ≤ stopOf text line
    · exact .inl before
    · have same : bounded = stopOf text line + 1 := by omega
      exact .inr ⟨same,_,same,back,feed⟩

theorem not_insideBreak (inside : line < lineCount text) (low : startOf text line ≤ bounded)
    (high : bounded ≤ stopOf text line) : ¬InsideBreak text bounded := by
  rintro ⟨i,same,back,feed⟩
  rcases Nat.lt_or_ge i (startOf text line) with before | least
  · have start : startOf text line = i + 1 := by omega
    have mem : i + 1 ∈ computeLineStarts text := by
      rw [← start,lineStart_eq inside]
      exact getElem_mem inside
    obtain ⟨j,next,breaks⟩ := (mem_computeLineStarts.mp mem).resolve_left (Nat.succ_ne_zero i)
    obtain rfl : i = j := by omega
    rcases breaks with here | ⟨_,alone⟩
    · exact absurd (Option.some.inj (back.symm.trans here)) (by decide)
    · exact alone feed
  · exact ((line_lineContentEnd inside).plain i least (by omega)).2 back

theorem clamp_bounds {value low high : ℤ} (ordered : low ≤ high) :
    low ≤ clamp value low high ∧ clamp value low high ≤ high := by
  unfold clamp
  split_ifs <;> omega

theorem clamp_of_le {value low high : ℤ} (least : low ≤ value) (most : value ≤ high) :
    clamp value low high = value := by
  rw [clamp,if_neg (not_lt.mpr least),if_neg (not_lt.mpr most)]

abbrev offsetOf (text : Units) (position : LanguagePosition) : ℤ :=
  positionToOffset text (computeLineStarts text) position

abbrev positionAt (text : Units) (offset : ℤ) : LanguagePosition :=
  offsetToPosition text (computeLineStarts text) offset

theorem positionAt_eq (text : Units) (offset : ℤ) : ∃ line, line < lineCount text ∧
    Holds text (clamp offset 0 text.length) line ∧ positionAt text offset =
      ⟨line,clamp offset 0 text.length - startOf text line⟩ := by
  have first : startOf text 0 ≤ clamp offset 0 text.length := (clamp_bounds (Int.natCast_nonneg _)).1
  obtain ⟨within,holds⟩ := @searchLine_holds text (clamp offset 0 text.length) (lineCount text) 0
    (lineCount text - 1) (by omega) (Nat.zero_le _) (Nat.sub_lt (Nat.succ_pos _) Nat.one_pos) first (by omega)
  exact ⟨_,within,holds,rfl⟩

theorem offsetOf_eq (text : Units) (position : LanguagePosition) : offsetOf text position =
    startOf text (lineOf text position) +
      clamp position.character 0 (stopOf text (lineOf text position) - startOf text (lineOf text position)) := by
  have ordered := (line_lineContentEnd (lineOf_lt text position)).ordered
  change clamp (startOf text (lineOf text position) + max 0 position.character)
    (startOf text (lineOf text position)) (stopOf text (lineOf text position)) = _
  unfold clamp
  split_ifs <;> omega

theorem offsetOf_bounds (text : Units) (position : LanguagePosition) :
    0 ≤ offsetOf text position ∧ startOf text (lineOf text position) ≤ offsetOf text position ∧
      offsetOf text position ≤ stopOf text (lineOf text position) := by
  have ordered := (line_lineContentEnd (lineOf_lt text position)).ordered
  have bounds := @clamp_bounds position.character 0
    (stopOf text (lineOf text position) - startOf text (lineOf text position)) (by omega)
  rw [offsetOf_eq]
  omega

/-- Going to a position and back moves an offset only out of the middle of a break, and going to an offset
and back moves a position only into the text. Places in their order have offsets in their order. -/
theorem positions_round_trip (text : Units) :
    (∀ offset, (¬InsideBreak text (clamp offset 0 text.length) →
        offsetOf text (positionAt text offset) = clamp offset 0 text.length) ∧
      (InsideBreak text (clamp offset 0 text.length) →
        offsetOf text (positionAt text offset) = clamp offset 0 text.length - 1)) ∧
    (∀ position, let offset := offsetOf text position
      0 ≤ offset ∧ offset ≤ text.length ∧ ¬InsideBreak text offset ∧
        positionAt text offset = ⟨lineOf text position,
          clamp position.character 0 (stopOf text (lineOf text position) - startOf text (lineOf text position))⟩) ∧
    ∀ one two, (lineOf text one < lineOf text two ∨
        lineOf text one = lineOf text two ∧ one.character ≤ two.character) →
      offsetOf text one ≤ offsetOf text two := by
  refine ⟨fun offset => ?_,fun position => ?_,fun one two later => ?_⟩
  · obtain ⟨line,inside,holds,same⟩ := positionAt_eq text offset
    have most := (@clamp_bounds offset 0 text.length (Int.natCast_nonneg _)).2
    have reached := holds.1
    have ordered := (line_lineContentEnd inside).ordered
    have back : lineOf text ⟨line,clamp offset 0 text.length - startOf text line⟩ = line := by
      rw [lineOf,clamp_of_le (Int.natCast_nonneg line) (Int.le_sub_one_of_lt (Int.ofNat_lt.mpr inside)),
        Int.toNat_natCast]
    rw [same,offsetOf_eq,back]
    refine ⟨fun between => ?_,fun within => ?_⟩
    · have before := (holds.le_stop inside most).resolve_right fun behind => between behind.2
      rw [clamp_of_le (Int.sub_nonneg_of_le reached) (Int.sub_le_sub_right before _),Int.add_comm,
        Int.sub_add_cancel]
    · have behind := (holds.le_stop inside most).resolve_left fun before =>
        not_insideBreak inside reached before within
      rw [behind.1]
      simp [clamp]
      omega
  · have inside := lineOf_lt text position
    obtain ⟨least,low,high⟩ := offsetOf_bounds text position
    have whole := high.trans (Int.ofNat_le.mpr (line_lineContentEnd inside).stop_le)
    obtain ⟨other,within,again,same⟩ := positionAt_eq text (offsetOf text position)
    rw [clamp_of_le least whole] at again same
    refine ⟨least,whole,not_insideBreak inside low high,?_⟩
    rw [same,again.unique (holds_of_le low high) within inside,offsetOf_eq,Int.add_comm,Int.add_sub_cancel]
  · rcases later with less | ⟨same,le⟩
    · have past := stop_lt_start less (lineOf_lt text two)
      have high := (offsetOf_bounds text one).2.2
      have low := (offsetOf_bounds text two).2.1
      omega
    · have ordered := (line_lineContentEnd (lineOf_lt text two)).ordered
      rw [offsetOf_eq,offsetOf_eq,same]
      unfold clamp
      split_ifs <;> omega

end Positions

end Keiko.LineOffsets
