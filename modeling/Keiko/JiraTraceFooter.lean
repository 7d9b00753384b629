import Keiko.Library.Search
import Keiko.Library.UnitText
import Mathlib.Data.List.DropRight

/-! The footer block of a requirement trace in the description of an issue. A call puts the footer in
the place of the block that an earlier call wrote, and keeps the text in front of it and behind. -/
namespace Keiko.JiraTraceFooter
open Keiko.Library Keiko.Library.Search List
open Keiko.Library.Units (trim trimEnd)
open CodeUnit (isSpace)

structure JiraTraceMarks where
  footerStart : Units
  footerEnd : Units

section Calls

variable (trace : JiraTraceMarks)

def newline : CodeUnit := unit '\n'

def carriageReturn : CodeUnit := unit '\r'

/-- `replaceAll("\r\n", "\n")`. -/
def normalized : Units → Units
  | [] => []
  | c :: text =>
    if c = carriageReturn ∧ text.head? = some newline then normalized text else c :: normalized text

def joinParagraphs (parts : List Units) : Units :=
  Units.join [newline,newline] (parts.filter fun part => decide (0 < (trim part).length))

def endMarker : Units := newline :: trace.footerEnd

def isLineEnd (after : Units) : Bool := after.head?.all (· = newline)

/-- What stands behind the first whole end line; the fuel is the length of the text. -/
def footerBlockEndFrom : (fuel : ℕ) → Units → Option Units
  | 0,_ => none
  | fuel + 1,text =>
    match indexOf (endMarker trace) text with
    | none => none
    | some place =>
      let after := text.drop (place + (endMarker trace).length)
      if isLineEnd after then some after else footerBlockEndFrom fuel after

def footerBlockEnd (text : Units) (start : ℕ) : Option Units :=
  footerBlockEndFrom trace (text.length + 1) (text.drop (start + trace.footerStart.length))

def descriptionWithFooter (footer : Units) (description : Option Units) : Units :=
  let text := normalized (description.getD [])
  match indexOf trace.footerStart text with
  | none => joinParagraphs [trimEnd text,footer]
  | some start =>
    match footerBlockEnd trace text start with
    | none => joinParagraphs [trimEnd text,footer]
    | some after => joinParagraphs [trimEnd (text.take start),footer,
        trimEnd (after.dropWhile (· = newline))]

end Calls

section Blocks

variable {trace : JiraTraceMarks} {text before body after footer : Units}

/-- A whole end line in a text, by what stands in front of it and behind. -/
structure EndLine (trace : JiraTraceMarks) (text body after : Units) : Prop where
  whole : text = body ++ endMarker trace ++ after
  ends : isLineEnd after = true

/-- The owned block of a text: from the first start marker to the first whole end line behind it. -/
structure Owned (trace : JiraTraceMarks) (text before block after : Units) : Prop where
  whole : text = before ++ block ++ after
  first : indexOf trace.footerStart text = some before.length
  lines : ∃ body, block = trace.footerStart ++ body ++ endMarker trace ∧
    EndLine trace (body ++ endMarker trace ++ after) body after ∧
    ∀ front back, EndLine trace (body ++ endMarker trace ++ after) front back → body.length ≤ front.length

/-- The start marker has no empty line and can be seen, and the end marker is a line. -/
structure JiraTraceMarks.Plain (trace : JiraTraceMarks) : Prop where
  visible : ∃ c ∈ trace.footerStart, isSpace c = false
  startLines : ¬ [newline,newline] <:+: newline :: trace.footerStart ++ [newline]
  endLine : newline ∉ trace.footerEnd
  endPlain : carriageReturn ∉ trace.footerEnd

/-- A footer starts with the start marker and ends with the end line, which is no earlier line of it. -/
structure Fits (trace : JiraTraceMarks) (footer : Units) : Prop where
  lines : ∃ body, normalized footer = trace.footerStart ++ body ++ endMarker trace
  once : ∀ body after, normalized footer = trace.footerStart ++ body ++ endMarker trace ++ after →
    isLineEnd after = true → after = []

theorem length_le_of_newline (l : newline ∉ trace.footerEnd) {front back rest : Units}
    (same : front ++ endMarker trace ++ rest = body ++ newline :: back) (behind : front.length < body.length) :
    (front ++ endMarker trace).length ≤ body.length := by
  by_contra inside
  rw [not_le] at inside
  have place := congrArg (·[body.length]?) same
  simp only [getElem?_append_right (Nat.le_refl _),Nat.sub_self,getElem?_cons_zero] at place
  rw [getElem?_append_left inside,getElem?_append_right behind.le,endMarker] at place
  obtain ⟨offset,next⟩ := Nat.exists_eq_add_of_lt behind
  have step : body.length - front.length = offset + 1 := by omega
  rw [step,getElem?_cons_succ] at place
  exact l (mem_of_getElem? place)

theorem footerBlockEndFrom_eq (l : newline ∉ trace.footerEnd) (hit : EndLine trace text body after)
    (a : ∀ front back, EndLine trace text front back → body.length ≤ front.length) {fuel : ℕ}
    (enough : text.length < fuel) : footerBlockEndFrom trace fuel text = some after := by
  induction fuel generalizing text body with
  | zero => omega
  | succ fuel ih =>
    have occurs : endMarker trace <+: text.drop body.length := by
      rw [hit.whole,append_assoc,drop_left]
      exact prefix_append _ _
    obtain ⟨place,placed⟩ : ∃ place, indexOf (endMarker trace) text = some place := by
      apply Option.isSome_iff_exists.mp
      exact includes_iff.mpr ⟨body.length,by rw [hit.whole]; simp,occurs⟩
    obtain ⟨mem,⟨rest,behind⟩,earliest⟩ := indexOf_found placed
    have split : text = text.take place ++ endMarker trace ++ rest := by
      rw [append_assoc,behind,take_append_drop]
    have sized : (text.take place).length = place := length_take_of_le mem
    have dropped : text.drop (place + (endMarker trace).length) = rest := by
      rw [← drop_drop,← behind,drop_left]
    have least : place ≤ body.length := by
      by_contra later
      exact earliest body.length (by omega) occurs
    rw [footerBlockEndFrom,placed]
    simp only [dropped]
    cases ended : isLineEnd rest with
    | true =>
      have reached := a _ _ ⟨split,ended⟩
      have same := split.symm.trans hit.whole
      rw [append_assoc,append_assoc] at same
      obtain ⟨_,tails⟩ := append_inj same (by omega)
      rw [if_pos rfl,(append_cancel_left tails)]
    | false =>
      rw [if_neg Bool.false_ne_true]
      have same := split.symm.trans hit.whole
      have before : place < body.length := by
        refine lt_of_le_of_ne least fun equal => ?_
        rw [append_assoc,append_assoc] at same
        have tails := append_cancel_left (append_inj same (by omega)).2
        rw [tails,hit.ends] at ended
        cases ended
      have apart := @length_le_of_newline trace body l (text.take place) (trace.footerEnd ++ after) rest
        (by rw [same,endMarker]; simp) (by omega)
      obtain ⟨inner,rfl⟩ : ∃ inner, body = text.take place ++ endMarker trace ++ inner := by
        rw [append_assoc] at same
        obtain ⟨inner,cut⟩ := prefix_of_prefix_length_le ⟨rest,split.symm⟩
          ⟨endMarker trace ++ after,by rw [hit.whole,append_assoc]⟩ apart
        exact ⟨inner,cut.symm⟩
      have inner_whole : rest = inner ++ endMarker trace ++ after := by
        simp only [append_assoc] at same
        rw [append_cancel_left (append_cancel_left same),append_assoc]
      apply ih ⟨inner_whole,hit.ends⟩
      · intro front back other
        have whole : text = text.take place ++ endMarker trace ++ front ++ endMarker trace ++ back := by
          conv_lhs => rw [split,other.whole]
          simp only [append_assoc]
        have outer := a _ back ⟨whole,other.ends⟩
        simp only [length_append] at outer
        omega
      · have shorter := congrArg length split
        rw [length_append,length_append,endMarker,length_cons] at shorter
        omega

theorem descriptionWithFooter_owned (plain : trace.Plain) {description : Option Units} {block : Units}
    (owned : Owned trace (normalized (description.getD [])) before block after) :
    descriptionWithFooter trace footer description = joinParagraphs [trimEnd before,footer,
      trimEnd (after.dropWhile (· = newline))] := by
  obtain ⟨body,rfl,hit,a⟩ := owned.lines
  have rest : (normalized (description.getD [])).drop (before.length + trace.footerStart.length) =
      body ++ endMarker trace ++ after := by
    rw [owned.whole,← drop_drop,append_assoc,drop_left]
    simp only [append_assoc,drop_left]
  rw [descriptionWithFooter,owned.first]
  dsimp only
  rw [footerBlockEnd,rest,footerBlockEndFrom_eq plain.endLine hit a]
  · dsimp only
    rw [owned.whole,append_assoc,take_left]
  · rw [owned.whole]
    simp only [length_append]
    omega

theorem descriptionWithFooter_absent {description : Option Units}
    (absent : indexOf trace.footerStart (normalized (description.getD [])) = none) :
    descriptionWithFooter trace footer description =
      joinParagraphs [trimEnd (normalized (description.getD [])),footer] := by
  rw [descriptionWithFooter,absent]

end Blocks

section Texts

variable {text front back : Units}

theorem trim_pos {c : CodeUnit} (mem : c ∈ text) (visible : isSpace c = false) :
    decide (0 < (trim text).length) = true := by
  apply decide_eq_true
  by_contra nothing
  have blank : trim text = [] := length_eq_zero_iff.mp (by omega)
  have spaces := rdropWhile_eq_nil_iff.mp blank
  rw [← takeWhile_append_dropWhile (l := text),mem_append] at mem
  obtain first | rest := mem
  · cases visible.symm.trans (mem_takeWhile_imp first)
  · cases visible.symm.trans (spaces c rest)

theorem length_normalized_le (text : Units) : (normalized text).length ≤ text.length := by
  induction text with
  | nil => exact le_refl 0
  | cons c text ih =>
    rw [normalized]
    split
    · exact Nat.le_succ_of_le ih
    · exact Nat.succ_le_succ ih

theorem normalized_eq_iff : normalized text = text ↔ ¬ [carriageReturn,newline] <:+: text := by
  induction text with
  | nil => simp [normalized]
  | cons c text ih =>
    rw [normalized,infix_cons_iff,not_or]
    split
    next pair =>
      obtain ⟨rfl,next⟩ := pair
      obtain ⟨rest,rfl⟩ := head?_eq_some_iff.mp next
      have shorter := length_normalized_le (newline :: rest)
      refine iff_of_false (fun same => ?_) fun absent => absent.1 ⟨rest,rfl⟩
      rw [same,length_cons,length_cons] at shorter
      omega
    next other =>
      rw [cons.injEq,ih,and_iff_right rfl,iff_and_self]
      intro _ ⟨rest,same⟩
      cases same
      exact other ⟨rfl,rfl⟩

theorem normalized_part (stable : normalized text = text) (part : front <:+: text) : normalized front = front :=
  normalized_eq_iff.mpr fun pair => normalized_eq_iff.mp stable (pair.trans part)

end Texts

section Writing

variable {trace : JiraTraceMarks} {text before block after front back footer : Units}

structure Parts (trace : JiraTraceMarks) (front back : Units) : Prop where
  frontEnd : trimEnd front = front
  backEnd : trimEnd back = back
  backStart : back.head? ≠ some newline
  frontStable : normalized front = front
  backStable : normalized back = back
  unmarked : ¬ trace.footerStart <:+: front

def lead (front : Units) : Units := if front = [] then [] else front ++ [newline,newline]

def trail (back : Units) : Units := if back = [] then [] else [newline,newline] ++ back

theorem Parts.of_absent (stable : normalized text = text) (absent : indexOf trace.footerStart text = none) :
    Parts trace (trimEnd text) [] := by
  have part := rdropWhile_prefix isSpace text
  refine ⟨rdropWhile_idempotent _ text,rfl,nofun,normalized_part stable part.isInfix,rfl,?_⟩
  intro marked
  have hit := includes_iff_infix.mpr (marked.trans part.isInfix)
  rw [includes,absent] at hit
  cases hit

theorem Parts.of_owned (plain : trace.Plain) (stable : normalized text = text)
    (owned : Owned trace text before block after) :
    Parts trace (trimEnd before) (trimEnd (after.dropWhile (· = newline))) := by
  have part := rdropWhile_prefix isSpace before
  have kept := rdropWhile_prefix isSpace (after.dropWhile (· = newline))
  refine ⟨rdropWhile_idempotent _ before,rdropWhile_idempotent _ _,?_,?_,?_,?_⟩
  · intro starts
    obtain ⟨rest,whole⟩ := kept
    have first := head?_dropWhile_not (fun c => decide (c = newline)) after
    change (trimEnd _).head? = _ at starts
    change trimEnd _ ++ rest = _ at whole
    rw [← whole,head?_append,starts] at first
    simp at first
  · exact normalized_part stable (part.isInfix.trans ⟨[],block ++ after,by rw [owned.whole]; simp⟩)
  · apply normalized_part stable (kept.isInfix.trans ((dropWhile_suffix _).isInfix.trans _))
    exact ⟨before ++ block,[],by rw [owned.whole]; simp⟩
  · intro marked
    obtain ⟨i,inside,here⟩ := includes_iff.mp <| includes_iff_infix.mpr (marked.trans part.isInfix)
    obtain ⟨c,mem,_⟩ := plain.visible
    have some_start := length_pos_of_mem mem
    have fits := here.length_le
    rw [length_drop] at fits
    apply (indexOf_found owned.first).2.2 i (by omega)
    rw [owned.whole,append_assoc,drop_append_of_le_length inside]
    exact here.trans (prefix_append _ _)

theorem shown (ends : trimEnd text = text) (some_text : text ≠ []) : decide (0 < (trim text).length) = true := by
  have last := rdropWhile_eq_self_iff.mp ends some_text
  exact trim_pos (getLast_mem some_text) (by simpa using last)

theorem mem_of_mem_normalized {c : CodeUnit} (mem : c ∈ normalized text) : c ∈ text := by
  induction text with
  | nil => exact mem
  | cons d text ih =>
    rw [normalized] at mem
    split at mem
    · exact mem_cons_of_mem d (ih mem)
    · obtain rfl | inside := mem_cons.mp mem
      · exact mem_cons_self
      · exact mem_cons_of_mem d (ih inside)

theorem Fits.visible (fits : Fits trace footer) (plain : trace.Plain) : ∃ c ∈ footer, isSpace c = false := by
  obtain ⟨body,whole⟩ := fits.lines
  obtain ⟨c,mem,seen⟩ := plain.visible
  refine ⟨c,mem_of_mem_normalized ?_,seen⟩
  rw [whole]
  exact mem_append_left _ (mem_append_left _ mem)

def Kept (trace : JiraTraceMarks) (text front back : Units) : Prop :=
  (indexOf trace.footerStart text = none ∧ front = trimEnd text ∧ back = []) ∨
    ∃ before block after, Owned trace text before block after ∧ front = trimEnd before ∧
      back = trimEnd (after.dropWhile (· = newline))

theorem Kept.parts (plain : trace.Plain) (stable : normalized text = text) (kept : Kept trace text front back) :
    Parts trace front back := by
  obtain ⟨absent,rfl,rfl⟩ | ⟨before,block,after,owned,rfl,rfl⟩ := kept
  · exact .of_absent stable absent
  · exact .of_owned plain stable owned

theorem Kept.written (plain : trace.Plain) {description : Option Units} (footer : Units)
    (kept : Kept trace (normalized (description.getD [])) front back) :
    descriptionWithFooter trace footer description = joinParagraphs [front,footer,back] := by
  obtain ⟨absent,rfl,rfl⟩ | ⟨before,block,after,owned,rfl,rfl⟩ := kept
  · rw [descriptionWithFooter_absent absent]
    simp [joinParagraphs,filter_cons]
  · exact descriptionWithFooter_owned plain owned

end Writing

end Keiko.JiraTraceFooter
