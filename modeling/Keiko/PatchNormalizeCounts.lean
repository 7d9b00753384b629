import Keiko.Library.JsonRoundTrip
import Keiko.PatchNormalize
import Keiko.PatchRender
import Mathlib.Data.List.Forall2

/-! The repaired text of a diff: its headers count the body lines behind them, and repairing it once
more changes nothing. The lines keep the marks by which the end of a hunk is found, so that a second
pass finds the same hunks. -/
namespace Keiko.Patch
open Keiko.Library Keiko.UnifiedDiff List Option

section Ends

/-- Lines that the search for the end of a hunk does not tell apart. -/
structure Alike (line other : Text) : Prop where
  header : startsWith "@@".toList line = startsWith "@@".toList other
  oldFile : startsWith "--- ".toList line = startsWith "--- ".toList other
  newFile : startsWith "+++ ".toList line = startsWith "+++ ".toList other

theorem Alike.refl (line : Text) : Alike line line := ⟨rfl,rfl,rfl⟩

theorem hunkEnd_append (lines : List Text) : (hunkEnd lines).1 ++ (hunkEnd lines).2 = lines := by
  induction lines with
  | nil => rfl
  | cons line rest ih =>
    unfold hunkEnd
    split
    · rfl
    · exact congrArg (line :: ·) ih

variable {lines others rest : List Text} {line : Text}

theorem Alike.fileHeaderPair {other : Text} (alike : Alike line other)
    (post : List.Forall₂ Alike rest others) :
    isFileHeaderPair line rest = isFileHeaderPair other others := by
  rw [isFileHeaderPair,isFileHeaderPair,alike.oldFile]
  cases post with
  | nil => rfl
  | cons next _ =>
    dsimp only [head?_cons,map_some,getD_some]
    rw [next.newFile]

theorem hunkEnd_alike (alike : List.Forall₂ Alike lines others) :
    (hunkEnd lines).1.length = (hunkEnd others).1.length := by
  induction alike with
  | nil => rfl
  | cons a post ih =>
    unfold hunkEnd
    rw [a.header,a.fileHeaderPair post]
    split
    · rfl
    · exact congrArg (· + 1) ih

theorem hunkEnd_of_alike {body : List Text} (alike : List.Forall₂ Alike lines (body ++ rest))
    (size : body.length = (hunkEnd lines).1.length) : hunkEnd (body ++ rest) = (body,rest) := by
  have whole := hunkEnd_append (body ++ rest)
  rw [hunkEnd_alike alike] at size
  obtain ⟨a,b⟩ := append_inj whole size.symm
  exact Prod.ext a b

theorem hunkEnd_plain (mem : line ∈ (hunkEnd lines).1) :
    startsWith "@@".toList line = false := by
  induction lines with
  | nil => cases mem
  | cons a rest ih =>
    unfold hunkEnd at mem
    split at mem
    · cases mem
    next plain =>
      rcases mem_cons.mp mem with rfl | post
      · rw [Bool.or_eq_true,not_or,Bool.not_eq_true] at plain
        exact plain.1
      · exact ih post

end Ends

section Blanks

theorem any_normalizeBlank (seen : Bool) (lines : List Text) :
    (normalizeBlankContextLines seen lines).any isHunkBodyLine = lines.any isHunkBodyLine := by
  induction lines generalizing seen with
  | nil => rfl
  | cons line rest ih =>
    rw [normalizeBlankContextLines,any_cons,any_cons,ih]
    split
    next blank => rw [blank.2.2,Bool.or_true,Bool.or_true]
    · rfl

theorem normalizeBlank_idem (seen : Bool) (lines : List Text) :
    normalizeBlankContextLines seen (normalizeBlankContextLines seen lines) =
      normalizeBlankContextLines seen lines := by
  induction lines generalizing seen with
  | nil => rfl
  | cons line rest ih =>
    rw [normalizeBlankContextLines]
    by_cases blank : line = [] ∧ seen ∧ rest.any isHunkBodyLine
    · obtain ⟨_,pre,_⟩ := id blank
      rw [if_pos blank,normalizeBlankContextLines,if_neg (by simp),pre,Bool.true_or,Bool.true_or,ih]
    · rw [if_neg blank,normalizeBlankContextLines,any_normalizeBlank,if_neg blank,ih]

theorem alike_normalizeBlank (seen : Bool) (lines : List Text) :
    List.Forall₂ Alike lines (normalizeBlankContextLines seen lines) := by
  induction lines generalizing seen with
  | nil => exact .nil
  | cons line rest ih =>
    rw [normalizeBlankContextLines]
    refine .cons ?_ (ih _)
    split
    next blank =>
      rw [blank.1]
      exact ⟨by decide,by decide,by decide⟩
    · exact Alike.refl line

end Blanks

section Starts

variable {start : Number}

theorem held_readStart (ds : Text) : Json.HeldNumber (readStart ds) := Json.heldNumber_round _

theorem held_literal (n : ℕ) (small : n < 2 ^ 53) : Json.HeldNumber (OfNat.ofNat n) := by
  intro x same
  have exact : Binary64.Exact ((n : ℤ) : ℚ) := Binary64.exact_intCast (by
    rw [abs_of_nonneg (Int.natCast_nonneg n)]
    exact_mod_cast small)
  rw [← Number.finite.inj same]
  exact_mod_cast exact

theorem parseStarts_held {line : Text} {starts : HunkStarts} (hit : parseStarts line = some starts) :
    Json.HeldNumber starts.oldStart ∧ Json.HeldNumber starts.newStart := by
  unfold parseStarts at hit
  split at hit
  · cases hit
    exact ⟨held_readStart _,held_readStart _⟩
  · split at hit
    · cases hit
      exact ⟨held_literal 0 (by decide),held_literal 1 (by decide)⟩
    · cases hit

def ending : List Char := [' ',',','\n']

theorem not_ending {c : Char} (n : Decimal.isNumberChar c = true) : c ∉ ending := by
  intro mem
  have none_number : Decimal.isNumberChar c = false :=
    Text.of_all (fun c => Decimal.isNumberChar c = false) (by decide) mem
  rw [none_number] at n
  cases n

theorem startText_finite (x : ℚ) : startText (.finite x) = Decimal.numberText x := rfl

theorem startText_plain (held : Json.HeldNumber start) : ∀ c ∈ startText start, c ∉ ending := by
  intro c mem
  cases start with
  | finite x => exact not_ending ((Decimal.numberText_shape (held x rfl)).1 c mem)
  | infinity => exact Text.of_all (· ∉ ending) (by decide) mem
  | negInfinity => exact Text.of_all (· ∉ ending) (by decide) mem
  | nan => exact Text.of_all (· ∉ ending) (by decide) mem

theorem startText_ne_nil (held : Json.HeldNumber start) : startText start ≠ [] := by
  cases start with
  | finite x =>
    obtain ⟨c,rest,split,_⟩ := (Decimal.numberText_shape (held x rfl)).2
    rw [startText_finite,split]
    exact cons_ne_nil c rest
  | _ => decide

theorem readStart_numberText {x : ℚ} (exact : Binary64.Exact x)
    (ds : ∀ c ∈ Decimal.numberText x, Text.isDigit c = true) :
    readStart (Decimal.numberText x) = .finite x := by
  unfold Decimal.numberText at ds ⊢
  split at ds
  next zero =>
    rw [if_pos zero,zero]
    have none_read : readStart ['0'] = Binary64.round ((0 : ℕ) : ℚ) := rfl
    rw [none_read,Nat.cast_zero]
    exact Binary64.exact_zero
  next nonzero =>
    split at ds
    · exact absurd (ds '-' mem_cons_self) (by decide)
    next nonneg =>
      rw [if_neg nonzero,if_neg nonneg]
      have positive : 0 < x := lt_of_le_of_ne (not_lt.mp nonneg) (Ne.symm nonzero)
      obtain ⟨valid,round⟩ := Decimal.positiveNumeral_spec exact positive
      generalize Decimal.positiveNumeral x = numeral at ds valid round ⊢
      obtain ⟨whole,fraction,exponent⟩ := numeral
      have no_fraction : fraction = [] := by
        by_contra some_fraction
        rw [Decimal.Numeral.text,if_neg some_fraction] at ds
        exact absurd (ds '.' (by simp)) (by decide)
      have no_exponent : exponent = none := by
        cases exponent with
        | none => rfl
        | some power =>
          rw [Decimal.Numeral.text] at ds
          exact absurd (ds 'e' (by simp [Decimal.exponentText])) (by decide)
      subst no_fraction no_exponent
      rw [← round]
      simp [readStart,Decimal.Numeral.text,Decimal.Numeral.value,Decimal.exponentText]

theorem readStart_startText (held : Json.HeldNumber start) (ds : ∀ c ∈ startText start, Text.isDigit c = true) :
    readStart (startText start) = start := by
  cases start with
  | finite x =>
    rw [startText_finite] at ds ⊢
    exact readStart_numberText (held x rfl) ds
  | infinity => exact absurd (ds 'I' (by decide)) (by decide)
  | negInfinity => exact absurd (ds 'I' (by decide)) (by decide)
  | nan => exact absurd (ds 'N' (by decide)) (by decide)

end Starts

section Headers

variable {oldStart newStart : Number} {header rest : Text}

def formatHeader (oldStart newStart : Number) (oldCount newCount : Nat) (rest : Text) : Text :=
  "@@ -".toList ++ formatRange oldStart oldCount ++ " +".toList ++ formatRange newStart newCount ++
    " @@".toList ++ rest

theorem normalizeHunkHeader_eq {starts : HunkStarts}
    (hit : parseStarts header = some starts) (body : List Text) :
    normalizeHunkHeader header body = formatHeader starts.oldStart starts.newStart
      (body.countP onOldSide) (body.countP onNewSide) starts.rest := by
  rw [normalizeHunkHeader,hit]
  rfl

theorem rangeAt_format {count : Nat} {start literal after : Text}
    {hit : Text × Option Text × Text} (plain : ∀ c ∈ start, c ∉ ending)
    (some_start : start ≠ []) (blank : literal.head? = some ' ')
    (read : rangeAt (start ++ ',' :: Text.numberText count ++ (literal ++ rest)) = some hit)
    (met : literalAt literal hit.2.2 = some after) :
    (∀ c ∈ start, Text.isDigit c = true) ∧
      hit = (start,some (Text.numberText count),literal ++ rest) ∧ after = rest := by
  obtain ⟨behind,rfl⟩ : ∃ behind, literal = ' ' :: behind := by
    cases literal with
    | nil => cases blank
    | cons c behind =>
      rw [head?_cons] at blank
      exact ⟨behind,by rw [some.inj blank]⟩
  have stops : ∀ c ∈ (' ' :: behind ++ rest).head?, Text.isDigit c = false := by
    intro c same
    cases same
    decide
  by_cases ds : ∀ c ∈ start, Text.isDigit c = true
  · rw [rangeAt_append ds some_start (fun _ => Text.isDigit_of_mem_numberText)
      (Text.numberText_ne_nil count) stops] at read
    have same := (some.inj read).symm
    rw [same,literalAt_append] at met
    exact ⟨ds,same,(some.inj met).symm⟩
  · exfalso
    -- the digits stop inside the start, where neither a count nor the other range follows
    have whole := takeWhile_append_dropWhile (p := Text.isDigit) (l := start)
    have read_digits : ∀ c ∈ start.takeWhile Text.isDigit, Text.isDigit c = true := fun c mem =>
      mem_takeWhile_imp mem
    have stopped := head?_dropWhile_not Text.isDigit start
    generalize start.takeWhile Text.isDigit = read_start at whole read_digits
    generalize start.dropWhile Text.isDigit = tail at whole stopped
    cases tail with
    | nil =>
      rw [append_nil] at whole
      rw [← whole] at ds
      exact ds read_digits
    | cons c tail =>
      have odd : Text.isDigit c = false := by simpa using stopped
      have kept := plain c (by rw [← whole]; simp)
      have no_blank : c ≠ ' ' := fun same => kept (by rw [same]; decide)
      have no_comma : c ≠ ',' := fun same => kept (by rw [same]; decide)
      have split : start ++ ',' :: Text.numberText count ++ (' ' :: behind ++ rest) = read_start ++
          c :: (tail ++ ',' :: Text.numberText count ++ (' ' :: behind ++ rest)) := by
        rw [← whole]
        simp
      rw [split,rangeAt] at read
      by_cases none_read : read_start = []
      · rw [none_read,nil_append,digitsAt,takeWhile_cons_of_neg (by simp [odd])] at read
        cases read
      · rw [digitsAt_append read_digits none_read (by simp [odd]),map_some] at read
        have uncounted : literalAt [','] (c :: (tail ++ ',' :: Text.numberText count ++
            (' ' :: behind ++ rest))) = none := by
          rw [literalAt,if_neg]
          simp [Ne.symm no_comma]
        dsimp only at read
        rw [uncounted] at read
        cases read
        rw [literalAt,if_neg (by simp [Ne.symm no_blank])] at met
        cases met

theorem matchHunkHeader_format (old_held : Json.HeldNumber oldStart)
    (new_held : Json.HeldNumber newStart) {oldCount newCount : Nat} {header : HunkHeaderMatch}
    (hit : matchHunkHeader (formatHeader oldStart newStart oldCount newCount rest) = some header) :
    readStart header.oldStart = oldStart ∧ readStart header.newStart = newStart ∧
      header.oldLines = some (Text.numberText oldCount) ∧
      header.newLines = some (Text.numberText newCount) ∧
      (formatHeader oldStart newStart oldCount newCount rest).drop header.width = rest := by
  have line : formatHeader oldStart newStart oldCount newCount rest = "@@ -".toList ++
      (startText oldStart ++ ',' :: Text.numberText oldCount ++ (" +".toList ++
        (startText newStart ++ ',' :: Text.numberText newCount ++ (" @@".toList ++ rest)))) := by
    simp only [formatHeader,formatRange,append_assoc,cons_append]
  rw [line] at hit ⊢
  rw [matchHunkHeader,literalAt_append] at hit
  simp only [bind_eq_bind,bind_some,bind_eq_some_iff] at hit
  obtain ⟨old,old_read,behind,middle,new,new_read,last,closed,made⟩ := hit
  obtain ⟨old_digits,rfl,rfl⟩ := rangeAt_format (startText_plain old_held)
    (startText_ne_nil old_held) (by decide) old_read middle
  obtain ⟨new_digits,rfl,rfl⟩ := rangeAt_format (startText_plain new_held)
    (startText_ne_nil new_held) (by decide) new_read closed
  cases made
  refine ⟨readStart_startText old_held old_digits,readStart_startText new_held new_digits,rfl,rfl,?_⟩
  apply (suffix_iff_eq_drop.mp ?_).symm
  refine List.IsSuffix.trans ?_ (suffix_append _ _)
  refine List.IsSuffix.trans ?_ (suffix_append _ _)
  refine List.IsSuffix.trans ?_ (suffix_append _ _)
  refine List.IsSuffix.trans ?_ (suffix_append _ _)
  exact suffix_append _ _

theorem mem_trim {t : Text} {c : Char} (mem : c ∈ t) (dark : Text.isSpace c = false) : c ∈ Text.trim t := by
  have kept {t : Text} (mem : c ∈ t) : c ∈ t.dropWhile Text.isSpace := by
    rw [← takeWhile_append_dropWhile (p := Text.isSpace) (l := t)] at mem
    rcases mem_append.mp mem with blank | behind
    · rw [mem_takeWhile_imp blank] at dark
      cases dark
    · exact behind
  rw [Text.trim,Text.trimEnd,mem_reverse]
  exact kept (mem_reverse.mpr (kept mem))

theorem trim_format (oldCount newCount : Nat) (rest : Text) :
    Text.trim (formatHeader oldStart newStart oldCount newCount rest) ≠ "@@".toList := by
  intro bare
  have minus : '-' ∈ Text.trim (formatHeader oldStart newStart oldCount newCount rest) := by
    apply mem_trim _ (by decide)
    rw [formatHeader]
    simp
  rw [bare] at minus
  revert minus
  decide

theorem parseStarts_format (old_held : Json.HeldNumber oldStart)
    (new_held : Json.HeldNumber newStart) (oldCount newCount : Nat) (rest : Text) :
    parseStarts (formatHeader oldStart newStart oldCount newCount rest) = none ∨
      parseStarts (formatHeader oldStart newStart oldCount newCount rest) = some ⟨oldStart,newStart,rest⟩ := by
  unfold parseStarts
  split
  next header hit =>
    obtain ⟨hit,_⟩ := filter_eq_some_iff.mp hit
    obtain ⟨old,new,_,_,behind⟩ := matchHunkHeader_format old_held new_held hit
    rw [old,new,behind]
    exact .inr rfl
  · rw [if_neg (trim_format oldCount newCount rest)]
    exact .inl rfl

theorem normalizeHunkHeader_idem (header : Text) (body : List Text) :
    normalizeHunkHeader (normalizeHunkHeader header body) body = normalizeHunkHeader header body := by
  cases parsed : parseStarts header with
  | none =>
    have same : normalizeHunkHeader header body = header := by rw [normalizeHunkHeader,parsed]
    rw [same,same]
  | some starts =>
    obtain ⟨old_held,new_held⟩ := parseStarts_held parsed
    rw [normalizeHunkHeader_eq parsed]
    rcases parseStarts_format old_held new_held (body.countP onOldSide) (body.countP onNewSide)
      starts.rest with unread | read
    · rw [normalizeHunkHeader,unread]
    · rw [normalizeHunkHeader_eq read]

theorem normalizeHunkHeader_counts {body : List Text} {hit : HunkHeaderMatch}
    (read : matchHeaderLine (normalizeHunkHeader header body) = some hit) :
    hit.oldLines = some (Text.numberText (body.countP onOldSide)) ∧
      hit.newLines = some (Text.numberText (body.countP onNewSide)) := by
  cases parsed : parseStarts header with
  | none =>
    rw [normalizeHunkHeader,parsed] at read
    rw [parseStarts,read] at parsed
    cases parsed
  | some starts =>
    obtain ⟨old_held,new_held⟩ := parseStarts_held parsed
    rw [normalizeHunkHeader_eq parsed] at read
    obtain ⟨read,_⟩ := filter_eq_some_iff.mp read
    obtain ⟨_,_,old,new,_⟩ := matchHunkHeader_format old_held new_held read
    exact ⟨old,new⟩

theorem normalizeHunkHeader_starts (opened : startsWith "@@".toList header = true)
    (body : List Text) : startsWith "@@".toList (normalizeHunkHeader header body) = true := by
  cases parsed : parseStarts header with
  | none =>
    rw [normalizeHunkHeader,parsed]
    exact opened
  | some starts =>
    rw [normalizeHunkHeader_eq parsed,startsWith,List.isPrefixOf_iff_prefix]
    simp [formatHeader]

end Headers

section Lines

variable {line : Text} {lines rest : List Text} {hit : HunkHeaderMatch} {header : Text} {i : ℕ}

theorem not_fileHeader_of_header (opened : startsWith "@@".toList line = true) :
    startsWith "--- ".toList line = false ∧ startsWith "+++ ".toList line = false := by
  rw [startsWith,List.isPrefixOf_iff_prefix] at opened
  obtain ⟨behind,rfl⟩ := opened
  exact ⟨rfl,rfl⟩

theorem alike_of_headers {other : Text} (opened : startsWith "@@".toList line = true)
    (other_opened : startsWith "@@".toList other = true) : Alike line other := by
  obtain ⟨old,new⟩ := not_fileHeader_of_header opened
  obtain ⟨other_old,other_new⟩ := not_fileHeader_of_header other_opened
  exact ⟨opened.trans other_opened.symm,old.trans other_old.symm,new.trans other_new.symm⟩

theorem normalizeLines_plain (plain : startsWith "@@".toList line = false) :
    normalizeLines (line :: rest) = line :: normalizeLines rest := by
  rw [normalizeLines,plain]
  rfl

def normalizedBody (rest : List Text) : List Text :=
  normalizeBlankContextLines false (hunkEnd rest).1

def repairedHeader (line : Text) (rest : List Text) : Text :=
  normalizeHunkHeader line ((normalizedBody rest).filter isHunkBodyLine)

theorem normalizeLines_header (opened : startsWith "@@".toList line = true) :
    normalizeLines (line :: rest) =
      repairedHeader line rest :: (normalizedBody rest ++ normalizeLines (hunkEnd rest).2) := by
  rw [normalizeLines,opened]
  rfl

theorem alike_behind {behind : List Text} (post : List.Forall₂ Alike (hunkEnd rest).2 behind) :
    List.Forall₂ Alike rest (normalizedBody rest ++ behind) := by
  have both : List.Forall₂ Alike ((hunkEnd rest).1 ++ (hunkEnd rest).2) (normalizedBody rest ++ behind) :=
    rel_append (alike_normalizeBlank false (hunkEnd rest).1) post
  rw [hunkEnd_append] at both
  exact both

theorem alike_normalizeLines (lines : List Text) : List.Forall₂ Alike lines (normalizeLines lines) := by
  induction size : lines.length using Nat.strongRecOn generalizing lines with
  | ind size ih =>
    cases lines with
    | nil =>
      rw [normalizeLines]
      exact .nil
    | cons line rest =>
      rw [length_cons] at size
      cases opened : startsWith "@@".toList line with
      | false =>
        rw [normalizeLines_plain opened]
        exact .cons (Alike.refl line) (ih _ (by omega) rest rfl)
      | true =>
        have shorter := hunkEnd_length rest
        rw [normalizeLines_header opened]
        exact .cons (alike_of_headers opened (normalizeHunkHeader_starts opened _))
          (alike_behind (ih _ (by omega) (hunkEnd rest).2 rfl))

theorem hunkEnd_normalized (rest : List Text) : hunkEnd (normalizedBody rest ++ normalizeLines (hunkEnd rest).2) =
      (normalizedBody rest,normalizeLines (hunkEnd rest).2) := by
  apply hunkEnd_of_alike (alike_behind (alike_normalizeLines (hunkEnd rest).2))
  exact (alike_normalizeBlank false (hunkEnd rest).1).length_eq.symm

theorem normalizeLines_idem (lines : List Text) : normalizeLines (normalizeLines lines) = normalizeLines lines := by
  induction size : lines.length using Nat.strongRecOn generalizing lines with
  | ind size ih =>
    cases lines with
    | nil => rw [normalizeLines,normalizeLines]
    | cons line rest =>
      rw [length_cons] at size
      cases opened : startsWith "@@".toList line with
      | false =>
        rw [normalizeLines_plain opened,normalizeLines_plain opened,ih _ (by omega) rest rfl]
      | true =>
        have shorter := hunkEnd_length rest
        have body : normalizedBody (normalizedBody rest ++ normalizeLines (hunkEnd rest).2) = normalizedBody rest := by
          rw [normalizedBody,hunkEnd_normalized]
          exact normalizeBlank_idem false (hunkEnd rest).1
        have again : startsWith "@@".toList (repairedHeader line rest) = true :=
          normalizeHunkHeader_starts opened _
        rw [normalizeLines_header opened,normalizeLines_header again,repairedHeader,body,
          hunkEnd_normalized,ih _ (by omega) (hunkEnd rest).2 rfl]
        congr 1
        exact normalizeHunkHeader_idem line _

theorem header_of_match (read : matchHeaderLine line = some hit) :
    startsWith "@@".toList line = true := by
  obtain ⟨read,_⟩ := filter_eq_some_iff.mp read
  rw [matchHunkHeader,bind_eq_bind,bind_eq_some_iff] at read
  obtain ⟨behind,opened,_⟩ := read
  rw [literalAt] at opened
  split at opened
  next starts =>
    rw [startsWith,List.isPrefixOf_iff_prefix]
    exact (List.take_prefix 2 "@@ -".toList).trans (List.isPrefixOf_iff_prefix.mp starts)
  · cases opened

theorem countP_body (p : Text → Bool) (within : ∀ line, p line = true → isHunkBodyLine line = true)
    (lines : List Text) : (lines.filter isHunkBodyLine).countP p = lines.countP p := by
  rw [countP_filter]
  apply countP_congr
  intro line _
  rw [Bool.and_eq_true]
  exact and_iff_left_of_imp (within line)

theorem body_of_onOldSide (side : onOldSide line = true) : isHunkBodyLine line = true := by
  rw [onOldSide,Bool.or_eq_true] at side
  rw [isHunkBodyLine,Bool.or_eq_true,Bool.or_eq_true]
  exact side.imp_left .inl

theorem body_of_onNewSide (side : onNewSide line = true) : isHunkBodyLine line = true := by
  rw [onNewSide,Bool.or_eq_true] at side
  rw [isHunkBodyLine,Bool.or_eq_true,Bool.or_eq_true]
  exact .inl side

theorem normalizeLines_counts {pre after : List Text}
    (stands : normalizeLines lines = pre ++ header :: after)
    (read : matchHeaderLine header = some hit) :
    hit.oldLines = some (Text.numberText ((hunkEnd after).1.countP onOldSide)) ∧
      hit.newLines = some (Text.numberText ((hunkEnd after).1.countP onNewSide)) := by
  have marked := header_of_match read
  induction size : lines.length using Nat.strongRecOn generalizing lines pre with
  | ind size ih =>
    cases lines with
    | nil =>
      rw [normalizeLines] at stands
      simp at stands
    | cons line rest =>
      rw [length_cons] at size
      cases opened : startsWith "@@".toList line with
      | false =>
        rw [normalizeLines_plain opened] at stands
        cases pre with
        | nil =>
          rw [(cons.inj stands).1,marked] at opened
          cases opened
        | cons first pre => exact ih _ (by omega) (cons.inj stands).2 rfl
      | true =>
        have shorter := hunkEnd_length rest
        rw [normalizeLines_header opened] at stands
        cases pre with
        | nil =>
          obtain ⟨same,behind⟩ := cons.inj stands
          rw [← same] at read
          rw [← behind,hunkEnd_normalized]
          obtain ⟨old,new⟩ := normalizeHunkHeader_counts read
          rw [countP_body _ (fun _ => body_of_onOldSide)] at old
          rw [countP_body _ (fun _ => body_of_onNewSide)] at new
          exact ⟨old,new⟩
        | cons first pre =>
          rcases append_eq_append_iff.mp (cons.inj stands).2 with
            ⟨post,_,behind⟩ | ⟨inside,body,behind⟩
          · exact ih _ (by omega) behind rfl
          · cases inside with
            | nil =>
              have again : normalizeLines (hunkEnd rest).2 = [] ++ header :: after := behind.symm
              exact ih _ (by omega) again rfl
            | cons other inside =>
              -- no line of a body looks like a header
              have mem : header ∈ (hunkEnd (normalizedBody rest ++ normalizeLines (hunkEnd rest).2)).1 := by
                rw [hunkEnd_normalized,body,(cons.inj behind).1]
                simp
              rw [hunkEnd_plain mem] at marked
              cases marked

def BlankContext (lines : List Text) (index : ℕ) : Prop :=
  ∃ before header first second rest, lines = before ++ header :: (first ++ [] :: second ++ rest) ∧
      startsWith "@@".toList header = true ∧
      hunkEnd (first ++ [] :: second ++ rest) = (first ++ [] :: second,rest) ∧
      index = before.length + 1 + first.length ∧
      first.any isHunkBodyLine = true ∧ second.any isHunkBodyLine = true

theorem BlankContext.shift (blank : BlankContext lines i) (early : List Text) :
    BlankContext (early ++ lines) (early.length + i) := by
  obtain ⟨pre,header,a,b,rest,rfl,opened,ends,rfl,above,below⟩ := blank
  refine ⟨early ++ pre,header,a,b,rest,?_,opened,ends,?_,above,below⟩
  · exact (append_assoc early pre _).symm
  · rw [length_append]
    omega

theorem normalizeBlank_getElem? (seen : Bool) (stood : lines[i]? = some line) :
    ∃ other, (normalizeBlankContextLines seen lines)[i]? = some other ∧ (other = line ∨ line = [] ∧ other = [' '] ∧
        (seen || (lines.take i).any isHunkBodyLine) = true ∧
        (lines.drop (i + 1)).any isHunkBodyLine = true) := by
  induction lines generalizing seen i with
  | nil => cases stood
  | cons a rest ih =>
    rw [normalizeBlankContextLines]
    cases i with
    | zero =>
      cases stood
      refine ⟨_,rfl,?_⟩
      split
      next blank =>
        refine .inr ⟨blank.1,rfl,?_,blank.2.2⟩
        rw [blank.2.1,Bool.true_or]
      · exact .inl rfl
    | succ i =>
      obtain ⟨other,stands,same⟩ := ih (seen || isHunkBodyLine a) stood
      refine ⟨other,stands,same.imp_right ?_⟩
      intro ⟨empty,blank,above,below⟩
      refine ⟨empty,blank,?_,below⟩
      rw [take_succ_cons,any_cons,← Bool.or_assoc]
      exact above

theorem blankContext_of_body (opened : startsWith "@@".toList line = true)
    (stood : (hunkEnd rest).1[i]? = some [])
    (above : ((hunkEnd rest).1.take i).any isHunkBodyLine = true)
    (below : ((hunkEnd rest).1.drop (i + 1)).any isHunkBodyLine = true) :
    BlankContext (line :: rest) (i + 1) := by
  obtain ⟨mem,empty⟩ := List.getElem?_eq_some_iff.mp stood
  have body : (hunkEnd rest).1.take i ++ [] :: (hunkEnd rest).1.drop (i + 1) = (hunkEnd rest).1 := by
    rw [← empty,← drop_eq_getElem_cons mem,take_append_drop]
  refine ⟨[],line,(hunkEnd rest).1.take i,(hunkEnd rest).1.drop (i + 1),(hunkEnd rest).2,
    ?_,opened,?_,?_,above,below⟩
  · rw [body,hunkEnd_append]
    rfl
  · rw [body,hunkEnd_append]
  · rw [length_take,Nat.min_eq_left mem.le,length_nil]
    omega

theorem normalizeLines_getElem? (stood : lines[i]? = some line) :
    ∃ other, (normalizeLines lines)[i]? = some other ∧
      (other = line ∨ startsWith "@@".toList line = true ∨
        line = [] ∧ other = [' '] ∧ BlankContext lines i) := by
  induction size : lines.length using Nat.strongRecOn generalizing lines i with
  | ind size ih =>
    cases lines with
    | nil => cases stood
    | cons a rest =>
      rw [length_cons] at size
      cases opened : startsWith "@@".toList a with
      | false =>
        rw [normalizeLines_plain opened]
        cases i with
        | zero => exact ⟨line,stood,.inl rfl⟩
        | succ i =>
          change rest[i]? = some line at stood
          obtain ⟨other,stands,same⟩ := ih _ (by omega) stood rfl
          refine ⟨other,stands,same.imp_right (Or.imp_right ?_)⟩
          intro ⟨empty,blank,context⟩
          refine ⟨empty,blank,?_⟩
          have shifted := context.shift [a]
          rw [length_singleton,add_comm] at shifted
          exact shifted
      | true =>
        have shorter := hunkEnd_length rest
        have whole := hunkEnd_append rest
        rw [normalizeLines_header opened]
        cases i with
        | zero =>
          cases stood
          exact ⟨_,rfl,.inr (.inl opened)⟩
        | succ i =>
          change rest[i]? = some line at stood
          have length : (normalizedBody rest).length = (hunkEnd rest).1.length :=
            (alike_normalizeBlank false (hunkEnd rest).1).length_eq.symm
          rw [getElem?_cons_succ]
          by_cases mem : i < (hunkEnd rest).1.length
          · rw [← whole,getElem?_append_left mem] at stood
            obtain ⟨other,stands,same⟩ := normalizeBlank_getElem? false stood
            refine ⟨other,?_,same.imp_right fun blank => .inr ?_⟩
            · rw [getElem?_append_left (by omega)]
              exact stands
            · obtain ⟨empty,blanked,above,below⟩ := blank
              rw [Bool.false_or] at above
              exact ⟨empty,blanked,blankContext_of_body opened (empty ▸ stood) above below⟩
          · rw [← whole,getElem?_append_right (by omega)] at stood
            obtain ⟨other,stands,same⟩ := ih _ (by omega) stood rfl
            refine ⟨other,?_,same.imp_right (Or.imp_right ?_)⟩
            · rw [getElem?_append_right (by omega),length]
              exact stands
            · intro ⟨empty,blank,context⟩
              refine ⟨empty,blank,?_⟩
              have shifted := context.shift (a :: (hunkEnd rest).1)
              rw [cons_append,whole,length_cons] at shifted
              have place : (hunkEnd rest).1.length + 1 + (i - (hunkEnd rest).1.length) = i + 1 := by omega
              rw [place] at shifted
              exact shifted

theorem normalizeHunkHeader_unbroken (unbroken : '\n' ∉ header) (body : List Text) :
    '\n' ∉ normalizeHunkHeader header body := by
  cases parsed : parseStarts header with
  | none =>
    rw [normalizeHunkHeader,parsed]
    exact unbroken
  | some starts =>
    obtain ⟨old_held,new_held⟩ := parseStarts_held parsed
    have rest : '\n' ∉ starts.rest := by
      unfold parseStarts at parsed
      split at parsed
      · cases parsed
        exact fun mem => unbroken (mem_of_mem_drop mem)
      · split at parsed
        · cases parsed
          exact not_mem_nil
        · cases parsed
    have start {start : Number} (held : Json.HeldNumber start) : '\n' ∉ startText start :=
      fun mem => startText_plain held _ mem (by decide)
    have count (n : Nat) : '\n' ∉ Text.numberText n :=
      fun mem => absurd (Text.isDigit_of_mem_numberText mem) (by decide)
    rw [normalizeHunkHeader_eq parsed,formatHeader,formatRange,formatRange]
    simp [start old_held,start new_held,count,rest]

theorem mem_normalizeBlank {seen : Bool}
    (mem : line ∈ normalizeBlankContextLines seen lines) : line ∈ lines ∨ line = [' '] := by
  induction lines generalizing seen with
  | nil => cases mem
  | cons a rest ih =>
    rw [normalizeBlankContextLines] at mem
    rcases mem_cons.mp mem with here | post
    · split at here
      · exact .inr here
      · exact .inl (mem_cons.mpr (.inl here))
    · exact (ih post).imp_left (mem_cons_of_mem a)

theorem normalizeLines_unbroken (unbroken : ∀ line ∈ lines, '\n' ∉ line) :
    ∀ line ∈ normalizeLines lines, '\n' ∉ line := by
  induction size : lines.length using Nat.strongRecOn generalizing lines with
  | ind size ih =>
    intro line mem
    cases lines with
    | nil =>
      rw [normalizeLines] at mem
      cases mem
    | cons a rest =>
      rw [length_cons] at size
      have behind : ∀ line ∈ rest, '\n' ∉ line := fun line inside =>
        unbroken line (mem_cons_of_mem a inside)
      cases opened : startsWith "@@".toList a with
      | false =>
        rw [normalizeLines_plain opened] at mem
        rcases mem_cons.mp mem with rfl | post
        · exact unbroken _ mem_cons_self
        · exact ih _ (by omega) behind rfl line post
      | true =>
        have shorter := hunkEnd_length rest
        have whole := hunkEnd_append rest
        rw [normalizeLines_header opened] at mem
        rcases mem_cons.mp mem with rfl | post
        · exact normalizeHunkHeader_unbroken (unbroken _ mem_cons_self) _
        · rcases mem_append.mp post with body | last
          · rcases mem_normalizeBlank body with stood | rfl
            · apply behind
              rw [← whole]
              exact mem_append_left _ stood
            · decide
          · refine ih _ (by omega) (fun line inside => behind line ?_) rfl line last
            rw [← whole]
            exact mem_append_right _ inside

end Lines

section Diff

theorem splitLines_normalize (diff : Text) :
    Text.splitLines (normalizeUnifiedDiffHunks diff) = normalizeLines (Text.splitLines diff) := by
  apply Text.splitLines_joinLines
  · exact normalizeLines_unbroken (Text.splitLines_unbroken diff)
  · intro empty
    have alike := alike_normalizeLines (Text.splitLines diff)
    rw [empty] at alike
    exact Text.splitLines_ne_nil diff (forall₂_nil_right_iff.mp alike)

/-- Repairing a diff twice is repairing it once; headers that are read behind the repair count their
bodies, and only headers and empty lines inside a body change. -/
theorem normalizeUnifiedDiffHunks_repairs (diff : Text) :
    normalizeUnifiedDiffHunks (normalizeUnifiedDiffHunks diff) = normalizeUnifiedDiffHunks diff ∧
      (∀ before header after found,
        Text.splitLines (normalizeUnifiedDiffHunks diff) = before ++ header :: after →
        matchHeaderLine header = some found →
          found.oldLines.map Text.decimal = some ((hunkEnd after).1.countP onOldSide) ∧
          found.newLines.map Text.decimal = some ((hunkEnd after).1.countP onNewSide)) ∧
      (Text.splitLines (normalizeUnifiedDiffHunks diff)).length = (Text.splitLines diff).length ∧
      ∀ (index : ℕ) line, (Text.splitLines diff)[index]? = some line →
        ∃ other, (Text.splitLines (normalizeUnifiedDiffHunks diff))[index]? = some other ∧
          (other = line ∨ startsWith "@@".toList line = true ∨
            line = [] ∧ other = [' '] ∧ BlankContext (Text.splitLines diff) index) := by
  rw [splitLines_normalize]
  refine ⟨?_,?_,(alike_normalizeLines _).length_eq.symm,fun _ _ => normalizeLines_getElem?⟩
  · rw [normalizeUnifiedDiffHunks,splitLines_normalize,normalizeLines_idem]
    rfl
  · intro before header after found stands read
    obtain ⟨old,new⟩ := normalizeLines_counts stands read
    rw [old,new,map_some,map_some,Text.decimal_numberText,Text.decimal_numberText]
    exact ⟨rfl,rfl⟩

def blankDiff : Text := "@@ -1,3 +1,3 @@\n a\n\n b".toList

theorem normalizeUnifiedDiffHunks_fills_blank : ¬ ∀ (diff : Text) (index : ℕ) line,
    (Text.splitLines diff)[index]? = some line → startsWith "@@".toList line = false →
      (Text.splitLines (normalizeUnifiedDiffHunks diff))[index]? = some line := by
  intro unchanged
  have blank := unchanged blankDiff 2 [] (by decide) (by decide)
  rw [splitLines_normalize] at blank
  have lines : Text.splitLines blankDiff = ["@@ -1,3 +1,3 @@".toList," a".toList,[]," b".toList] := by
    decide
  have body : normalizedBody [" a".toList,[]," b".toList] = [" a".toList,[' ']," b".toList] := by
    decide
  rw [lines,normalizeLines_header (by decide),body] at blank
  cases blank

end Diff

end Keiko.Patch
