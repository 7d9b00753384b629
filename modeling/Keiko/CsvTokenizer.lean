import Keiko.Library.UnitText
import Mathlib.Tactic.SplitIfs

/-! The tokenizer of comma separated texts. A scanner is what stands behind its cursor; a field is
quoted or bare, a quote that is never closed is a literal character, and a record ends at a line
feed, at a carriage return or at both. -/
namespace Keiko.CsvTokenizer
open Keiko.Library

section Scanner

def quoteCode : Nat := 0x22

def lf : Nat := 0x0a

def cr : Nat := 0x0d

def space : Nat := 0x20

def tab : Nat := 0x09

def isBreak (code : Option Nat) : Bool := decide (code = some lf) || decide (code = some cr)

variable (delimiter : Nat)

def isBlank (code : Option Nat) : Bool :=
  decide (code = some space) || decide (code = some tab ∧ delimiter ≠ tab)

def skipInlineSpace (delimiter : Nat) : Units → Units
  | [] => []
  | c :: rest =>
    if isBlank delimiter (Units.codePoint (c :: rest)) then skipInlineSpace delimiter rest
    else c :: rest

def isBoundary (code : Option Nat) : Bool :=
  decide (code = some delimiter) || isBreak code

def readUntilBoundary (delimiter : Nat) : Units → Units × Units
  | [] => ([],[])
  | c :: rest =>
    if isBoundary delimiter (Units.codePoint (c :: rest)) then ([],c :: rest)
    else (c :: (readUntilBoundary delimiter rest).1,(readUntilBoundary delimiter rest).2)

def splitQuote : Units → Option (Units × Units)
  | [] => none
  | c :: rest =>
    if c.toNat = quoteCode then some ([],rest)
    else (splitQuote rest).map fun parts => (c :: parts.1,parts.2)

theorem length_splitQuote {text before after : Units}
    (found : splitQuote text = some (before,after)) : after.length < text.length := by
  induction text generalizing before after with
  | nil => cases found
  | cons c rest ih =>
    rw [splitQuote] at found
    split at found
    · cases found
      exact Nat.lt_succ_self _
    · obtain ⟨parts,inside,same⟩ := Option.map_eq_some_iff.mp found
      cases same
      exact Nat.lt_succ_of_lt (ih inside)

def readParts (text : Units) : Option (Units × Units) :=
  match found : splitQuote text with
  | none => none
  | some (before,after) =>
    if Units.codePoint after = some quoteCode then
      (readParts (after.drop 1)).map fun parts => (before ++ unit '\x22' :: parts.1,parts.2)
    else some (before,after)
termination_by text.length
decreasing_by
  have shorter := length_splitQuote found
  rw [List.length_drop]
  omega

/-- A quoted field behind its opening quote, none when its closing quote does not exist. Text
between the closing quote and the delimiter is kept. -/
def readQuoted (text : Units) : Option (Units × Units) :=
  (readParts text).map fun parts =>
    let trailing := readUntilBoundary delimiter (skipInlineSpace delimiter parts.2)
    (parts.1 ++ Units.trimEnd trailing.1,trailing.2)

/-- What a step of the scanner reads: a value, what stands behind it, and how many quotes it found
that are never closed. -/
structure Reading (α : Type) where
  value : α
  rest : Units
  unterminatedQuotes : Nat

def readBare (start : Units) (unterminatedQuotes : Nat) : Reading Units :=
  ⟨Units.trim (readUntilBoundary delimiter start).1,(readUntilBoundary delimiter start).2,unterminatedQuotes⟩

def readFieldValue (start : Units) : Reading Units :=
  let first := skipInlineSpace delimiter start
  if Units.codePoint first = some quoteCode then match readQuoted delimiter (first.drop 1) with
    | some quoted => ⟨Units.trim quoted.1,quoted.2,0⟩
    | none => readBare delimiter start 1
  else readBare delimiter start 0

def consumeRecordBreak (text : Units) : Units :=
  if Units.codePoint text = some cr then text.drop (if Units.codePoint (text.drop 1) = some lf then 2 else 1)
  else if Units.codePoint text = some lf then text.drop 1
  else text

end Scanner

section Progress

variable {delimiter : Nat} {text : Units}

variable (delimiter : Nat)

theorem skipInlineSpace_suffix (text : Units) : skipInlineSpace delimiter text <:+ text := by
  induction text with
  | nil => exact List.suffix_refl []
  | cons c rest ih =>
    rw [skipInlineSpace]
    split
    · exact ih.trans (List.suffix_cons c rest)
    · exact List.suffix_refl _

theorem readUntilBoundary_append (text : Units) :
    (readUntilBoundary delimiter text).1 ++ (readUntilBoundary delimiter text).2 = text := by
  induction text with
  | nil => rfl
  | cons c rest ih =>
    rw [readUntilBoundary]
    split
    · rfl
    · rw [List.cons_append,ih]

theorem readUntilBoundary_suffix (text : Units) : (readUntilBoundary delimiter text).2 <:+ text :=
  ⟨_,readUntilBoundary_append delimiter text⟩

theorem readUntilBoundary_stops (text : Units) : (readUntilBoundary delimiter text).2 = [] ∨
      isBoundary delimiter (Units.codePoint (readUntilBoundary delimiter text).2) = true := by
  induction text with
  | nil => exact Or.inl rfl
  | cons c rest ih =>
    rw [readUntilBoundary]
    split
    next stop => exact Or.inr stop
    next => exact ih

theorem splitQuote_suffix {before after : Units} (found : splitQuote text = some (before,after)) : after <:+ text := by
  induction text generalizing before after with
  | nil => cases found
  | cons c rest ih =>
    rw [splitQuote] at found
    split at found
    · cases found
      exact List.suffix_cons c rest
    · obtain ⟨parts,inside,same⟩ := Option.map_eq_some_iff.mp found
      cases same
      exact (ih inside).trans (List.suffix_cons c rest)

theorem readParts_suffix {parts : Units × Units} (found : readParts text = some parts) : parts.2 <:+ text := by
  induction text using readParts.induct generalizing parts with
  | case1 text none_left =>
    rw [readParts] at found
    split at found
    · cases found
    next before after split_here =>
      rw [none_left] at split_here
      cases split_here
  | case2 text before after here doubled ih =>
    rw [readParts] at found
    split at found
    · cases found
    next first second split_here =>
      rw [here] at split_here
      cases split_here
      rw [if_pos doubled] at found
      obtain ⟨more,later,same⟩ := Option.map_eq_some_iff.mp found
      cases same
      exact (ih later).trans ((List.drop_suffix 1 after).trans (splitQuote_suffix here))
  | case3 text before after here closed =>
    rw [readParts] at found
    split at found
    · cases found
    next first second split_here =>
      rw [here] at split_here
      cases split_here
      rw [if_neg closed] at found
      cases found
      exact splitQuote_suffix here

theorem readFieldValue_suffix (start : Units) : (readFieldValue delimiter start).rest <:+ start := by
  unfold readFieldValue
  simp only
  split
  · split
    next quoted found =>
      obtain ⟨parts,inside,same⟩ := Option.map_eq_some_iff.mp found
      cases same
      have behind := readUntilBoundary_suffix delimiter (skipInlineSpace delimiter parts.2)
      exact behind.trans ((skipInlineSpace_suffix delimiter parts.2).trans
        ((readParts_suffix inside).trans ((List.drop_suffix 1 _).trans (skipInlineSpace_suffix delimiter start))))
    · exact readUntilBoundary_suffix delimiter start
  · exact readUntilBoundary_suffix delimiter start

theorem readFieldValue_stops (start : Units) : (readFieldValue delimiter start).rest = [] ∨
      isBoundary delimiter (Units.codePoint (readFieldValue delimiter start).rest) = true := by
  unfold readFieldValue
  simp only
  split
  · split
    next quoted found =>
      obtain ⟨parts,inside,same⟩ := Option.map_eq_some_iff.mp found
      cases same
      exact readUntilBoundary_stops delimiter _
    · exact readUntilBoundary_stops delimiter start
  · exact readUntilBoundary_stops delimiter start

theorem consumeRecordBreak_suffix (text : Units) : consumeRecordBreak text <:+ text := by
  unfold consumeRecordBreak
  split
  · exact List.drop_suffix _ text
  · split
    · exact List.drop_suffix 1 text
    · exact List.suffix_refl text

theorem length_consumeRecordBreak (stops : isBreak (Units.codePoint text) = true) :
    (consumeRecordBreak text).length < text.length := by
  have some_units : text ≠ [] := by
    intro empty
    rw [empty] at stops
    cases stops
  have positive := List.length_pos_iff.mpr some_units
  rw [isBreak,Bool.or_eq_true,decide_eq_true_iff,decide_eq_true_iff] at stops
  unfold consumeRecordBreak
  split
  · rw [List.length_drop]
    split
    · omega
    · omega
  next other =>
    rw [if_pos (stops.resolve_right other),List.length_drop]
    omega

end Progress

section Tokenizer

theorem ne_nil_of_codePoint {text : Units} {n : Nat} (found : Units.codePoint text = some n) : text ≠ [] := by
  intro empty
  rw [empty] at found
  cases found

def readRecordFields (delimiter : Nat) (start : Units) : Reading (List Units) :=
  let field := readFieldValue delimiter start
  if Units.codePoint field.rest = some delimiter then
    let others := readRecordFields delimiter (field.rest.drop 1)
    ⟨field.value :: others.value,others.rest,field.unterminatedQuotes + others.unterminatedQuotes⟩
  else ⟨[field.value],consumeRecordBreak field.rest,field.unterminatedQuotes⟩
termination_by start.length
decreasing_by
  rename_i delimits
  have positive : 0 < (readFieldValue delimiter start).rest.length :=
    List.length_pos_iff.mpr (ne_nil_of_codePoint delimits)
  have inside := (readFieldValue_suffix delimiter start).length_le
  rw [List.length_drop]
  omega

theorem readRecordFields_shorter (delimiter : Nat) {start : Units} (some_units : start ≠ []) :
    (readRecordFields delimiter start).rest <:+ start ∧
      (readRecordFields delimiter start).rest.length < start.length := by
  induction start using readRecordFields.induct delimiter with
  | case1 start field delimits ih =>
    have inside := readFieldValue_suffix delimiter start
    have positive := List.length_pos_iff.mpr (ne_nil_of_codePoint delimits)
    have length := inside.length_le
    rw [readRecordFields]
    simp only
    rw [if_pos delimits]
    by_cases last : (readFieldValue delimiter start).rest.drop 1 = []
    · have nothing : (readRecordFields delimiter []).rest = [] := by
        rw [readRecordFields]
        rfl
      rw [last]
      simp only [nothing]
      exact ⟨List.nil_suffix,List.length_pos_iff.mpr some_units⟩
    · obtain ⟨suffix,shorter⟩ := ih last
      refine ⟨suffix.trans ((List.drop_suffix 1 _).trans inside),?_⟩
      have dropped := (List.drop_suffix 1 (readFieldValue delimiter start).rest).length_le
      exact Nat.lt_of_lt_of_le shorter (Nat.le_trans dropped length)
  | case2 start field other =>
    have inside := readFieldValue_suffix delimiter start
    rw [readRecordFields]
    simp only
    rw [if_neg other]
    refine ⟨(consumeRecordBreak_suffix _).trans inside,?_⟩
    rcases readFieldValue_stops delimiter start with ended | stops
    · rw [ended]
      exact List.length_pos_iff.mpr some_units
    · rw [isBoundary,Bool.or_eq_true,decide_eq_true_iff] at stops
      exact Nat.lt_of_lt_of_le (length_consumeRecordBreak (stops.resolve_left other)) inside.length_le

structure CsvRecord where
  recordNumber : Nat
  fields : List Units
  deriving DecidableEq

structure Tokenized where
  records : List CsvRecord
  unterminatedQuotes : Nat
  complete : Bool
  deriving DecidableEq

def recordsPerInterruptionCheck : Nat := 4096

def tokenizeFrom (delimiter : Nat) (maxRecords : Option Nat) (interrupted : Nat → Bool) (rest : Units)
    (records : List CsvRecord) (recordNumber unterminatedQuotes : Nat) : Tokenized :=
  if rest ≠ [] ∧ ∀ most ∈ maxRecords, records.length < most then
    if recordNumber % recordsPerInterruptionCheck = 0 ∧ interrupted recordNumber then
      ⟨records,unterminatedQuotes,decide (rest = [])⟩
    else
      let fields := readRecordFields delimiter rest
      tokenizeFrom delimiter maxRecords interrupted fields.rest
        (if fields.value.any fun field => decide (0 < field.length) then
          records ++ [⟨recordNumber + 1,fields.value⟩] else records)
        (recordNumber + 1) (unterminatedQuotes + fields.unterminatedQuotes)
  else ⟨records,unterminatedQuotes,decide (rest = [])⟩
termination_by rest.length
decreasing_by
  rename_i more _
  exact (readRecordFields_shorter delimiter more.1).2

def tokenize (text delimiter : Units) (maxRecords : Option Nat) (interrupted : Nat → Bool) : Tokenized :=
  tokenizeFrom ((Units.codePoint delimiter).getD 0) maxRecords interrupted text [] 0 0

end Tokenizer

end Keiko.CsvTokenizer
