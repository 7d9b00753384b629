import Keiko.CsvTokenizer

/-! Tables written as comma separated texts and read back. Fields with a comma, a quote or a line
break stand in quotes, others may; the tokenizer gives back every record that holds a field with
some text, under the number of its place. -/
namespace Keiko.CsvTokenizer
open Keiko.Library List Option Bool

section Written

def comma : CodeUnit := unit ','

def quote : CodeUnit := unit '\x22'

def lineFeed : CodeUnit := unit '\n'

def carriageReturn : CodeUnit := unit '\r'

def IsStop (c : CodeUnit) : Prop := c = comma ∨ c = lineFeed ∨ c = carriageReturn

instance : DecidablePred IsStop := fun c =>
  inferInstanceAs (Decidable (c = comma ∨ c = lineFeed ∨ c = carriageReturn))

structure Field where
  value : Units
  quoted : Bool
  trimmed : Units.trim value = value
  plain : quoted = false → ∀ c ∈ value, ¬ IsStop c ∧ c ≠ quote

def double (value : Units) : Units := value.flatMap fun c => if c = quote then [quote,quote] else [c]

def Field.write (field : Field) : Units :=
  if field.quoted then quote :: (double field.value ++ [quote]) else field.value

structure Record where
  first : Field
  others : List Field

def Record.values (record : Record) : List Units :=
  record.first.value :: record.others.map Field.value

def Record.write (record : Record) : Units :=
  record.first.write ++ record.others.flatMap fun field => comma :: field.write

inductive LineEnd where
  | lf
  | crlf

def LineEnd.write : LineEnd → Units
  | .lf => [lineFeed]
  | .crlf => [carriageReturn,lineFeed]

/-- A table: the records that are ended by a line end, and one that the text may end with. -/
structure Table where
  ended : List (Record × LineEnd)
  last : Option Record

def Table.values (table : Table) : List (List Units) :=
  table.ended.map (fun line => line.1.values) ++ (table.last.map Record.values).toList

def writeEnded (lines : List (Record × LineEnd)) : Units :=
  lines.flatMap fun line => line.1.write ++ line.2.write

def Table.write (table : Table) : Units :=
  writeEnded table.ended ++ ((table.last.map Record.write).getD [])

end Written

section Units
variable {c : CodeUnit} {text next : Units}

theorem codePoint_unit {n : Nat} {d : CodeUnit} (small : d.toNat = n) (plain : n < 0xd800) :
    Units.codePoint (c :: text) = some n ↔ c = d := by
  rw [Units.codePoint_cons plain,← small,UInt16.toNat_inj]

theorem isBoundary_cons : isBoundary 0x2c (Units.codePoint (c :: text)) = true ↔ IsStop c := by
  have one := @codePoint_unit c text 0x2c comma rfl (by omega)
  have two := @codePoint_unit c text lf lineFeed rfl (by decide)
  have three := @codePoint_unit c text cr carriageReturn rfl (by decide)
  rw [isBoundary,isBreak,or_eq_true,or_eq_true,decide_eq_true_iff,decide_eq_true_iff,
    decide_eq_true_iff,one,two,three]
  rfl

theorem codePoint_quote : Units.codePoint (c :: text) = some quoteCode ↔ c = quote :=
  codePoint_unit rfl (by decide)

theorem isBlank_cons (solid : CodeUnit.isSpace c = false) : isBlank 0x2c (Units.codePoint (c :: text)) = false := by
  have one := @codePoint_unit c text space (unit ' ') rfl (by decide)
  have two := @codePoint_unit c text tab (unit '\t') rfl (by decide)
  rw [isBlank,or_eq_false_iff,decide_eq_false_iff_not,decide_eq_false_iff_not,one,two]
  constructor
  · intro same
    rw [same] at solid
    revert solid
    decide
  · intro ⟨same,_⟩
    rw [same] at solid
    revert solid
    decide

def Ends (next : Units) : Prop := next = [] ∨ ∃ c rest, next = c :: rest ∧ IsStop c

theorem skipInlineSpace_ends (ends : Ends next) : skipInlineSpace 0x2c next = next := by
  obtain rfl | ⟨c,rest,rfl,stop⟩ := ends
  · rfl
  · have blank : isBlank 0x2c (Units.codePoint (c :: rest)) = false := by
      have one := @codePoint_unit c rest space (unit ' ') rfl (by decide)
      have two := @codePoint_unit c rest tab (unit '\t') rfl (by decide)
      rw [isBlank,or_eq_false_iff,decide_eq_false_iff_not,decide_eq_false_iff_not,one,two]
      obtain rfl | rfl | rfl := stop
      · decide
      · decide
      · decide
    rw [skipInlineSpace,blank]
    rfl

theorem skipInlineSpace_solid (solid : CodeUnit.isSpace c = false) : skipInlineSpace 0x2c (c :: text) = c :: text := by
  rw [skipInlineSpace,isBlank_cons solid]
  rfl

theorem not_quote_of_ends (ends : Ends next) : Units.codePoint next ≠ some quoteCode := by
  obtain rfl | ⟨c,rest,rfl,stop⟩ := ends
  · exact fun hit => by cases hit
  · rw [Ne,codePoint_quote]
    intro same
    subst same
    revert stop
    decide

theorem readUntilBoundary_plain (plain : ∀ c ∈ text, ¬ IsStop c) (ends : Ends next) :
    readUntilBoundary 0x2c (text ++ next) = (text,next) := by
  induction text with
  | nil =>
    obtain rfl | ⟨c,rest,rfl,stop⟩ := ends
    · rfl
    · rw [nil_append,readUntilBoundary,if_pos (isBoundary_cons.mpr stop)]
  | cons c text ih =>
    rw [cons_append,readUntilBoundary,if_neg (fun stop => plain c mem_cons_self (isBoundary_cons.mp stop)),
      ih (fun d mem => plain d (mem_cons_of_mem c mem))]

end Units

section Fields
variable {c : CodeUnit} {text next : Units}

theorem toNat_eq_quoteCode : c.toNat = quoteCode ↔ c = quote := by
  have code : quote.toNat = quoteCode := rfl
  rw [← code,UInt16.toNat_inj]

theorem splitQuote_here (text : Units) : splitQuote (quote :: text) = some ([],text) := rfl

theorem splitQuote_cons (other : c ≠ quote) (text : Units) :
    splitQuote (c :: text) = (splitQuote text).map fun parts => (c :: parts.1,parts.2) := by
  rw [splitQuote,if_neg (fun same => other (toNat_eq_quoteCode.mp same))]

theorem readParts_eq (text : Units) : readParts text = (splitQuote text).bind fun split =>
    if Units.codePoint split.2 = some quoteCode then
      (readParts (split.2.drop 1)).map fun parts => (split.1 ++ quote :: parts.1,parts.2)
    else some split := by
  rw [readParts]
  split
  next none_left => rw [none_left]; rfl
  next pre after hit => rw [hit]; rfl

theorem readParts_closed (ends : Ends next) : readParts (quote :: next) = some ([],next) := by
  rw [readParts_eq,splitQuote_here]
  exact if_neg (not_quote_of_ends ends)

theorem readParts_doubled (text : Units) : readParts (quote :: quote :: text) =
    (readParts text).map fun parts => (quote :: parts.1,parts.2) := by
  rw [readParts_eq,splitQuote_here]
  exact if_pos (codePoint_quote.mpr rfl)

theorem readParts_cons (other : c ≠ quote) (text : Units) :
    readParts (c :: text) = (readParts text).map fun parts => (c :: parts.1,parts.2) := by
  rw [readParts_eq,readParts_eq text,splitQuote_cons other]
  cases splitQuote text with
  | none => rfl
  | some split =>
    rw [map_some,bind_some,bind_some]
    simp only
    split
    · rw [Option.map_map]
      rfl
    · rfl

theorem readParts_double (ends : Ends next) (v : Units) :
    readParts (double v ++ quote :: next) = some (v,next) := by
  induction v with
  | nil => exact readParts_closed ends
  | cons c v ih =>
    rw [double,flatMap_cons,← double,append_assoc]
    by_cases same : c = quote
    · rw [if_pos same]
      have step := readParts_doubled (double v ++ quote :: next)
      rw [ih] at step
      rw [same]
      exact step
    · rw [if_neg same]
      have step := readParts_cons same (double v ++ quote :: next)
      rw [ih] at step
      exact step

theorem readFieldValue_write (field : Field) (ends : Ends next) :
    readFieldValue 0x2c (field.write ++ next) = ⟨field.value,next,0⟩ := by
  obtain ⟨v,quoted,trimmed,plain⟩ := field
  cases quoted with
  | true =>
    have write : Field.write ⟨v,true,trimmed,plain⟩ ++ next = quote :: (double v ++ quote :: next) := by
      rw [Field.write,if_pos rfl,cons_append,append_assoc,singleton_append]
    have solid : CodeUnit.isSpace quote = false := by decide
    rw [write,readFieldValue]
    simp only [skipInlineSpace_solid solid]
    rw [if_pos (codePoint_quote.mpr rfl),drop_one,tail_cons,readQuoted,readParts_double ends,map_some]
    simp only [skipInlineSpace_ends ends]
    have nothing := @readUntilBoundary_plain [] next (fun c mem => by cases mem) ends
    rw [nil_append] at nothing
    rw [nothing]
    simp only
    have trailing : Units.trimEnd [] = [] := rfl
    rw [trailing,append_nil,trimmed]
  | false =>
    have bare := plain rfl
    have read := readUntilBoundary_plain (fun c mem => (bare c mem).1) ends
    have write : Field.write ⟨v,false,trimmed,plain⟩ = v := rfl
    have unquoted : Units.codePoint (skipInlineSpace 0x2c (v ++ next)) ≠ some quoteCode := by
      cases v with
      | nil =>
        rw [nil_append,skipInlineSpace_ends ends]
        exact not_quote_of_ends ends
      | cons c v =>
        rw [cons_append,skipInlineSpace_solid (Units.isSpace_head trimmed),Ne,codePoint_quote]
        exact (bare c mem_cons_self).2
    rw [write,readFieldValue]
    simp only
    rw [if_neg unquoted,readBare,read]
    simp only
    rw [trimmed]

end Fields

section Records
variable {next : Units}

def EndsRecord (next : Units) : Prop :=
  next = [] ∨ ∃ c rest, next = c :: rest ∧ (c = lineFeed ∨ c = carriageReturn)

theorem EndsRecord.ends (ends : EndsRecord next) : Ends next := by
  obtain empty | ⟨c,rest,same,stop⟩ := ends
  · exact .inl empty
  · exact .inr ⟨c,rest,same,.inr stop⟩

theorem EndsRecord.not_comma (ends : EndsRecord next) : Units.codePoint next ≠ some 0x2c := by
  obtain rfl | ⟨c,rest,rfl,stop⟩ := ends
  · exact fun hit => by cases hit
  · rw [Ne,@codePoint_unit c rest 0x2c comma rfl (by omega)]
    intro same
    subst same
    revert stop
    decide

theorem codePoint_comma (text : Units) : Units.codePoint (comma :: text) = some 0x2c :=
  (@codePoint_unit comma text 0x2c comma rfl (by omega)).mpr rfl

theorem readRecordFields_write (r : Record) (ends : EndsRecord next) :
    readRecordFields 0x2c (r.write ++ next) = ⟨r.values,consumeRecordBreak next,0⟩ := by
  obtain ⟨a,others⟩ := r
  induction others generalizing a with
  | nil =>
    have write : Record.write ⟨a,[]⟩ ++ next = a.write ++ next := by
      rw [Record.write,flatMap_nil,append_nil]
    rw [write,readRecordFields]
    simp only [readFieldValue_write a ends.ends]
    rw [if_neg ends.not_comma]
    rfl
  | cons b others ih =>
    have write : Record.write ⟨a,b :: others⟩ ++ next =
        a.write ++ (comma :: (Record.write ⟨b,others⟩ ++ next)) := by
      rw [Record.write,Record.write,flatMap_cons]
      simp only [append_assoc,cons_append]
    have stop : Ends (comma :: (Record.write ⟨b,others⟩ ++ next)) :=
      .inr ⟨_,_,rfl,.inl rfl⟩
    rw [write,readRecordFields]
    simp only [readFieldValue_write a stop]
    rw [if_pos (codePoint_comma _),drop_one,tail_cons,ih b]
    rfl

theorem consumeRecordBreak_write (lineEnd : LineEnd) (rest : Units) :
    consumeRecordBreak (lineEnd.write ++ rest) = rest := by
  cases lineEnd with
  | lf =>
    have other : Units.codePoint (lineFeed :: rest) ≠ some cr := by
      rw [Ne,@codePoint_unit lineFeed rest cr carriageReturn rfl (by decide)]
      decide
    have here : Units.codePoint (lineFeed :: rest) = some lf :=
      (@codePoint_unit lineFeed rest lf lineFeed rfl (by decide)).mpr rfl
    rw [LineEnd.write,singleton_append,consumeRecordBreak,if_neg other,if_pos here]
    rfl
  | crlf =>
    have here : Units.codePoint (carriageReturn :: lineFeed :: rest) = some cr :=
      (@codePoint_unit carriageReturn _ cr carriageReturn rfl (by decide)).mpr rfl
    have behind : Units.codePoint (lineFeed :: rest) = some lf :=
      (@codePoint_unit lineFeed rest lf lineFeed rfl (by decide)).mpr rfl
    rw [LineEnd.write,cons_append,singleton_append,consumeRecordBreak,if_pos here,drop_one,tail_cons,if_pos behind]
    rfl

theorem endsRecord_write (lineEnd : LineEnd) (rest : Units) : EndsRecord (lineEnd.write ++ rest) := by
  cases lineEnd with
  | lf => exact .inr ⟨_,_,rfl,.inl rfl⟩
  | crlf => exact .inr ⟨_,_,rfl,.inr rfl⟩

theorem values_of_write_nil {r : Record} (nothing : r.write = []) : r.values = [[]] := by
  obtain ⟨⟨v,quoted,trimmed,plain⟩,others⟩ := r
  obtain ⟨first,rest⟩ := append_eq_nil_iff.mp nothing
  have alone : others = [] := by
    cases others with
    | nil => rfl
    | cons field others => cases rest
  have empty : v = [] := by
    cases quoted with
    | true => cases first
    | false => exact first
  subst alone
  subst empty
  rfl

end Records

section Tables

def recordsFrom (first : Nat) (rows : List (List Units)) : List CsvRecord :=
  (rows.zipIdx first).map fun row => ⟨row.2,row.1⟩

def CsvRecord.holds (record : CsvRecord) : Bool :=
  record.fields.any fun field => decide (0 < field.length)

theorem recordsFrom_cons (a : Nat) (row : List Units) (rows : List (List Units)) :
    recordsFrom a (row :: rows) = ⟨a,row⟩ :: recordsFrom (a + 1) rows := by
  rw [recordsFrom,zipIdx_cons,map_cons]
  rfl

theorem tokenizeFrom_step {rest : Units} (some_units : rest ≠ []) (records : List CsvRecord)
    (recordNumber unterminatedQuotes : Nat) :
    tokenizeFrom 0x2c none (fun _ => false) rest records recordNumber unterminatedQuotes =
      tokenizeFrom 0x2c none (fun _ => false) (readRecordFields 0x2c rest).rest
        (records ++ [(⟨recordNumber + 1,(readRecordFields 0x2c rest).value⟩ : CsvRecord)].filter CsvRecord.holds)
        (recordNumber + 1) (unterminatedQuotes + (readRecordFields 0x2c rest).unterminatedQuotes) := by
  rw [tokenizeFrom,if_pos ⟨some_units,fun most none_given => by cases none_given⟩,if_neg (fun stop => by cases stop.2)]
  simp only
  congr 1
  split
  next some_text =>
    have held : CsvRecord.holds ⟨recordNumber + 1,(readRecordFields 0x2c rest).value⟩ = true := some_text
    rw [filter_cons_of_pos held,filter_nil]
  next none_held =>
    have blank : ¬ CsvRecord.holds ⟨recordNumber + 1,(readRecordFields 0x2c rest).value⟩ = true :=
      none_held
    rw [filter_cons_of_neg blank,filter_nil,append_nil]

theorem tokenizeFrom_nil (records : List CsvRecord) (recordNumber unterminatedQuotes : Nat) :
    tokenizeFrom 0x2c none (fun _ => false) [] records recordNumber unterminatedQuotes =
      ⟨records,unterminatedQuotes,true⟩ := by
  rw [tokenizeFrom,if_neg (fun more => more.1 rfl)]
  rfl

theorem tokenizeFrom_record (r : Record) {next : Units} (ends : EndsRecord next)
    (some_units : r.write ++ next ≠ []) (records : List CsvRecord) (recordNumber : Nat) :
    tokenizeFrom 0x2c none (fun _ => false) (r.write ++ next) records recordNumber 0 =
      tokenizeFrom 0x2c none (fun _ => false) (consumeRecordBreak next)
        (records ++ [(⟨recordNumber + 1,r.values⟩ : CsvRecord)].filter CsvRecord.holds)
        (recordNumber + 1) 0 := by
  rw [tokenizeFrom_step some_units,readRecordFields_write r ends]
  rfl

theorem tokenizeFrom_last (last : Option Record) (records : List CsvRecord) (recordNumber : Nat) :
    tokenizeFrom 0x2c none (fun _ => false) ((last.map Record.write).getD []) records recordNumber 0 =
      ⟨records ++ (recordsFrom (recordNumber + 1) (last.map Record.values).toList).filter CsvRecord.holds,0,true⟩ := by
  cases last with
  | none => rw [map_none,getD_none,tokenizeFrom_nil]; simp [recordsFrom]
  | some r =>
    rw [map_some,getD_some,map_some,toList_some,recordsFrom_cons]
    by_cases nothing : r.write = []
    · rw [nothing,tokenizeFrom_nil,values_of_write_nil nothing]
      simp [recordsFrom,CsvRecord.holds]
    · have step := tokenizeFrom_record r (.inl rfl) (by rwa [append_nil]) records recordNumber
      rw [append_nil] at step
      rw [step]
      exact tokenizeFrom_nil _ _ _

theorem tokenizeFrom_write (ended : List (Record × LineEnd)) (last : Option Record)
    (records : List CsvRecord) (recordNumber : Nat) :
    tokenizeFrom 0x2c none (fun _ => false) (Table.write ⟨ended,last⟩) records recordNumber 0 =
      ⟨records ++ (recordsFrom (recordNumber + 1) (Table.values ⟨ended,last⟩)).filter CsvRecord.holds,0,true⟩ := by
  induction ended generalizing records recordNumber with
  | nil => exact tokenizeFrom_last last records recordNumber
  | cons l ended ih =>
    obtain ⟨r,lineEnd⟩ := l
    have write : Table.write ⟨(r,lineEnd) :: ended,last⟩ =
        r.write ++ (lineEnd.write ++ Table.write ⟨ended,last⟩) := by
      rw [Table.write,Table.write,writeEnded,flatMap_cons]
      simp only [append_assoc]
      rfl
    have values : Table.values ⟨(r,lineEnd) :: ended,last⟩ = r.values :: Table.values ⟨ended,last⟩ := rfl
    have some_units : r.write ++ (lineEnd.write ++ Table.write ⟨ended,last⟩) ≠ [] := by
      cases lineEnd <;> simp [LineEnd.write]
    rw [write,tokenizeFrom_record r (endsRecord_write lineEnd _) some_units,
      consumeRecordBreak_write,ih,values,recordsFrom_cons,append_assoc,← filter_append]
    rfl

theorem tokenize_table (table : Table) : tokenize table.write (units ",") none (fun _ => false) =
    ⟨(recordsFrom 1 table.values).filter CsvRecord.holds,0,true⟩ := by
  have delimiter : (Units.codePoint (units ",")).getD 0 = 0x2c := by decide
  rw [tokenize,delimiter,tokenizeFrom_write,nil_append]

/-- The records of a written table are those that hold some text, under their places; and on any
text each record takes at least one character. -/
theorem tokenize_write :
    (∀ table : Table, tokenize table.write (units ",") none (fun _ => false) =
      ⟨(recordsFrom 1 table.values).filter CsvRecord.holds,0,true⟩) ∧
    ∀ (delimiter : Nat) (text : Units), text ≠ [] →
      (readRecordFields delimiter text).rest <:+ text ∧
        (readRecordFields delimiter text).rest.length < text.length :=
  ⟨tokenize_table,fun delimiter _ some_units => readRecordFields_shorter delimiter some_units⟩

/-- A quoted field is not the end of its text. -/
theorem tokenize_write_sample : (readRecordFields 0x2c (units "a,b\nc")).rest.length < 5 :=
  (tokenize_write.2 0x2c (units "a,b\nc") (by decide)).2

def sampleField (c : CodeUnit) (solid : Units.trim [c] = [c]) (plain : ¬ IsStop c ∧ c ≠ quote) : Field :=
  ⟨[c],false,solid,fun _ d member => by rw [List.mem_singleton.mp member]; exact plain⟩

def emptyField : Field := ⟨[],false,rfl,fun _ c member => by cases member⟩

/-- A record without text is not returned, though it keeps its number. -/
theorem tokenize_write_blank : ∃ table : Table,
    (tokenize table.write (units ",") none fun _ => false).records ≠ recordsFrom 1 table.values := by
  refine ⟨⟨[(⟨emptyField,[]⟩,.lf)],
    some ⟨sampleField (unit 'a') (by decide) (by decide),[]⟩⟩,?_⟩
  rw [tokenize_table]
  decide

end Tables

end Keiko.CsvTokenizer
