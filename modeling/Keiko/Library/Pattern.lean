import Keiko.Library.CodeUnit
import Mathlib.Data.List.Infix

/-! Regular expressions of JavaScript without flags: their tokens, their terms, and the reading of a
text as an expression. The grammar has groups, classes, escapes, assertions and the marks `*`, `+`
and `?`; alternation, counted repetition, lookaround and references are outside of it. -/
namespace Keiko.Library.Pattern
open List

inductive Token where
  | opening
  | closing
  | star
  | plus
  | optional
  | assertion
  | single
  deriving DecidableEq, Repr

section Lexing

def operator (c : CodeUnit) : Token :=
  if c = unit ')' then .closing
  else if c = unit '*' then .star
  else if c = unit '+' then .plus
  else if c = unit '?' then .optional
  else if c = unit '^' || c = unit '$' then .assertion
  else .single

/-- The text behind the hexadecimal digits of an escape; without all of them the escape is its
letter. -/
def behindDigits (width : ℕ) (text : Units) : Units :=
  if width ≤ text.length && (text.take width).all CodeUnit.isHexDigit then text.drop width
  else text

def escape : Units → Option (Token × Units)
  | [] => none
  | c :: rest =>
    if c = unit 'b' || c = unit 'B' then some (.assertion, rest)
    else if c = unit 'x' then some (.single, behindDigits 2 rest)
    else if c = unit 'u' then some (.single, behindDigits 4 rest)
    else some (.single, rest)

def classEnd : Units → Option Units
  | [] => none
  | c :: rest =>
    if c = unit '\\' then match rest with
      | [] => none
      | _ :: rest => classEnd rest
    else if c = unit ']' then some rest
    else classEnd rest

def lexeme : Units → Option (Token × Units)
  | [] => none
  | c :: rest =>
    if c = unit '\\' then escape rest
    else if c = unit '[' then (classEnd rest).map (Token.single, ·)
    else if c = unit '(' then
      some (.opening, if units "?:" <+: rest then rest.drop 2 else rest)
    else some (operator c, rest)

/-- `RegExp.escape` of one unit. -/
def literal (c : CodeUnit) : Units :=
  if CodeUnit.isDigit c || CodeUnit.isLetter c then unit '\\' :: unit 'x' :: CodeUnit.hex 2 c
  else if (units "^$\\.*+?()[]\x7b\x7d|/").contains c then [unit '\\',c]
  else if c = 9 then units "\\t"
  else if c = 10 then units "\\n"
  else if c = 11 then units "\\v"
  else if c = 12 then units "\\f"
  else if c = 13 then units "\\r"
  else if (units ",-=<>#&!%:;@~'\x60\"").contains c || CodeUnit.isSpace c || CodeUnit.isLineTerminator c ||
      CodeUnit.isSurrogate c then
    if c ≤ 0xff then unit '\\' :: unit 'x' :: CodeUnit.hex 2 c
    else unit '\\' :: unit 'u' :: CodeUnit.hex 4 c
  else [c]

theorem behindDigits_hex (width : ℕ) (c : CodeUnit) (rest : Units) :
    behindDigits width (CodeUnit.hex width c ++ rest) = rest := by
  have ds : ((CodeUnit.hex width c).all CodeUnit.isHexDigit) = true := by
    rw [all_eq_true]
    intro d mem
    exact CodeUnit.isHexDigit_of_mem_hex mem
  have size := CodeUnit.length_hex width c
  rw [behindDigits,take_left' size,drop_left' size,ds,length_append,size]
  simp

theorem classEnd_plain {c : CodeUnit} (rest : Units) (escapes : c ≠ unit '\\')
    (closes : c ≠ unit ']') : classEnd (c :: rest) = classEnd rest := by
  rw [classEnd.eq_def]
  simp only [if_neg escapes,if_neg closes]

theorem classEnd_escaped (c : CodeUnit) (rest : Units) : classEnd (unit '\\' :: c :: rest) = classEnd rest := by
  rw [classEnd.eq_def]
  simp

theorem classEnd_hexDigits {ds : Units} (hexadecimal : ∀ d ∈ ds, CodeUnit.isHexDigit d)
    (rest : Units) : classEnd (ds ++ rest) = classEnd rest := by
  induction ds with
  | nil => rfl
  | cons d ds ih =>
    have digit := hexadecimal d (by simp)
    rw [cons_append,classEnd_plain]
    · exact ih fun d mem => hexadecimal d (mem_cons_of_mem _ mem)
    · intro same
      rw [same] at digit
      exact absurd digit (by decide)
    · intro same
      rw [same] at digit
      exact absurd digit (by decide)

theorem literal_cases (c : CodeUnit) : (∃ mark width, literal c = unit '\\' :: mark :: CodeUnit.hex width c ∧
      (mark = unit 'x' ∧ width = 2 ∨ mark = unit 'u' ∧ width = 4)) ∨
    (∃ mark, literal c = [unit '\\',mark] ∧ mark ∉ units "bBxu") ∨
    (literal c = [c] ∧ c ∉ units "^$\\.*+?()[]\x7b\x7d|/" ∧ c ≠ unit ':') := by
  have apart : ∀ d ∈ units "^$\\.*+?()[]\x7b\x7d|/", d ∉ units "bBxu" := fun _ =>
    of_all_units (· ∉ units "bBxu") (by decide)
  have letters : unit 't' ∉ units "bBxu" ∧ unit 'n' ∉ units "bBxu" ∧ unit 'v' ∉ units "bBxu" ∧
      unit 'f' ∉ units "bBxu" ∧ unit 'r' ∉ units "bBxu" := by decide
  have colon_marked : (units ",-=<>#&!%:;@~'\x60\"").contains (unit ':') = true := by decide
  generalize written : literal c = text
  rw [literal] at written
  by_cases letter : (CodeUnit.isDigit c || CodeUnit.isLetter c) = true
  · rw [if_pos letter] at written
    exact .inl ⟨_,2,written.symm,.inl ⟨rfl,rfl⟩⟩
  rw [if_neg letter] at written
  by_cases syntactic : (units "^$\\.*+?()[]\x7b\x7d|/").contains c = true
  · rw [if_pos syntactic] at written
    exact .inr (.inl ⟨c,written.symm,apart c (contains_iff_mem.mp syntactic)⟩)
  rw [if_neg syntactic] at written
  by_cases tab : c = 9
  · rw [if_pos tab] at written
    exact .inr (.inl ⟨unit 't',written.symm,letters.1⟩)
  rw [if_neg tab] at written
  by_cases newline : c = 10
  · rw [if_pos newline] at written
    exact .inr (.inl ⟨unit 'n',written.symm,letters.2.1⟩)
  rw [if_neg newline] at written
  by_cases vertical : c = 11
  · rw [if_pos vertical] at written
    exact .inr (.inl ⟨unit 'v',written.symm,letters.2.2.1⟩)
  rw [if_neg vertical] at written
  by_cases feed : c = 12
  · rw [if_pos feed] at written
    exact .inr (.inl ⟨unit 'f',written.symm,letters.2.2.2.1⟩)
  rw [if_neg feed] at written
  by_cases carriage : c = 13
  · rw [if_pos carriage] at written
    exact .inr (.inl ⟨unit 'r',written.symm,letters.2.2.2.2⟩)
  rw [if_neg carriage] at written
  by_cases marked : ((units ",-=<>#&!%:;@~'\x60\"").contains c || CodeUnit.isSpace c ||
      CodeUnit.isLineTerminator c || CodeUnit.isSurrogate c) = true
  · rw [if_pos marked] at written
    by_cases small : c ≤ 0xff
    · rw [if_pos small] at written
      exact .inl ⟨_,2,written.symm,.inl ⟨rfl,rfl⟩⟩
    · rw [if_neg small] at written
      exact .inl ⟨_,4,written.symm,.inr ⟨rfl,rfl⟩⟩
  rw [if_neg marked] at written
  refine .inr (.inr ⟨written.symm,?_,?_⟩)
  · rwa [contains_iff_mem] at syntactic
  · intro colon
    rw [colon,colon_marked] at marked
    exact marked rfl

theorem literal_ne_nil (c : CodeUnit) : literal c ≠ [] := by
  obtain ⟨mark,width,written,_⟩ | ⟨mark,written,_⟩ | ⟨written,_⟩ := literal_cases c <;>
    simp [written]

theorem lexeme_literal (c : CodeUnit) (rest : Units) : lexeme (literal c ++ rest) = some (.single,rest) := by
  obtain ⟨mark,width,written,marks⟩ | ⟨mark,written,plain⟩ | ⟨written,plain,_⟩ := literal_cases c
  · rw [written,cons_append,cons_append,lexeme,if_pos rfl,escape]
    obtain ⟨rfl,rfl⟩ | ⟨rfl,rfl⟩ := marks
    · rw [if_neg (by decide),if_pos rfl,behindDigits_hex]
    · rw [if_neg (by decide),if_neg (by decide),if_pos rfl,behindDigits_hex]
  · have others : mark ≠ unit 'b' ∧ mark ≠ unit 'B' ∧ mark ≠ unit 'x' ∧ mark ≠ unit 'u' := by
      refine ⟨?_,?_,?_,?_⟩ <;> exact fun same => plain (by rw [same]; decide)
    rw [written,cons_append,cons_append,lexeme,if_pos rfl,escape]
    simp [others]
  · have others : ∀ d ∈ units "^$\\.*+?()[]\x7b\x7d|/", c ≠ d := by
      intro d mem same
      exact plain (same ▸ mem)
    rw [written,cons_append,lexeme,if_neg (others _ (by decide)),if_neg (others _ (by decide)),
      if_neg (others _ (by decide)),operator,if_neg (others _ (by decide)),
      if_neg (others _ (by decide)),if_neg (others _ (by decide)),if_neg (others _ (by decide)),
      if_neg]
    · rfl
    · simp [others (unit '^') (by decide),others (unit '$') (by decide)]

theorem classEnd_literal (c : CodeUnit) (rest : Units) : classEnd (literal c ++ rest) = classEnd rest := by
  obtain ⟨mark,width,written,_⟩ | ⟨mark,written,_⟩ | ⟨written,plain,_⟩ := literal_cases c
  · rw [written,cons_append,cons_append,classEnd_escaped]
    apply classEnd_hexDigits
    intro d mem
    exact CodeUnit.isHexDigit_of_mem_hex mem
  · rw [written]
    exact classEnd_escaped mark rest
  · rw [written]
    apply classEnd_plain
    · exact fun same => plain (by rw [same]; decide)
    · exact fun same => plain (by rw [same]; decide)

theorem head_literal (c : CodeUnit) (rest : Units) :
    (literal c ++ rest).head? ≠ some (unit ':') ∧ (literal c ++ rest).head? ≠ some (unit '?') := by
  obtain ⟨mark,width,written,_⟩ | ⟨mark,written,_⟩ | ⟨written,plain,colon⟩ := literal_cases c
  · rw [written]
    exact ⟨by simp; decide,by simp; decide⟩
  · rw [written]
    exact ⟨by simp; decide,by simp; decide⟩
  · rw [written]
    refine ⟨by simpa using colon,?_⟩
    intro same
    apply plain
    rw [Option.some.inj same]
    decide

end Lexing

section Reading

variable {α β : Type}

def readAll (read : List α → Option (β × List α)) : ℕ → List α → Option (List β)
  | _, [] => some []
  | 0, _ :: _ => none
  | fuel + 1, a :: rest =>
    (read (a :: rest)).bind fun item => (readAll read fuel item.2).map (item.1 :: ·)

variable {read : List α → Option (β × List α)}

@[simp] theorem readAll_nil (fuel : ℕ) : readAll read fuel [] = some [] := by
  cases fuel <;> rfl

theorem spell_of_readAll {spell : β → List α}
    (spells : ∀ t item rest, read t = some (item,rest) → t = spell item ++ rest) :
    ∀ {fuel : ℕ} {t : List α} {xs : List β},
      readAll read fuel t = some xs → t = xs.flatMap spell := by
  intro fuel
  induction fuel with
  | zero =>
    intro t xs done
    cases t with
    | nil =>
      obtain rfl := Option.some.inj (done.symm.trans (readAll_nil 0))
      rfl
    | cons a rest => cases done
  | succ fuel ih =>
    intro t xs done
    cases t with
    | nil =>
      obtain rfl := Option.some.inj (done.symm.trans (readAll_nil _))
      rfl
    | cons a rest =>
      obtain ⟨item,first,others⟩ := Option.bind_eq_some_iff.mp done
      obtain ⟨post,more,rfl⟩ := Option.map_eq_some_iff.mp others
      rw [flatMap_cons,← ih more]
      exact spells _ _ _ first

theorem readAll_append {first rest : List α} {item : β} {xs : List β} (some_text : first ≠ [])
    (head : read (first ++ rest) = some (item,rest))
    (more : ∀ fuel, rest.length ≤ fuel → readAll read fuel rest = some xs) :
    ∀ fuel, (first ++ rest).length ≤ fuel → readAll read fuel (first ++ rest) = some (item :: xs) := by
  intro fuel enough
  obtain ⟨a,t,rfl⟩ := exists_cons_of_ne_nil some_text
  rw [cons_append] at head enough ⊢
  rw [length_cons,length_append] at enough
  cases fuel with
  | zero => omega
  | succ fuel => rw [readAll,head,Option.bind_some,more fuel (by omega),Option.map_some]

end Reading

section Terms

inductive Count where
  | star
  | plus
  | optional
  deriving DecidableEq, Repr

structure Quantifier where
  count : Count
  reluctant : Bool
  deriving DecidableEq, Repr

inductive Alternative where
  | nil
  | assertion (rest : Alternative)
  | single (quantifier : Option Quantifier) (rest : Alternative)
  | group (body : Alternative) (quantifier : Option Quantifier) (rest : Alternative)
  deriving DecidableEq, Repr

def Count.token : Count → Token
  | .star => .star
  | .plus => .plus
  | .optional => .optional

def Quantifier.tokens (quantifier : Quantifier) : List Token :=
  quantifier.count.token :: if quantifier.reluctant then [.optional] else []

def quantifierTokens (quantifier : Option Quantifier) : List Token :=
  (quantifier.map Quantifier.tokens).getD []

namespace Alternative

def tokens : Alternative → List Token
  | nil => []
  | assertion rest => .assertion :: rest.tokens
  | single quantifier rest => .single :: quantifierTokens quantifier ++ rest.tokens
  | group body quantifier rest =>
    .opening :: body.tokens ++ .closing :: quantifierTokens quantifier ++ rest.tokens

def unbounded (quantifier : Option Quantifier) : Bool :=
  quantifier.any fun given => given.count != .optional

def hasRepetition : Alternative → Bool
  | nil => false
  | assertion rest => rest.hasRepetition
  | single quantifier rest => unbounded quantifier || rest.hasRepetition
  | group body quantifier rest =>
    unbounded quantifier || body.hasRepetition || rest.hasRepetition

def nestsRepetition : Alternative → Bool
  | nil => false
  | assertion rest => rest.nestsRepetition
  | single _ rest => rest.nestsRepetition
  | group body quantifier rest =>
    unbounded quantifier && body.hasRepetition || body.nestsRepetition || rest.nestsRepetition

def startsRepeated : Alternative → Bool
  | nil => false
  | assertion _ => false
  | single quantifier _ => unbounded quantifier
  | group _ quantifier _ => unbounded quantifier

def adjoinsRepetitions : Alternative → Bool
  | nil => false
  | assertion rest => rest.adjoinsRepetitions
  | single quantifier rest => unbounded quantifier && rest.startsRepeated || rest.adjoinsRepetitions
  | group body quantifier rest =>
    unbounded quantifier && rest.startsRepeated || body.adjoinsRepetitions ||
      rest.adjoinsRepetitions

end Alternative
end Terms

section Parsing

def count? : Token → Option Count
  | .star => some .star
  | .plus => some .plus
  | .optional => some .optional
  | _ => none

def quantifier : List Token → Option Quantifier × List Token
  | [] => (none, [])
  | token :: rest =>
    match count? token with
    | none => (none, token :: rest)
    | some count =>
      match rest with
      | .optional :: rest => (some ⟨count,true⟩, rest)
      | rest => (some ⟨count,false⟩, rest)

def parse : ℕ → List Token → Option (Alternative × List Token)
  | 0, _ => none
  | _ + 1, [] => some (.nil, [])
  | fuel + 1, token :: rest =>
    match token with
    | .closing => some (.nil, token :: rest)
    | .assertion => (parse fuel rest).map fun more => (.assertion more.1, more.2)
    | .single =>
      (parse fuel (quantifier rest).2).map fun more =>
        (.single (quantifier rest).1 more.1, more.2)
    | .opening =>
      match parse fuel rest with
      | some (body, .closing :: behind) =>
        (parse fuel (quantifier behind).2).map fun more =>
          (.group body (quantifier behind).1 more.1, more.2)
      | _ => none
    -- There is nothing to repeat.
    | .star | .plus | .optional => none

def expression (text : Units) : Option Alternative :=
  (readAll lexeme text.length text).bind fun tokens =>
    match parse (tokens.length + 1) tokens with
    | some (terms, []) => some terms
    | _ => none

theorem token_of_count? {token : Token} {count : Count} (counts : count? token = some count) : count.token = token := by
  cases token <;> cases counts <;> rfl

theorem quantifier_tokens (tokens : List Token) :
    quantifierTokens (quantifier tokens).1 ++ (quantifier tokens).2 = tokens := by
  cases tokens with
  | nil => rfl
  | cons token rest =>
    simp only [quantifier]
    cases counts : count? token with
    | none => rfl
    | some count =>
      rw [← token_of_count? counts]
      cases rest with
      | nil => rfl
      | cons next rest => cases next <;> rfl

theorem tokens_of_parse : ∀ {fuel : ℕ} {tokens rest : List Token} {terms : Alternative},
    parse fuel tokens = some (terms,rest) → tokens = terms.tokens ++ rest := by
  intro fuel
  induction fuel with
  | zero =>
    intro tokens rest terms done
    cases done
  | succ fuel ih =>
    intro tokens rest terms done
    cases tokens with
    | nil =>
      obtain ⟨rfl,rfl⟩ := Prod.mk.inj (Option.some.inj done)
      rfl
    | cons token behind =>
      cases token with
      | closing =>
        obtain ⟨rfl,rfl⟩ := Prod.mk.inj (Option.some.inj done)
        rfl
      | assertion =>
        obtain ⟨more,post,same⟩ := Option.map_eq_some_iff.mp done
        obtain ⟨rfl,rfl⟩ := Prod.mk.inj same
        rw [ih post]
        rfl
      | single =>
        obtain ⟨more,post,same⟩ := Option.map_eq_some_iff.mp done
        obtain ⟨rfl,rfl⟩ := Prod.mk.inj same
        rw [Alternative.tokens]
        simp only [cons_append,append_assoc]
        rw [← ih post,quantifier_tokens]
      | opening =>
        simp only [parse] at done
        split at done
        case h_1 body close inner =>
          obtain ⟨more,post,same⟩ := Option.map_eq_some_iff.mp done
          obtain ⟨rfl,rfl⟩ := Prod.mk.inj same
          rw [ih inner,Alternative.tokens]
          simp only [cons_append,append_assoc]
          rw [← ih post,quantifier_tokens]
        case h_2 => cases done
      | star => cases done
      | plus => cases done
      | optional => cases done

theorem tokens_of_expression {t : Units} {terms : Alternative} (done : expression t = some terms) :
    readAll lexeme t.length t = some terms.tokens := by
  obtain ⟨tokens,lexed,parsed⟩ := Option.bind_eq_some_iff.mp done
  split at parsed
  case h_1 read whole =>
    obtain rfl := Option.some.inj parsed
    rw [lexed,tokens_of_parse whole,append_nil]
  case h_2 => cases parsed

end Parsing
end Keiko.Library.Pattern
