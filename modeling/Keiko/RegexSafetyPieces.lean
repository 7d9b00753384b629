import Keiko.RegexSafety

/-! The pieces of a search pattern as the rewriting reads them: what is compiled from a pattern has
the tokens of its pieces, in their order. -/
namespace Keiko.RegexSafety
open Keiko.Library Keiko.Library.Pattern List Option

inductive Piece where
  | operator (c : CodeUnit)
  /-- The start of a group that captures nothing. -/
  | uncaptured
  | literal (c : CodeUnit)
  | escaped (c : CodeUnit)
  | characterClass (body : Units)
  deriving DecidableEq

section Pieces

def classBody : Units → Option (Units × Units)
  | [] => none
  | c :: rest =>
    if c = unit '\\' then match rest with
      | [] => none
      | escaped :: rest => (classBody rest).map fun more => (c :: escaped :: more.1,more.2)
    else if c = unit ']' then some ([],rest)
    else (classBody rest).map fun more => (c :: more.1,more.2)

def piece : Units → Option (Piece × Units)
  | [] => none
  | c :: rest =>
    if units "(?:" <+: c :: rest then some (.uncaptured,rest.drop 2)
    else if c = unit '[' then (classBody rest).map fun more => (.characterClass more.1,more.2)
    else if c = unit '\\' then match rest with
      | [] => none
      | escaped :: rest => some (.escaped escaped,rest)
    else if (regexOperatorToken c).isSome then some (.operator c,rest)
    else some (.literal c,rest)

theorem piece_cons (c : CodeUnit) (rest : Units) : piece (c :: rest) =
      if units "(?:" <+: c :: rest then some (.uncaptured,rest.drop 2)
      else if c = unit '[' then (classBody rest).map fun more => (.characterClass more.1,more.2)
      else if c = unit '\\' then rest.head?.map fun escaped => (.escaped escaped,rest.drop 1)
      else if (regexOperatorToken c).isSome then some (.operator c,rest)
      else some (.literal c,rest) := by
  rw [piece.eq_def]
  cases rest <;> rfl

def pieces (source : Units) : Option (List Piece) := readAll piece source.length source

namespace Piece

def spell : Piece → Units
  | operator c => [c]
  | uncaptured => units "(?:"
  | literal c => [c]
  | escaped c => [unit '\\',c]
  | characterClass body => unit '[' :: body ++ [unit ']']

def kind : Piece → Token
  | operator c => if c = unit '(' then .opening else Pattern.operator c
  | uncaptured => .opening
  | literal _ => .single
  | escaped c => if c = unit 'b' || c = unit 'B' then .assertion else .single
  | characterClass _ => .single

end Piece

theorem units_uncaptured : units "(?:" = [unit '(',unit '?',unit ':'] := by decide

theorem spell_classBody : ∀ {t body rest : Units}, classBody t = some (body,rest) →
    t = body ++ unit ']' :: rest := by
  intro t
  induction t using classBody.induct with
  | case1 =>
    intro body rest done
    cases done
  | case2 =>
    intro body rest done
    cases done
  | case3 escaped t ih =>
    intro body rest done
    unfold classBody at done
    rw [if_pos rfl] at done
    obtain ⟨more,post,same⟩ := Option.map_eq_some_iff.mp done
    obtain ⟨rfl,rfl⟩ := Prod.mk.inj same
    rw [ih post]
    rfl
  | case4 t other =>
    intro body rest done
    unfold classBody at done
    rw [if_neg other,if_pos rfl] at done
    obtain ⟨rfl,rfl⟩ := Prod.mk.inj (Option.some.inj done)
    rfl
  | case5 c t plain other ih =>
    intro body rest done
    unfold classBody at done
    rw [if_neg plain,if_neg other] at done
    obtain ⟨more,post,same⟩ := Option.map_eq_some_iff.mp done
    obtain ⟨rfl,rfl⟩ := Prod.mk.inj same
    rw [ih post]
    rfl

theorem spell_piece (t : Units) (a : Piece) (rest : Units)
    (done : piece t = some (a,rest)) : t = a.spell ++ rest := by
  cases t with
  | nil => cases done
  | cons c t =>
    rw [piece_cons] at done
    split_ifs at done with starts bracket backslash operates
    case pos =>
      obtain ⟨rfl,rfl⟩ := Prod.mk.inj (some.inj done)
      obtain ⟨behind,whole⟩ := starts
      rw [units_uncaptured] at whole
      obtain ⟨rfl,rfl⟩ := cons.inj whole
      rw [Piece.spell,units_uncaptured]
      rfl
    case pos =>
      obtain ⟨more,post,same⟩ := map_eq_some_iff.mp done
      obtain ⟨rfl,rfl⟩ := Prod.mk.inj same
      rw [spell_classBody post,bracket]
      simp [Piece.spell]
    case pos =>
      cases t with
      | nil => cases done
      | cons escaped t =>
        obtain ⟨rfl,rfl⟩ := Prod.mk.inj (some.inj done)
        rw [backslash]
        rfl
    case pos =>
      obtain ⟨rfl,rfl⟩ := Prod.mk.inj (some.inj done)
      rfl
    case neg =>
      obtain ⟨rfl,rfl⟩ := Prod.mk.inj (some.inj done)
      rfl

theorem spell_pieces {src : Units} {read : List Piece} (done : pieces src = some read) :
    src = read.flatMap Piece.spell :=
  spell_of_readAll spell_piece done

end Pieces

section Rendering

/-- A text whose tokens are the given ones, and in front of which a parenthesis stays alone. -/
structure Rendered (text : Units) (tokens : List Token) : Prop where
  lexed : ∀ fuel, text.length ≤ fuel → readAll lexeme fuel text = some tokens
  no_colon : text.head? ≠ some (unit ':')
  no_mark : ¬ units "?:" <+: text

theorem Rendered.nil : Rendered [] [] where
  lexed fuel _ := readAll_nil fuel
  no_colon := by simp
  no_mark := by decide

theorem Rendered.cons {t a : Units} {tokens : List Token} {token : Token}
    (rendered : Rendered t tokens) (some_text : a ≠ [])
    (head : lexeme (a ++ t) = some (token,t))
    (no_colon : (a ++ t).head? ≠ some (unit ':'))
    (no_mark : (a ++ t).head? = some (unit '?') → a = [unit '?']) :
    Rendered (a ++ t) (token :: tokens) := by
  refine ⟨readAll_append some_text head rendered.lexed,no_colon,?_⟩
  intro marked
  have mark : (a ++ t).head? = some (unit '?') := by
    obtain ⟨rest,whole⟩ := marked
    rw [← whole]
    rfl
  rw [no_mark mark] at marked
  obtain ⟨rest,whole⟩ := marked
  apply rendered.no_colon
  have tail : unit ':' :: rest = t := (cons.inj whole).2
  rw [← tail]
  rfl

theorem escapedSource_cases (c : CodeUnit) :
    (c ∈ units "bBdDsSwW" ∧ escapedSource c = [unit '\\',c]) ∨
      (c ∉ units "bBdDsSwW" ∧ escapedSource c = literal c) := by
  unfold escapedSource regexEscapeToken
  by_cases mem : c ∈ units "bBdDsSwW"
  · exact .inl ⟨mem,by rw [if_pos (by simpa using mem)]; rfl⟩
  · exact .inr ⟨mem,by rw [if_neg (by simpa using mem)]; rfl⟩

theorem escapedSource_ne_nil (c : CodeUnit) : escapedSource c ≠ [] := by
  obtain ⟨_,written⟩ | ⟨_,written⟩ := escapedSource_cases c
  · simp [written]
  · rw [written]
    exact literal_ne_nil c

theorem lexeme_escapedSource (c : CodeUnit) (rest : Units) :
    lexeme (escapedSource c ++ rest) = some ((Piece.escaped c).kind,rest) := by
  obtain ⟨mem,written⟩ | ⟨absent,written⟩ := escapedSource_cases c
  · have others : c ≠ unit 'x' ∧ c ≠ unit 'u' := by
      exact of_all_units (fun d => d ≠ unit 'x' ∧ d ≠ unit 'u') (by decide) mem
    rw [written,cons_append,cons_append,lexeme,if_pos rfl,escape,Piece.kind,if_neg others.1,if_neg others.2]
    split <;> rfl
  · have others : ¬ (c = unit 'b' || c = unit 'B') = true := by
      intro same
      simp only [Bool.or_eq_true,decide_eq_true_eq] at same
      obtain rfl | rfl := same
      · exact absent (by decide)
      · exact absent (by decide)
    rw [written,lexeme_literal,Piece.kind,if_neg others]

theorem classEnd_escapedSource (c : CodeUnit) (rest : Units) : classEnd (escapedSource c ++ rest) = classEnd rest := by
  obtain ⟨_,written⟩ | ⟨_,written⟩ := escapedSource_cases c
  · rw [written]
    exact classEnd_escaped c rest
  · rw [written,classEnd_literal]

theorem head_escapedSource (c : CodeUnit) (rest : Units) : (escapedSource c ++ rest).head? ≠ some (unit ':') ∧
      (escapedSource c ++ rest).head? ≠ some (unit '?') := by
  obtain ⟨_,written⟩ | ⟨_,written⟩ := escapedSource_cases c
  · rw [written]
    exact ⟨by simp; decide,by simp; decide⟩
  · rw [written]
    exact head_literal c rest

theorem safeRegexCharacterClassFrom_end : ∀ {t out behind : Units} {a : Bool},
    safeRegexCharacterClassFrom a t = some (out,behind) → (∃ body, classBody t = some (body,behind)) ∧
        ∀ rest, classEnd (out ++ rest) = some rest := by
  intro t
  induction t using classBody.induct with
  | case1 =>
    intro out behind a done
    cases done
  | case2 =>
    intro out behind a done
    cases done
  | case3 escaped t ih =>
    intro out behind a done
    unfold safeRegexCharacterClassFrom at done
    unfold classBody
    rw [if_neg (by decide),if_pos rfl] at done
    rw [if_pos rfl]
    obtain ⟨more,post,same⟩ := map_eq_some_iff.mp done
    obtain ⟨rfl,rfl⟩ := Prod.mk.inj same
    obtain ⟨⟨body,whole⟩,ends⟩ := ih post
    refine ⟨⟨_,congrArg (Option.map _) whole⟩,?_⟩
    intro rest
    rw [append_assoc,classEnd_escapedSource,ends]
  | case4 t other =>
    intro out behind a done
    unfold safeRegexCharacterClassFrom at done
    unfold classBody
    rw [if_pos rfl] at done
    rw [if_neg other,if_pos rfl]
    obtain ⟨rfl,rfl⟩ := Prod.mk.inj (some.inj done)
    refine ⟨⟨_,rfl⟩,?_⟩
    intro rest
    rw [singleton_append,classEnd.eq_def]
    exact (if_neg other).trans (if_pos rfl)
  | case5 c t plain other ih =>
    intro out behind a done
    unfold safeRegexCharacterClassFrom at done
    unfold classBody
    rw [if_neg other,if_neg plain] at done
    rw [if_neg plain,if_neg other]
    split at done
    case isTrue negates =>
      obtain ⟨more,post,same⟩ := map_eq_some_iff.mp done
      obtain ⟨rfl,rfl⟩ := Prod.mk.inj same
      obtain ⟨⟨body,whole⟩,ends⟩ := ih post
      refine ⟨⟨_,by rw [whole]; rfl⟩,?_⟩
      intro rest
      rw [cons_append,classEnd_plain _ (by decide) (by decide),ends]
    case isFalse =>
      obtain ⟨more,post,same⟩ := map_eq_some_iff.mp done
      obtain ⟨rfl,rfl⟩ := Prod.mk.inj same
      obtain ⟨⟨body,whole⟩,ends⟩ := ih post
      refine ⟨⟨_,by rw [whole]; rfl⟩,?_⟩
      intro rest
      rw [append_assoc,classEnd_literal,ends]

theorem regexOperatorToken_cases (c : CodeUnit) :
    (c ∈ units ".()*+?^$" ∧ regexOperatorToken c = some [c]) ∨
      (c ∉ units ".()*+?^$" ∧ regexOperatorToken c = none) := by
  unfold regexOperatorToken
  by_cases mem : c ∈ units ".()*+?^$"
  · exact .inl ⟨mem,if_pos (by simpa using mem)⟩
  · exact .inr ⟨mem,if_neg (by simpa using mem)⟩

theorem lexeme_operator {c : CodeUnit} (mem : c ∈ units ".()*+?^$") {rest : Units}
    (no_mark : ¬ units "?:" <+: rest) : lexeme (c :: rest) = some ((Piece.operator c).kind,rest) := by
  have others : c ≠ unit '\\' ∧ c ≠ unit '[' :=
    of_all_units (fun d => d ≠ unit '\\' ∧ d ≠ unit '[') (by decide) mem
  rw [lexeme,if_neg others.1,if_neg others.2,if_neg no_mark,Piece.kind]
  split
  · rfl
  · rfl

theorem rendered_safeRegexSourceFrom : ∀ {fuel : ℕ} {src safe : Units}, safeRegexSourceFrom fuel src = some safe →
      ∃ read, readAll piece fuel src = some read ∧ Rendered safe (read.map Piece.kind) := by
  intro fuel
  induction fuel with
  | zero =>
    intro src safe done
    cases src with
    | nil =>
      obtain rfl := some.inj done
      exact ⟨[],readAll_nil 0,Rendered.nil⟩
    | cons c src => cases done
  | succ fuel ih =>
    intro src safe done
    cases src with
    | nil =>
      obtain rfl := some.inj done
      exact ⟨[],readAll_nil _,Rendered.nil⟩
    | cons c src =>
      unfold safeRegexSourceFrom at done
      rw [readAll,piece_cons]
      split_ifs at done ⊢ with starts bracket backslash operates
      · obtain ⟨more,post,rfl⟩ := map_eq_some_iff.mp done
        obtain ⟨read,whole,rendered⟩ := ih post
        refine ⟨.uncaptured :: read,by simp [whole],?_⟩
        apply rendered.cons
        · decide
        · rfl
        · simp [units_uncaptured]
          decide
        · simp [units_uncaptured]
          decide
      · obtain ⟨⟨out,behind⟩,inside,rest⟩ := bind_eq_some_iff.mp done
        obtain ⟨more,post,rfl⟩ := map_eq_some_iff.mp rest
        obtain ⟨⟨out,behind⟩,written,same⟩ := map_eq_some_iff.mp inside
        obtain ⟨rfl,rfl⟩ := Prod.mk.inj same
        obtain ⟨⟨body,closed⟩,ends⟩ := safeRegexCharacterClassFrom_end written
        obtain ⟨read,whole,rendered⟩ := ih post
        refine ⟨.characterClass body :: read,by simp [closed,whole],?_⟩
        apply rendered.cons
        · simp
        · rw [cons_append,lexeme,if_neg (by decide),if_pos rfl,ends]
          rfl
        · simp
          decide
        · intro mark
          exact absurd (some.inj mark) (by decide)
      · cases src with
        | nil => cases done
        | cons escaped src =>
          obtain ⟨more,post,rfl⟩ := map_eq_some_iff.mp done
          obtain ⟨read,whole,rendered⟩ := ih post
          refine ⟨.escaped escaped :: read,by simp [whole],?_⟩
          apply rendered.cons
          · exact escapedSource_ne_nil escaped
          · exact lexeme_escapedSource escaped more
          · exact (head_escapedSource escaped more).1
          · exact fun mark => absurd mark (head_escapedSource escaped more).2
      · obtain ⟨more,post,rfl⟩ := map_eq_some_iff.mp done
        obtain ⟨read,whole,rendered⟩ := ih post
        obtain ⟨mem,token⟩ | ⟨_,token⟩ := regexOperatorToken_cases c
        · have other := of_all_units (· ≠ unit ':') (by decide) mem
          rw [token]
          refine ⟨.operator c :: read,by simp [whole],?_⟩
          apply rendered.cons
          · simp
          · exact lexeme_operator mem rendered.no_mark
          · simpa using other
          · intro mark
            rw [some.inj mark]
            rfl
        · rw [token] at operates
          cases operates
      · obtain ⟨more,post,rfl⟩ := map_eq_some_iff.mp done
        obtain ⟨read,whole,rendered⟩ := ih post
        obtain ⟨_,token⟩ | ⟨_,token⟩ := regexOperatorToken_cases c
        · exact absurd (by rw [token]; rfl) operates
        · rw [token]
          refine ⟨.literal c :: read,by simp [whole],?_⟩
          apply rendered.cons
          · exact literal_ne_nil c
          · exact lexeme_literal c more
          · exact (head_literal c more).1
          · exact fun mark => absurd mark (head_literal c more).2

end Rendering
end Keiko.RegexSafety
