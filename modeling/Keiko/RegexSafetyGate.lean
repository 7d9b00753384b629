import Keiko.RegexSafetyScans

/-! The gate against the compiled expression: a pattern that passes the scans compiles without
nested and without neighbouring repetitions exactly when it has none that the scans miss. -/
namespace Keiko.RegexSafety
open Keiko.Library Keiko.Library.Pattern List Option

section Spelling

theorem spell_repeats {mark : Piece} (repeats : mark.repeats = true) :
    ∃ c, mark.spell = [c] ∧ (c = unit '*' ∨ c = unit '+') := by
  cases mark with
  | operator c =>
    refine ⟨c,rfl,?_⟩
    simp only [Piece.repeats,Piece.kind,Pattern.operator] at repeats
    split_ifs at repeats <;> simp_all
  | escaped c =>
    simp only [Piece.repeats,Piece.kind] at repeats
    split_ifs at repeats <;> cases repeats
  | _ => cases repeats

theorem spell_closing {close : Piece} (closes : close.kind = .closing) : close.spell = [unit ')'] := by
  cases close with
  | operator c =>
    simp only [Piece.kind,Pattern.operator] at closes
    rw [Piece.spell]
    split_ifs at closes
    simp_all
  | escaped c =>
    simp only [Piece.kind] at closes
    split_ifs at closes
  | _ => cases closes

theorem leavesOpen_opening {p : Piece} (opens : p.kind = .opening) (isOpen : Bool) :
    leavesOpen (unit '(') (unit ')') isOpen p.spell = true := by
  cases p with
  | operator c =>
    simp only [Piece.kind,Pattern.operator] at opens
    split_ifs at opens with same
    rw [same]
    rfl
  | uncaptured =>
    rw [Piece.spell,units_uncaptured]
    rfl
  | escaped c =>
    simp only [Piece.kind] at opens
    split_ifs at opens
  | _ => cases opens

end Spelling

section Repeated

theorem split_matching : ∀ {rest body behind : List Piece} {depth : ℕ}, matching depth rest = some (body,behind) →
      ∃ close, close.kind = .closing ∧ rest = body ++ close :: behind := by
  intro rest
  induction rest with
  | nil =>
    intro body behind depth done
    cases done
  | cons p rest ih =>
    intro body behind depth done
    have post : ∀ depth, (matching depth rest).map (fun more => (p :: more.1,more.2)) =
        some (body,behind) → ∃ close, close.kind = .closing ∧ p :: rest = body ++ close :: behind := by
      intro depth done
      obtain ⟨more,inner,same⟩ := map_eq_some_iff.mp done
      obtain ⟨rfl,rfl⟩ := Prod.mk.inj same
      obtain ⟨close,closes,whole⟩ := ih inner
      exact ⟨close,closes,by rw [whole]; rfl⟩
    cases kind : p.kind with
    | opening =>
      rw [matching_opening kind] at done
      exact post _ done
    | closing =>
      cases depth with
      | zero =>
        rw [(matching_closing kind rest).1] at done
        obtain ⟨rfl,rfl⟩ := Prod.mk.inj (some.inj done)
        exact ⟨p,kind,rfl⟩
      | succ depth =>
        rw [(matching_closing kind rest).2] at done
        exact post _ done
    | _ =>
      rw [matching_plain (by simp [kind]) (by simp [kind])] at done
      exact post _ done

def Atom.Spans : Atom → List Piece → Prop
  | group body, read => ∃ opening close, opening.kind = .opening ∧ close.kind = .closing ∧
      read = opening :: body ++ [close]
  | piece p, read => p.kind = .single ∧ read = [p]

theorem spans_of_atom {here behind : List Piece} {hit : Atom}
    (done : atom here = some (hit,behind)) : ∃ read, hit.Spans read ∧ here = read ++ behind := by
  cases here with
  | nil => cases done
  | cons p rest =>
    simp only [atom] at done
    cases kind : p.kind with
    | opening =>
      rw [kind] at done
      obtain ⟨more,inner,same⟩ := map_eq_some_iff.mp done
      obtain ⟨rfl,rfl⟩ := Prod.mk.inj same
      obtain ⟨close,closes,rfl⟩ := split_matching inner
      exact ⟨_,⟨p,close,kind,closes,rfl⟩,by simp⟩
    | single =>
      rw [kind] at done
      obtain ⟨rfl,rfl⟩ := Prod.mk.inj (some.inj done)
      exact ⟨[p],⟨kind,rfl⟩,rfl⟩
    | _ =>
      rw [kind] at done
      cases done

theorem spans_of_repetition {here : List Piece} {hit : Repetition}
    (done : repetition here = some hit) : ∃ read mark tail, hit.atom.Spans read ∧
      mark.repeats = true ∧ here = read ++ mark :: tail ∧
      (hit.reluctant = false → hit.behind = tail) := by
  obtain ⟨⟨taken,behind⟩,head,marked⟩ := bind_eq_some_iff.mp done
  obtain ⟨read,spans,rfl⟩ := spans_of_atom head
  dsimp only at marked
  cases behind with
  | nil => cases marked
  | cons mark tail =>
    refine ⟨read,mark,tail,?_⟩
    dsimp only at marked
    split_ifs at marked with repeats
    cases tail with
    | nil =>
      obtain rfl := some.inj marked
      exact ⟨spans,repeats,rfl,fun _ => rfl⟩
    | cons next tail =>
      dsimp only at marked
      split_ifs at marked with optional
      · obtain rfl := some.inj marked
        refine ⟨spans,repeats,rfl,?_⟩
        intro never
        cases never
      · obtain rfl := some.inj marked
        exact ⟨spans,repeats,rfl,fun _ => rfl⟩

end Repeated

section Delimiters

variable {opening closing : CodeUnit}

theorem passes_append {isOpen : Bool} {a b : Units}
    (passes : hasQuantifiedDelimiterPairFrom opening closing isOpen (a ++ b) = false) :
    hasQuantifiedDelimiterPairFrom opening closing (leavesOpen opening closing isOpen a) b = false := by
  induction a generalizing isOpen with
  | nil => exact passes
  | cons c a ih =>
    rw [cons_append,hasQuantifiedDelimiterPairFrom] at passes
    rw [leavesOpen]
    split_ifs at passes ⊢
    · exact ih passes
    · exact ih (Bool.or_eq_false_iff.mp passes).2
    · exact ih passes

theorem closed_of_passes {isOpen : Bool} {body rest : Units} {mark : CodeUnit}
    (marked : mark = unit '*' ∨ mark = unit '+') (differ : opening ≠ closing)
    (passes : hasQuantifiedDelimiterPairFrom opening closing isOpen (body ++ closing :: mark :: rest) = false) :
    leavesOpen opening closing isOpen body = false := by
  have behind := passes_append passes
  have quantifies : groupOrClassQuantifierChars.contains mark = true := by
    obtain rfl | rfl := marked <;> decide
  rw [hasQuantifiedDelimiterPairFrom,if_neg differ.symm,if_pos rfl,Bool.or_eq_false_iff] at behind
  have outside := behind.1
  rwa [head?_cons,any_some,quantifies,Bool.and_true] at outside

end Delimiters

section Atoms

theorem atomEnd_spell {p : Piece} (single : p.kind = .single) (seen : Atom.unseen (.piece p) = false)
    (no_class : ∀ body, p ≠ .characterClass body) (rest : Units) :
    atomEnd (p.spell ++ rest) = some rest := by
  have plain : ∀ c : CodeUnit, regexMetaChars.contains c = false → atomEnd (c :: rest) = some rest := by
    intro c visible
    have escapes : c ≠ unit '\\' := by
      intro same
      rw [same] at visible
      exact absurd visible (by decide)
    rw [atomEnd.eq_def]
    simp only [if_neg escapes,visible,Bool.false_eq_true,if_false]
  cases p with
  | operator c => exact plain c seen
  | uncaptured => cases single
  | literal c => exact plain c seen
  | escaped c =>
    have visible : CodeUnit.isLineTerminator c = false := seen
    rw [Piece.spell,atomEnd.eq_def]
    simp [visible]
  | characterClass body => exact absurd rfl (no_class body)

theorem quantifierEnd_spell {mark : Piece} (repeats : mark.repeats = true) (rest : Units) :
    quantifierEnd (mark.spell ++ rest) = some rest := by
  obtain ⟨c,spelled,rfl | rfl⟩ := spell_repeats repeats
  · rw [spelled]
    rfl
  · rw [spelled]
    rfl

theorem hasAdjacentQuantifiedAtoms_append {a b rest : Units} (some_text : b ≠ [])
    (adjacent : (quantifiedAtomEnd b).bind quantifiedAtomEnd = some rest) :
    hasAdjacentQuantifiedAtoms (a ++ b) = true := by
  induction a with
  | nil =>
    obtain ⟨c,t,rfl⟩ := exists_cons_of_ne_nil some_text
    rw [nil_append,hasAdjacentQuantifiedAtoms,adjacent]
    rfl
  | cons c a ih => rw [cons_append,hasAdjacentQuantifiedAtoms,ih,Bool.or_true]

end Atoms

section Gate

variable {source : Units} {read here : List Piece}

theorem regexSafetyIssue_accepted (accepted : regexSafetyIssue source = none) :
    hasDangerousGroupOrClassRepetition source = false ∧ hasAdjacentQuantifiedAtoms source = false ∧
      ∃ safeSource terms, safeRegexSource source = some safeSource ∧ expression safeSource = some terms := by
  unfold regexSafetyIssue at accepted
  split_ifs at accepted with long dangerous adjacent concatenated
  refine ⟨by simpa using dangerous,by simpa using adjacent,?_⟩
  cases written : safeRegexSource source with
  | none =>
    rw [written] at accepted
    cases accepted
  | some safeSource =>
    rw [written] at accepted
    dsimp only at accepted
    cases compiled : expression safeSource with
    | none =>
      rw [newRegExp,compiled] at accepted
      cases accepted
    | some terms => exact ⟨safeSource,terms,rfl,compiled⟩

theorem spell_here (spelled : pieces source = some read) (place : here <:+ read) :
    ∃ pre, source = pre ++ here.flatMap Piece.spell := by
  obtain ⟨pre,rfl⟩ := place
  refine ⟨pre.flatMap Piece.spell,?_⟩
  rw [spell_pieces spelled,flatMap_append]

/-- In a pattern that passes the delimiter scans no repeated group and no repeated class is seen. -/
theorem unseen_of_passes (passes : hasDangerousGroupOrClassRepetition source = false)
    (spelled : pieces source = some read) (place : here <:+ read) {hit : Repetition}
    (done : repetition here = some hit) :
    (∀ body, hit.atom = .group body → hit.atom.unseen = true) ∧
      ∀ body, hit.atom = .piece (.characterClass body) → hit.atom.unseen = true := by
  obtain ⟨pre,whole⟩ := spell_here spelled place
  obtain ⟨groups,classes⟩ := Bool.or_eq_false_iff.mp passes
  obtain ⟨atomPieces,mark,tail,spans,repeats,rfl,_⟩ := spans_of_repetition done
  obtain ⟨c,marked,sign⟩ := spell_repeats repeats
  rw [hasQuantifiedDelimiterPair,whole,flatMap_append,flatMap_cons,marked] at groups classes
  replace groups := passes_append groups
  replace classes := passes_append classes
  constructor
  · intro body grouped
    rw [grouped] at spans ⊢
    obtain ⟨opening,close,opens,closes,rfl⟩ := spans
    rw [cons_append,flatMap_cons,flatMap_append,flatMap_singleton,
      spell_closing closes,append_assoc,append_assoc] at groups
    replace groups := passes_append groups
    rw [leavesOpen_opening opens] at groups
    rw [Atom.unseen,closed_of_passes sign (by decide) groups]
    rfl
  · intro body classed
    rw [classed] at spans ⊢
    obtain ⟨_,rfl⟩ := spans
    rw [flatMap_singleton,Piece.spell,append_assoc,cons_append,hasQuantifiedDelimiterPairFrom,if_pos rfl] at classes
    rw [Atom.unseen,closed_of_passes sign (by decide) classes]
    rfl

theorem quantifiedAtomEnd_of_repetition (passes : hasDangerousGroupOrClassRepetition source = false)
    (spelled : pieces source = some read) (place : here <:+ read) {hit : Repetition}
    (done : repetition here = some hit) (seen : hit.atom.unseen = false) :
    ∃ tail, quantifiedAtomEnd (here.flatMap Piece.spell) = some (tail.flatMap Piece.spell) ∧
      tail <:+ here ∧ here.flatMap Piece.spell ≠ [] ∧
      (hit.reluctant = false → hit.behind = tail) := by
  have sight := unseen_of_passes passes spelled place done
  obtain ⟨atomPieces,mark,tail,spans,repeats,rfl,behind⟩ := spans_of_repetition done
  refine ⟨tail,?_⟩
  cases taken : hit.atom with
  | group body =>
    rw [sight.1 body taken] at seen
    cases seen
  | piece p =>
    rw [taken] at spans seen
    obtain ⟨single,rfl⟩ := spans
    have no_class : ∀ body, p ≠ .characterClass body := by
      intro body same
      have unseen := sight.2 body (by rw [taken,same])
      rw [taken,seen] at unseen
      cases unseen
    rw [singleton_append,flatMap_cons,flatMap_cons,quantifiedAtomEnd,
      atomEnd_spell single seen no_class,bind_some,quantifierEnd_spell repeats]
    refine ⟨rfl,(suffix_cons _ _).trans (suffix_cons _ _),?_,behind⟩
    obtain ⟨c,marked,_⟩ := spell_repeats repeats
    simp [marked]

theorem nests_iff_missed (passes : hasDangerousGroupOrClassRepetition source = false)
    (spelled : pieces source = some read) (place : here <:+ read) :
    Nests here ↔ MissedNesting here := by
  constructor
  · intro nested
    obtain ⟨hit,body,done,grouped,repeats⟩ := nested
    exact ⟨hit,body,done,grouped,repeats,(unseen_of_passes passes spelled place done).1 body grouped⟩
  · intro missed
    obtain ⟨hit,body,done,grouped,repeats,_⟩ := missed
    exact ⟨hit,body,done,grouped,repeats⟩

theorem adjoins_iff_missed (passes : hasDangerousGroupOrClassRepetition source = false)
    (apart : hasAdjacentQuantifiedAtoms source = false) (spelled : pieces source = some read)
    (place : here <:+ read) : Adjoins here ↔ MissedAdjacency here := by
  constructor
  · intro adjoined
    obtain ⟨a,b,done,next⟩ := adjoined
    refine ⟨a,b,done,next,?_⟩
    by_contra visible
    simp only [Bool.or_eq_true,not_or,Bool.not_eq_true] at visible
    obtain ⟨⟨eager,seen⟩,followed⟩ := visible
    obtain ⟨tail,one,post,some_text,behind⟩ :=
      quantifiedAtomEnd_of_repetition passes spelled place done seen
    rw [behind eager] at next
    obtain ⟨last,other,_⟩ :=
      quantifiedAtomEnd_of_repetition passes spelled (post.trans place) next followed
    obtain ⟨pre,whole⟩ := spell_here spelled place
    have both : (quantifiedAtomEnd (here.flatMap Piece.spell)).bind quantifiedAtomEnd =
        some (last.flatMap Piece.spell) := by
      rw [one,bind_some,other]
    have seen := @hasAdjacentQuantifiedAtoms_append pre _ _ some_text both
    rw [← whole,apart] at seen
    cases seen
  · intro missed
    obtain ⟨a,b,done,next,_⟩ := missed
    exact ⟨a,b,done,next⟩

theorem somewhere_nil {holds : List Piece → Prop}
    (starts : ∀ here, holds here → (repetition here).isSome) : ¬ Somewhere holds [] := by
  intro hit
  obtain ⟨here,place,held⟩ := hit
  rw [suffix_nil.mp place] at held
  have begins := starts [] held
  cases begins

/-- In what the gate lets through, the compiled expression is free of nested and of neighbouring
repetitions just when the pattern has none of those that the scans miss. -/
theorem compiled_safe_iff (source : Units) (caseSensitive : Bool)
    (accepted : regexSafetyIssue source = none) :
    ∃ compiled, compileSafeWorkspaceSearchRegex source caseSensitive = .ok compiled ∧
      ((compiled.expression.nestsRepetition = false ∧
        compiled.expression.adjoinsRepetitions = false) ↔ ¬ Missed source) := by
  obtain ⟨passes,apart,safeSource,terms,written,compiled⟩ := regexSafetyIssue_accepted accepted
  obtain ⟨read,spelled,rendered⟩ := rendered_safeRegexSourceFrom written
  have kinds : read.map Piece.kind = terms.tokens :=
    some.inj ((rendered.lexed _ le_rfl).symm.trans (tokens_of_expression compiled))
  have ends : Ends [] := by
    intro p member
    cases member
  have nested : Somewhere Nests read ↔ terms.nestsRepetition = true := by
    have counted := nests_terms kinds ends
    rwa [append_nil,or_iff_left (somewhere_nil nests_starts)] at counted
  have adjoined : Somewhere Adjoins read ↔ terms.adjoinsRepetitions = true := by
    have counted := adjoins_terms kinds ends
    rwa [append_nil,or_iff_left (somewhere_nil adjoins_starts)] at counted
  have missed : Missed source ↔ Somewhere Nests read ∨ Somewhere Adjoins read := by
    constructor
    · intro found
      obtain ⟨other,here,again,place,held⟩ := found
      obtain rfl := some.inj (again.symm.trans spelled)
      rw [← nests_iff_missed passes spelled place,← adjoins_iff_missed passes apart spelled place]
        at held
      obtain nests | adjoins := held
      · exact .inl ⟨here,place,nests⟩
      · exact .inr ⟨here,place,adjoins⟩
    · intro found
      obtain ⟨here,place,nests⟩ | ⟨here,place,adjoins⟩ := found
      · exact ⟨read,here,spelled,place,.inl ((nests_iff_missed passes spelled place).mp nests)⟩
      · exact ⟨read,here,spelled,place,
          .inr ((adjoins_iff_missed passes apart spelled place).mp adjoins)⟩
  refine ⟨⟨terms,if caseSensitive then "g" else "gi"⟩,?_,?_⟩
  · rw [compileSafeWorkspaceSearchRegex,accepted]
    simp only [written,newRegExp,compiled,map_some]
  · rw [missed,nested,adjoined]
    simp

/-- The parentheses around the inner group hide that it is repeated. -/
theorem compiled_safe_iff_nested_group :
    regexSafetyIssue (units "((a+))+") = none ∧
      ∃ compiled, compileSafeWorkspaceSearchRegex (units "((a+))+") true = .ok compiled ∧
        ((compiled.expression.nestsRepetition = false ∧
          compiled.expression.adjoinsRepetitions = false) ↔ ¬ Missed (units "((a+))+")) :=
  ⟨by decide +kernel,compiled_safe_iff (units "((a+))+") true (by decide +kernel)⟩

theorem nested_group_accepted :
    ¬ ∀ (source : Units) (caseSensitive : Bool) (compiled : RegExp),
      regexSafetyIssue source = none →
        compileSafeWorkspaceSearchRegex source caseSensitive = .ok compiled →
          compiled.expression.nestsRepetition = false ∧
            compiled.expression.adjoinsRepetitions = false := by
  intro safe
  have nests := (safe (units "((a+))+") true
    ⟨.group (.group (.single (some ⟨.plus,false⟩) .nil) none .nil) (some ⟨.plus,false⟩) .nil,"g"⟩
    (by decide +kernel) (by decide +kernel)).1
  cases nests

end Gate
end Keiko.RegexSafety
