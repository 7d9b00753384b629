import Keiko.RegexSafetyPieces

/-! What the scans of a pattern do not see: the repeated groups that nest a repetition and the
repetitions that stand side by side in a pattern the gate accepts. -/
namespace Keiko.RegexSafety
open Keiko.Library Keiko.Library.Pattern List

section Shapes

namespace Piece

def repeats (p : Piece) : Bool := p.kind = .star || p.kind = .plus

end Piece

def matching : ℕ → List Piece → Option (List Piece × List Piece)
  | _, [] => none
  | depth, p :: rest =>
    match p.kind, depth with
    | .closing, 0 => some ([],rest)
    | .closing, depth + 1 => (matching depth rest).map fun more => (p :: more.1,more.2)
    | .opening, depth => (matching (depth + 1) rest).map fun more => (p :: more.1,more.2)
    | _, depth => (matching depth rest).map fun more => (p :: more.1,more.2)

inductive Atom where
  | group (body : List Piece)
  | piece (p : Piece)
  deriving DecidableEq

def atom : List Piece → Option (Atom × List Piece)
  | [] => none
  | p :: rest =>
    match p.kind with
    | .opening => (matching 0 rest).map fun more => (.group more.1,more.2)
    | .single => some (.piece p,rest)
    | _ => none

structure Repetition where
  atom : Atom
  reluctant : Bool
  behind : List Piece

/-- An atom with `+` or `*` behind it. -/
def repetition (here : List Piece) : Option Repetition :=
  (atom here).bind fun found =>
    match found.2 with
    | [] => none
    | mark :: rest =>
      if mark.repeats then match rest with
        | [] => some ⟨found.1,false,[]⟩
        | next :: rest =>
          if next.kind = .optional then some ⟨found.1,true,rest⟩
          else some ⟨found.1,false,next :: rest⟩
      else none

def leavesOpen (opening closing : CodeUnit) : Bool → Units → Bool
  | isOpen, [] => isOpen
  | isOpen, c :: rest =>
    leavesOpen opening closing (if c = opening then true else if c = closing then false else isOpen) rest

/-- The scans do not see that the atom is repeated. -/
def Atom.unseen : Atom → Bool
  | group body => !leavesOpen (unit '(') (unit ')') true (body.flatMap Piece.spell)
  | piece (.characterClass body) => !leavesOpen (unit '[') (unit ']') true body
  | piece (.literal c) => regexMetaChars.contains c
  | piece (.operator c) => regexMetaChars.contains c
  | piece (.escaped c) => CodeUnit.isLineTerminator c
  | piece .uncaptured => false

/-- A repeated group with a repetition in it, closed where the delimiter scan is outside of a
pair. -/
def MissedNesting (here : List Piece) : Prop :=
  ∃ found body, repetition here = some found ∧ found.atom = .group body ∧ body.any Piece.repeats ∧ found.atom.unseen

/-- Two repetitions side by side, the first of them reluctant or one of them unseen. -/
def MissedAdjacency (here : List Piece) : Prop :=
  ∃ first second, repetition here = some first ∧ repetition first.behind = some second ∧
    (first.reluctant || first.atom.unseen || second.atom.unseen)

def Missed (source : Units) : Prop :=
  ∃ read here, pieces source = some read ∧ here <:+ read ∧ (MissedNesting here ∨ MissedAdjacency here)

end Shapes

section Terms

variable {α : Type}

def Somewhere (holds : List α → Prop) (items : List α) : Prop := ∃ here, here <:+ items ∧ holds here

theorem somewhere_cons {holds : List α → Prop} {a : α} {xs : List α} :
    Somewhere holds (a :: xs) ↔ holds (a :: xs) ∨ Somewhere holds xs := by
  constructor
  · intro found
    obtain ⟨here,place,held⟩ := found
    obtain rfl | later := suffix_cons_iff.mp place
    · exact .inl held
    · exact .inr ⟨here,later,held⟩
  · intro found
    obtain held | ⟨here,place,held⟩ := found
    · exact ⟨_,suffix_rfl,held⟩
    · exact ⟨here,place.trans (suffix_cons _ _),held⟩

end Terms

section Matching

theorem matching_plain {p : Piece} (opens : p.kind ≠ .opening) (closes : p.kind ≠ .closing)
    (depth : ℕ) (rest : List Piece) :
    matching depth (p :: rest) = (matching depth rest).map fun more => (p :: more.1,more.2) := by
  cases kind : p.kind with
  | opening => exact absurd kind opens
  | closing => exact absurd kind closes
  | _ => simp only [matching,kind]

theorem matching_opening {p : Piece} (opens : p.kind = .opening) (depth : ℕ) (rest : List Piece) :
    matching depth (p :: rest) =
      (matching (depth + 1) rest).map fun more => (p :: more.1,more.2) := by
  simp only [matching,opens]

theorem matching_closing {p : Piece} (closes : p.kind = .closing) (rest : List Piece) :
    matching 0 (p :: rest) = some ([],rest) ∧ ∀ depth, matching (depth + 1) (p :: rest) =
      (matching depth rest).map fun more => (p :: more.1,more.2) := by
  constructor
  · simp only [matching,closes]
  · intro depth
    simp only [matching,closes]

def Balanced (read : List Piece) : Prop :=
  ∀ depth rest, matching depth (read ++ rest) = (matching depth rest).map fun more => (read ++ more.1,more.2)

theorem Balanced.nil : Balanced [] := by
  intro depth rest
  simp

theorem Balanced.append {a b : List Piece} (one : Balanced a)
    (other : Balanced b) : Balanced (a ++ b) := by
  intro depth rest
  rw [append_assoc,one,other,Option.map_map]
  congr 1
  funext more
  simp

theorem Balanced.plain {p : Piece} (opens : p.kind ≠ .opening) (closes : p.kind ≠ .closing) : Balanced [p] := by
  intro depth rest
  exact matching_plain opens closes depth rest

theorem Balanced.group {p close : Piece} {body : List Piece} (opens : p.kind = .opening)
    (balanced : Balanced body) (closes : close.kind = .closing) :
    Balanced (p :: body ++ [close]) := by
  intro depth rest
  rw [append_assoc,cons_append,matching_opening opens,balanced,singleton_append,
    (matching_closing closes rest).2,Option.map_map,Option.map_map]
  congr 1
  funext more
  simp

theorem Balanced.marks {quantifier : Option Quantifier} {marks : List Piece}
    (same : marks.map Piece.kind = quantifierTokens quantifier) : Balanced marks := by
  have plain : ∀ token ∈ quantifierTokens quantifier, token ≠ .opening ∧ token ≠ .closing := by
    obtain _ | ⟨⟨⟩ | ⟨⟩ | ⟨⟩,⟨⟩ | ⟨⟩⟩ := quantifier <;> decide
  rw [← same] at plain
  clear same
  induction marks with
  | nil => exact Balanced.nil
  | cons p marks ih =>
    have head := plain p.kind (by simp)
    apply (Balanced.plain head.1 head.2).append
    exact ih fun token mem => plain token (mem_cons_of_mem _ mem)

end Matching

section Splitting

variable {read : List Piece} {quant : Option Quantifier} {terms body : Alternative}

theorem split_assertion (same : read.map Piece.kind = (Alternative.assertion terms).tokens) :
    ∃ p later, read = p :: later ∧ p.kind = .assertion ∧ later.map Piece.kind = terms.tokens :=
  map_eq_cons_iff.mp same

theorem split_single (same : read.map Piece.kind = (Alternative.single quant terms).tokens) :
    ∃ p marks later, read = p :: (marks ++ later) ∧ p.kind = .single ∧
      marks.map Piece.kind = quantifierTokens quant ∧
      later.map Piece.kind = terms.tokens := by
  obtain ⟨p,rest,rfl,kind,tail⟩ := map_eq_cons_iff.mp same
  obtain ⟨marks,later,rfl,marked,others⟩ := map_eq_append_iff.mp tail
  exact ⟨p,marks,later,rfl,kind,marked,others⟩

theorem split_group (same : read.map Piece.kind = (Alternative.group body quant terms).tokens) :
    ∃ p mem close marks later, read = p :: (mem ++ close :: (marks ++ later)) ∧
      p.kind = .opening ∧ mem.map Piece.kind = body.tokens ∧ close.kind = .closing ∧
      marks.map Piece.kind = quantifierTokens quant ∧
      later.map Piece.kind = terms.tokens := by
  rw [Alternative.tokens,append_assoc] at same
  obtain ⟨p,rest,rfl,kind,tail⟩ := map_eq_cons_iff.mp same
  obtain ⟨mem,behind,rfl,bodied,closed⟩ := map_eq_append_iff.mp tail
  obtain ⟨close,behind,rfl,closing,tail⟩ := map_eq_cons_iff.mp closed
  obtain ⟨marks,later,rfl,marked,others⟩ := map_eq_append_iff.mp tail
  exact ⟨p,mem,close,marks,later,rfl,kind,bodied,closing,marked,others⟩

theorem Balanced.of_terms : ∀ {read : List Piece}, read.map Piece.kind = terms.tokens → Balanced read := by
  induction terms with
  | nil =>
    intro read same
    rw [map_eq_nil_iff.mp same]
    exact Balanced.nil
  | assertion terms ih =>
    intro read same
    obtain ⟨p,later,rfl,kind,others⟩ := split_assertion same
    exact (Balanced.plain (by simp [kind]) (by simp [kind])).append (ih others)
  | single quant terms ih =>
    intro read same
    obtain ⟨p,marks,later,rfl,kind,marked,others⟩ := split_single same
    apply (Balanced.plain (by simp [kind]) (by simp [kind])).append
    exact (Balanced.marks marked).append (ih others)
  | group body quant terms inner ih =>
    intro read same
    obtain ⟨p,mem,close,marks,later,rfl,opens,bodied,closes,marked,others⟩ := split_group same
    have whole := (Balanced.group opens (inner bodied) closes).append ((Balanced.marks marked).append (ih others))
    simpa using whole

theorem hasRepetition_terms : ∀ {read : List Piece}, read.map Piece.kind = terms.tokens →
    read.any Piece.repeats = terms.hasRepetition := by
  have marks_any : ∀ {quant : Option Quantifier} {marks : List Piece},
      marks.map Piece.kind = quantifierTokens quant →
        marks.any Piece.repeats = Alternative.unbounded quant := by
    intro quant marks same
    have kinds : marks.any Piece.repeats = (marks.map Piece.kind).any fun token => token = .star || token = .plus := by
      rw [any_map]
      rfl
    rw [kinds,same]
    obtain _ | ⟨⟨⟩ | ⟨⟩ | ⟨⟩,⟨⟩ | ⟨⟩⟩ := quant <;> decide
  induction terms with
  | nil =>
    intro read same
    rw [map_eq_nil_iff.mp same]
    rfl
  | assertion terms ih =>
    intro read same
    obtain ⟨p,later,rfl,kind,others⟩ := split_assertion same
    rw [any_cons,ih others,Piece.repeats,kind]
    rfl
  | single quant terms ih =>
    intro read same
    obtain ⟨p,marks,later,rfl,kind,marked,others⟩ := split_single same
    rw [any_cons,any_append,ih others,marks_any marked,Piece.repeats,kind]
    rfl
  | group body quant terms inner ih =>
    intro read same
    obtain ⟨p,mem,close,marks,later,rfl,opens,bodied,closes,marked,others⟩ := split_group same
    rw [any_cons,any_append,any_cons,any_append,ih others,inner bodied,
      marks_any marked,Piece.repeats,opens,Piece.repeats,closes,Alternative.hasRepetition]
    cases Alternative.unbounded quant <;> cases body.hasRepetition <;> rfl

end Splitting

section Repetitions

variable {here later marks read rest : List Piece} {found : Atom} {quant : Option Quantifier} {terms : Alternative}

theorem atom_single {p : Piece} (kind : p.kind = .single) (rest : List Piece) :
    atom (p :: rest) = some (.piece p,rest) := by
  simp only [atom,kind]

theorem atom_group {p close : Piece} {mem : List Piece} (opens : p.kind = .opening)
    (balanced : Balanced mem) (closes : close.kind = .closing) (rest : List Piece) :
    atom (p :: (mem ++ close :: rest)) = some (.group mem,rest) := by
  simp only [atom,opens]
  rw [balanced,(matching_closing closes rest).1]
  simp

theorem repetition_plain {p : Piece} (opens : p.kind ≠ .opening) (single : p.kind ≠ .single)
    (rest : List Piece) : repetition (p :: rest) = none := by
  cases kind : p.kind with
  | opening => exact absurd kind opens
  | single => exact absurd kind single
  | _ => simp only [repetition,atom,kind,Option.bind_none]

theorem repetition_unbounded (head : atom here = some (found,marks ++ later))
    (marked : marks.map Piece.kind = quantifierTokens quant)
    (unbounded : Alternative.unbounded quant = true)
    (ends : ∀ p ∈ later.head?, count? p.kind = none) :
    ∃ reluctant, repetition here = some ⟨found,reluctant,later⟩ := by
  have next : ∀ {mark : Piece}, mark.repeats = true → marks = [mark] → repetition here = some ⟨found,false,later⟩ := by
    intro mark repeats alone
    rw [repetition,head,alone]
    cases later with
    | nil => simp [repeats]
    | cons p later =>
      have other : p.kind ≠ .optional := by
        intro same
        have counts := ends p rfl
        rw [same] at counts
        cases counts
      simp [repeats,other]
  have lazily : ∀ {mark p : Piece}, mark.repeats = true → p.kind = .optional → marks = [mark,p] →
      repetition here = some ⟨found,true,later⟩ := by
    intro mark p repeats optional both
    rw [repetition,head,both]
    simp [repeats,optional]
  obtain _ | ⟨count,_ | _⟩ := quant
  · cases unbounded
  · obtain ⟨mark,others,rfl,kind,tail⟩ := map_eq_cons_iff.mp marked
    obtain rfl := map_eq_nil_iff.mp tail
    refine ⟨false,@next mark ?_ rfl⟩
    rw [Piece.repeats,kind]
    cases count with
    | optional => cases unbounded
    | _ => rfl
  · obtain ⟨mark,others,rfl,kind,tail⟩ := map_eq_cons_iff.mp marked
    obtain ⟨p,others,rfl,optional,tail⟩ := map_eq_cons_iff.mp tail
    obtain rfl := map_eq_nil_iff.mp tail
    refine ⟨true,@lazily mark _ ?_ optional rfl⟩
    rw [Piece.repeats,kind]
    cases count with
    | optional => cases unbounded
    | _ => rfl

theorem repetition_bounded (head : atom here = some (found,marks ++ later))
    (marked : marks.map Piece.kind = quantifierTokens quant)
    (bounded : Alternative.unbounded quant = false)
    (ends : ∀ p ∈ later.head?, count? p.kind = none) : repetition here = none := by
  have a : ∀ p ∈ (marks ++ later).head?, p.repeats = false := by
    intro p mem
    cases quant with
    | none =>
      obtain rfl := map_eq_nil_iff.mp marked
      have counts := ends p mem
      rw [Piece.repeats]
      cases kind : p.kind <;> simp_all [count?]
    | some quant =>
      obtain ⟨mark,others,rfl,kind,_⟩ := map_eq_cons_iff.mp marked
      obtain rfl := Option.some.inj mem
      rw [Piece.repeats,kind]
      cases counted : quant.count with
      | optional => rfl
      | _ => simp [Alternative.unbounded,counted] at bounded
  rw [repetition,head]
  cases whole : marks ++ later with
  | nil => rfl
  | cons p others =>
    have never := a p (by rw [whole]; rfl)
    simp [never]

theorem repetition_marks (head : atom here = some (found,marks ++ later))
    (marked : marks.map Piece.kind = quantifierTokens quant)
    (ends : ∀ p ∈ later.head?, count? p.kind = none) :
    (Alternative.unbounded quant = false ∧ repetition here = none) ∨ (Alternative.unbounded quant = true ∧
        ∃ reluctant, repetition here = some ⟨found,reluctant,later⟩) := by
  cases unbounded : Alternative.unbounded quant with
  | false => exact .inl ⟨rfl,repetition_bounded head marked unbounded ends⟩
  | true => exact .inr ⟨rfl,repetition_unbounded head marked unbounded ends⟩

def Ends (rest : List Piece) : Prop := ∀ p ∈ rest.head?, p.kind = .closing

theorem Ends.of_closing {p : Piece} (closes : p.kind = .closing) (rest : List Piece) : Ends (p :: rest) := by
  intro q mem
  obtain rfl := Option.some.inj mem
  exact closes

theorem no_mark_terms (same : read.map Piece.kind = terms.tokens) (ends : Ends rest) :
    ∀ p ∈ (read ++ rest).head?, count? p.kind = none := by
  intro p mem
  cases terms with
  | nil =>
    rw [map_eq_nil_iff.mp same] at mem
    rw [ends p mem]
    rfl
  | assertion terms =>
    obtain ⟨q,later,rfl,kind,_⟩ := split_assertion same
    obtain rfl := Option.some.inj mem
    rw [kind]
    rfl
  | single quant terms =>
    obtain ⟨q,marks,later,rfl,kind,_⟩ := split_single same
    obtain rfl := Option.some.inj mem
    rw [kind]
    rfl
  | group body quant terms =>
    obtain ⟨q,inside,close,marks,later,rfl,kind,_⟩ := split_group same
    obtain rfl := Option.some.inj mem
    rw [kind]
    rfl

theorem repetition_single (same : read.map Piece.kind = (Alternative.single quant terms).tokens)
    (ends : Ends rest) : ∃ p later, later.map Piece.kind = terms.tokens ∧
      ((Alternative.unbounded quant = false ∧ repetition (read ++ rest) = none) ∨
        (Alternative.unbounded quant = true ∧ ∃ reluctant,
          repetition (read ++ rest) = some ⟨.piece p,reluctant,later ++ rest⟩)) := by
  obtain ⟨p,marks,later,rfl,kind,marked,others⟩ := split_single same
  refine ⟨p,later,others,repetition_marks ?_ marked (no_mark_terms others ends)⟩
  rw [cons_append,append_assoc]
  exact atom_single kind _

theorem repetition_group {body : Alternative}
    (same : read.map Piece.kind = (Alternative.group body quant terms).tokens)
    (ends : Ends rest) : ∃ mem later, mem.map Piece.kind = body.tokens ∧ later.map Piece.kind = terms.tokens ∧
      ((Alternative.unbounded quant = false ∧ repetition (read ++ rest) = none) ∨
        (Alternative.unbounded quant = true ∧ ∃ reluctant,
          repetition (read ++ rest) = some ⟨.group mem,reluctant,later ++ rest⟩)) := by
  obtain ⟨p,mem,close,marks,later,rfl,opens,bodied,closes,marked,others⟩ := split_group same
  refine ⟨mem,later,bodied,others,repetition_marks ?_ marked (no_mark_terms others ends)⟩
  have head := atom_group opens (Balanced.of_terms bodied) closes (marks ++ (later ++ rest))
  simpa using head

theorem startsRepeated_terms (same : read.map Piece.kind = terms.tokens) (ends : Ends rest) :
    (repetition (read ++ rest)).isSome = terms.startsRepeated := by
  cases terms with
  | nil =>
    rw [map_eq_nil_iff.mp same]
    cases rest with
    | nil => rfl
    | cons p rest =>
      have closes := ends p rfl
      rw [nil_append,repetition_plain (by simp [closes]) (by simp [closes])]
      rfl
  | assertion terms =>
    obtain ⟨p,later,rfl,kind,_⟩ := split_assertion same
    rw [cons_append,repetition_plain (by simp [kind]) (by simp [kind])]
    rfl
  | single quant terms =>
    obtain ⟨p,later,_,⟨bounded,done⟩ | ⟨unbounded,reluctant,done⟩⟩ := repetition_single same ends
    · rw [done,Alternative.startsRepeated,bounded]
      rfl
    · rw [done,Alternative.startsRepeated,unbounded]
      rfl
  | group body quant terms =>
    obtain ⟨mem,later,_,_,⟨bounded,done⟩ | ⟨unbounded,reluctant,done⟩⟩ :=
      repetition_group same ends
    · rw [done,Alternative.startsRepeated,bounded]
      rfl
    · rw [done,Alternative.startsRepeated,unbounded]
      rfl

end Repetitions

section Places

def Nests (here : List Piece) : Prop :=
  ∃ found body, repetition here = some found ∧ found.atom = .group body ∧ body.any Piece.repeats

def Adjoins (here : List Piece) : Prop :=
  ∃ first second, repetition here = some first ∧ repetition first.behind = some second

theorem nests_starts (here : List Piece) (held : Nests here) : (repetition here).isSome := by
  obtain ⟨found,_,done,_⟩ := held
  rw [done]
  rfl

theorem adjoins_starts (here : List Piece) (held : Adjoins here) : (repetition here).isSome := by
  obtain ⟨found,_,done,_⟩ := held
  rw [done]
  rfl

variable {holds : List Piece → Prop} {value : Alternative → Bool} {terms : Alternative}
  {quantifier : Option Quantifier} {read rest : List Piece}

theorem somewhere_plain (starts : ∀ here, holds here → (repetition here).isSome) {p : Piece}
    (opens : p.kind ≠ .opening) (single : p.kind ≠ .single) (rest : List Piece) :
    Somewhere holds (p :: rest) ↔ Somewhere holds rest := by
  rw [somewhere_cons]
  constructor
  · intro found
    obtain held | later := found
    · have begins := starts _ held
      rw [repetition_plain opens single] at begins
      cases begins
    · exact later
  · exact .inr

theorem somewhere_marks (starts : ∀ here, holds here → (repetition here).isSome) {marks : List Piece}
    (marked : marks.map Piece.kind = quantifierTokens quantifier) (rest : List Piece) :
    Somewhere holds (marks ++ rest) ↔ Somewhere holds rest := by
  have plain : ∀ token ∈ quantifierTokens quantifier, token ≠ .opening ∧ token ≠ .single := by
    obtain _ | ⟨⟨⟩ | ⟨⟩ | ⟨⟩,⟨⟩ | ⟨⟩⟩ := quantifier <;> decide
  rw [← marked] at plain
  clear marked
  induction marks with
  | nil => rfl
  | cons p marks ih =>
    have head := plain p.kind (by simp)
    rw [cons_append,somewhere_plain starts head.1 head.2]
    exact ih fun token mem => plain token (mem_cons_of_mem _ mem)

theorem somewhere_terms (starts : ∀ here, holds here → (repetition here).isSome)
    (value_nil : value .nil = false) (value_assertion : ∀ terms, value (.assertion terms) = value terms)
    (value_single : ∀ quantifier terms read rest,
      read.map Piece.kind = (Alternative.single quantifier terms).tokens → Ends rest →
        (value (.single quantifier terms) = true ↔ holds (read ++ rest) ∨ value terms = true))
    (value_group : ∀ body quantifier terms read rest,
      read.map Piece.kind = (Alternative.group body quantifier terms).tokens → Ends rest →
        (value (.group body quantifier terms) = true ↔ holds (read ++ rest) ∨ value body = true ∨ value terms = true)) : ∀ {read rest : List Piece}, read.map Piece.kind = terms.tokens →
      Ends rest → (Somewhere holds (read ++ rest) ↔ value terms = true ∨ Somewhere holds rest) := by
  induction terms with
  | nil =>
    intro read rest same ends
    rw [map_eq_nil_iff.mp same,value_nil]
    simp
  | assertion terms ih =>
    intro read rest same ends
    obtain ⟨p,later,rfl,kind,others⟩ := split_assertion same
    rw [cons_append,somewhere_plain starts (by simp [kind]) (by simp [kind]),ih others ends,value_assertion]
  | single quantifier terms ih =>
    intro read rest same ends
    have counted := value_single quantifier terms read rest same ends
    obtain ⟨p,marks,later,rfl,kind,marked,others⟩ := split_single same
    rw [cons_append] at counted ⊢
    rw [somewhere_cons,counted,append_assoc,somewhere_marks starts marked,ih others ends]
    tauto
  | group body quantifier terms inner ih =>
    intro read rest same ends
    have counted := value_group body quantifier terms read rest same ends
    obtain ⟨p,mem,close,marks,later,rfl,opens,bodied,closes,marked,others⟩ := split_group same
    rw [cons_append] at counted ⊢
    rw [somewhere_cons,counted,append_assoc,cons_append,inner bodied (Ends.of_closing closes _),
      somewhere_plain starts (by simp [closes]) (by simp [closes]),append_assoc,
      somewhere_marks starts marked,ih others ends]
    tauto

theorem nests_terms (same : read.map Piece.kind = terms.tokens) (ends : Ends rest) :
    Somewhere Nests (read ++ rest) ↔ terms.nestsRepetition = true ∨ Somewhere Nests rest := by
  apply somewhere_terms nests_starts rfl (fun _ => rfl) _ _ same ends
  · intro quantifier terms read rest same ends
    have never : ¬ Nests (read ++ rest) := by
      intro held
      obtain ⟨found,body,started,grouped,_⟩ := held
      obtain ⟨p,later,_,⟨_,done⟩ | ⟨_,reluctant,done⟩⟩ := repetition_single same ends
      · rw [done] at started
        cases started
      · rw [done] at started
        obtain rfl := Option.some.inj started
        cases grouped
    rw [Alternative.nestsRepetition]
    exact (or_iff_right never).symm
  · intro body quantifier terms read rest same ends
    have here : Nests (read ++ rest) ↔ (Alternative.unbounded quantifier && body.hasRepetition) = true := by
      obtain ⟨mem,later,bodied,_,⟨bounded,done⟩ | ⟨unbounded,reluctant,done⟩⟩ :=
        repetition_group same ends
      · rw [bounded]
        constructor
        · intro held
          obtain ⟨found,_,started,_⟩ := held
          rw [done] at started
          cases started
        · intro never
          cases never
      · rw [unbounded,Bool.true_and,← hasRepetition_terms bodied]
        constructor
        · intro held
          obtain ⟨found,_,started,grouped,repeats⟩ := held
          rw [done] at started
          obtain rfl := Option.some.inj started
          obtain rfl := Atom.group.inj grouped
          exact repeats
        · intro repeats
          exact ⟨_,mem,done,rfl,repeats⟩
    rw [here,Alternative.nestsRepetition,Bool.or_eq_true,Bool.or_eq_true,or_assoc]

theorem adjoins_iff {later : List Piece} {found : Atom} (others : later.map Piece.kind = terms.tokens)
    (ends : Ends rest)
    (head : (Alternative.unbounded quantifier = false ∧ repetition (read ++ rest) = none) ∨
      (Alternative.unbounded quantifier = true ∧ ∃ reluctant,
        repetition (read ++ rest) = some ⟨found,reluctant,later ++ rest⟩)) :
    Adjoins (read ++ rest) ↔ (Alternative.unbounded quantifier && terms.startsRepeated) = true := by
  rw [← startsRepeated_terms others ends]
  obtain ⟨bounded,done⟩ | ⟨unbounded,reluctant,done⟩ := head
  · rw [bounded]
    constructor
    · intro held
      obtain ⟨a,_,started,_⟩ := held
      rw [done] at started
      cases started
    · intro never
      cases never
  · rw [unbounded,Bool.true_and,Option.isSome_iff_exists]
    constructor
    · intro held
      obtain ⟨a,b,started,next⟩ := held
      rw [done] at started
      obtain rfl := Option.some.inj started
      exact ⟨b,next⟩
    · intro next
      obtain ⟨b,next⟩ := next
      exact ⟨_,b,done,next⟩

theorem adjoins_terms (same : read.map Piece.kind = terms.tokens) (ends : Ends rest) :
    Somewhere Adjoins (read ++ rest) ↔ terms.adjoinsRepetitions = true ∨ Somewhere Adjoins rest := by
  apply somewhere_terms adjoins_starts rfl (fun _ => rfl) _ _ same ends
  · intro quantifier terms read rest same ends
    obtain ⟨p,later,others,head⟩ := repetition_single same ends
    rw [adjoins_iff others ends head,Alternative.adjoinsRepetitions,Bool.or_eq_true]
  · intro body quantifier terms read rest same ends
    obtain ⟨mem,later,_,others,head⟩ := repetition_group same ends
    rw [adjoins_iff others ends head,Alternative.adjoinsRepetitions,Bool.or_eq_true,Bool.or_eq_true,or_assoc]

end Places
end Keiko.RegexSafety
