import Keiko.Library.UnitText

/-! Filename patterns, matched by states that each character of the path moves once, from left to
right in place. A state holds when the tokens up to it take what was read so far. -/
namespace Keiko.FilenameGlob
open Keiko.Library List

structure GlobToken where
  repeats : Bool
  accepts : Nat → Bool

def star : Nat := '*'.toNat

def question : Nat := '?'.toNat

def slash : Nat := '/'.toNat

def isLineTerminator (c : Nat) : Bool := [0x0a,0x0d,0x2028,0x2029].contains c

def segmentGlobToken : GlobToken := ⟨true,(· != slash)⟩

def recursiveGlobToken : GlobToken := ⟨true,fun c => !isLineTerminator c⟩

section Globs

variable (folds : Nat → Nat → Bool) (caseSensitive : Bool)

/-- The case folding of the expression for a literal is `folds`. -/
def singleGlobToken (c : Nat) : GlobToken :=
  if c = star then segmentGlobToken
  else if c = question then { segmentGlobToken with repeats := false }
  else if caseSensitive then ⟨false,(· == c)⟩
  else ⟨false,folds c⟩

def afterStars (pattern : List Nat) : List Nat :=
  if pattern.head? = some slash then pattern.tail else pattern

/-- The fuel is the length of the pattern. -/
def filenameGlobTokensFrom : (fuel : ℕ) → List Nat → List GlobToken
  | 0,_ => []
  | _,[] => []
  | fuel + 1,c :: rest =>
    if c = star ∧ rest.head? = some star then recursiveGlobToken :: filenameGlobTokensFrom fuel (afterStars rest.tail)
    else singleGlobToken folds caseSensitive c :: filenameGlobTokensFrom fuel rest

def filenameGlobTokens (pattern : List Nat) : List GlobToken :=
  filenameGlobTokensFrom folds caseSensitive pattern.length pattern

/-- The new states behind the first: `left` is the new state in front, `previous` the old one. -/
def advanceFrom (character : Nat) : List GlobToken → (left previous : Bool) → List Bool → List Bool
  | token :: tokens,left,previous,current :: states =>
    let next := if token.repeats then left || (current && token.accepts character)
      else previous && token.accepts character
    next :: advanceFrom character tokens next current states
  | _,_,_,_ => []

def advanceGlobStates (tokens : List GlobToken) (states : List Bool) (character : Nat) : List Bool :=
  false :: advanceFrom character tokens false (states.headD false) states.tail

def startFrom : List GlobToken → (left : Bool) → List Bool
  | [],_ => []
  | token :: tokens,left =>
    let state := token.repeats && left
    state :: startFrom tokens state

def matchesFilenameGlob (tokens : List GlobToken) (path : List Nat) : Bool :=
  (path.foldl (advanceGlobStates tokens) (true :: startFrom tokens true)).getLast? == some true

def compileGlob (pattern path : Units) : Bool :=
  matchesFilenameGlob (filenameGlobTokens folds caseSensitive (Units.codePoints pattern))
    (Units.codePoints path)

inductive Takes : (pattern path : List Nat) → Prop where
  | nil : Takes [] []
  | recursive {pattern piece path : List Nat} (plain : ∀ c ∈ piece, isLineTerminator c = false)
      (rest : Takes (afterStars pattern) path) : Takes (star :: star :: pattern) (piece ++ path)
  | segment {pattern piece path : List Nat} (alone : pattern.head? ≠ some star)
      (plain : slash ∉ piece) (rest : Takes pattern path) : Takes (star :: pattern) (piece ++ path)
  | one {pattern path : List Nat} {d : Nat} (plain : d ≠ slash) (rest : Takes pattern path) :
      Takes (question :: pattern) (d :: path)
  | literal {pattern path : List Nat} {c d : Nat} (other : c ≠ star ∧ c ≠ question)
      (same : if caseSensitive then d = c else folds c d = true) (rest : Takes pattern path) :
      Takes (c :: pattern) (d :: path)

end Globs

section Languages

variable {token : GlobToken} {tokens : List GlobToken} {language : List Nat → Prop} {text piece : List Nat} {c : Nat}

def GlobToken.Takes (token : GlobToken) (piece : List Nat) : Prop :=
  if token.repeats then ∀ c ∈ piece, token.accepts c = true
  else ∃ c, piece = [c] ∧ token.accepts c = true

def Splits : List GlobToken → List Nat → Prop
  | [],path => path = []
  | token :: tokens,path => ∃ piece rest, path = piece ++ rest ∧ token.Takes piece ∧ Splits tokens rest

def behind (language : List Nat → Prop) (token : GlobToken) (text : List Nat) : Prop :=
  ∃ front piece, text = front ++ piece ∧ language front ∧ token.Takes piece

theorem behind_nil : behind language token [] ↔ token.repeats = true ∧ language [] := by
  simp only [behind,nil_eq_append_iff,GlobToken.Takes]
  constructor
  · intro ⟨_,_,⟨rfl,rfl⟩,inside,taken⟩
    refine ⟨?_,inside⟩
    by_contra single
    rw [if_neg single] at taken
    obtain ⟨_,same,_⟩ := taken
    cases same
  · intro ⟨repeats,inside⟩
    exact ⟨[],[],⟨rfl,rfl⟩,inside,by simp [repeats]⟩

theorem behind_snoc : behind language token (text ++ [c]) ↔
    if token.repeats then language (text ++ [c]) ∨ behind language token text ∧ token.accepts c = true
    else language text ∧ token.accepts c = true := by
  simp only [behind,GlobToken.Takes]
  cases token.repeats with
  | true =>
    simp only [if_true]
    constructor
    · intro ⟨front,piece,same,inside,taken⟩
      rcases eq_nil_or_concat piece with rfl | ⟨piece,d,rfl⟩
      · rw [append_nil] at same
        exact Or.inl (same ▸ inside)
      · rw [concat_eq_append,← append_assoc] at same
        obtain ⟨rfl,last⟩ := append_inj' same rfl
        cases last
        simp only [concat_eq_append,forall_mem_append,forall_mem_singleton] at taken
        exact Or.inr ⟨⟨front,piece,rfl,inside,taken.1⟩,taken.2⟩
    · intro either
      rcases either with inside | ⟨⟨front,piece,rfl,inside,taken⟩,accepted⟩
      · exact ⟨_,[],(append_nil _).symm,inside,by simp⟩
      · refine ⟨front,piece ++ [c],append_assoc _ _ _,inside,?_⟩
        simpa only [forall_mem_append,forall_mem_singleton] using ⟨taken,accepted⟩
  | false =>
    simp only [Bool.false_eq_true,if_false]
    constructor
    · intro ⟨front,piece,same,inside,d,single,accepted⟩
      rw [single] at same
      obtain ⟨rfl,last⟩ := append_inj' same rfl
      cases last
      exact ⟨inside,accepted⟩
    · intro ⟨inside,accepted⟩
      exact ⟨text,[c],rfl,inside,c,rfl,accepted⟩

def languages : (List Nat → Prop) → List GlobToken → List (List Nat → Prop)
  | _,[] => []
  | language,token :: tokens => behind language token :: languages (behind language token) tokens

def Hold (states : List Bool) (languages : List (List Nat → Prop)) (text : List Nat) : Prop :=
  Forall₂ (fun state language => state = true ↔ language text) states languages

theorem startFrom_hold {left : Bool} (first : left = true ↔ language []) :
    Hold (startFrom tokens left) (languages language tokens) [] := by
  induction tokens generalizing left language with
  | nil => exact .nil
  | cons token tokens ih =>
    have next : (token.repeats && left) = true ↔ behind language token [] := by
      rw [behind_nil,Bool.and_eq_true,first]
    exact .cons next (ih next)

theorem advanceFrom_hold {states : List Bool} {left previous : Bool}
    (new : left = true ↔ language (text ++ [c])) (old : previous = true ↔ language text)
    (hold : Hold states (languages language tokens) text) :
    Hold (advanceFrom c tokens left previous states) (languages language tokens) (text ++ [c]) := by
  induction tokens generalizing states left previous language with
  | nil =>
    cases hold
    exact .nil
  | cons token tokens ih =>
    cases hold with
    | @cons current _ states _ here rest =>
      have next : (if token.repeats then left || (current && token.accepts c)
          else previous && token.accepts c) = true ↔ behind language token (text ++ [c]) := by
        rw [behind_snoc,← new,← old,← here]
        split <;> simp
      exact .cons next (ih next here rest)

theorem foldl_hold {states : List Bool} (path : List Nat)
    (hold : Hold states ((· = []) :: languages (· = []) tokens) text) :
    Hold (path.foldl (advanceGlobStates tokens) states) ((· = []) :: languages (· = []) tokens) (text ++ path) := by
  induction path generalizing states text with
  | nil => rwa [append_nil]
  | cons c path ih =>
    rw [append_cons,foldl_cons]
    apply ih
    cases hold with
    | cons here rest =>
      exact .cons (by simp) (advanceFrom_hold (by simp) here rest)

/-- The last state tells whether the text goes on behind the first language as the tokens take it. -/
theorem getLast?_hold {first : Bool} {states : List Bool}
    (hold : Hold (first :: states) (language :: languages language tokens) text) :
    (first :: states).getLast? = some true ↔
      ∃ front rest, text = front ++ rest ∧ language front ∧ Splits tokens rest := by
  induction tokens generalizing first states language with
  | nil =>
    cases hold with
    | cons here rest =>
      cases rest
      simp [here,Splits]
  | cons token tokens ih =>
    cases hold with
    | cons here rest =>
      cases rest with
      | cons next rest =>
        rw [getLast?_cons_cons,ih (.cons next rest)]
        simp only [Splits,behind]
        constructor
        · intro taken
          obtain ⟨_,rest,same,⟨front,piece,rfl,inside,taken⟩,splits⟩ := taken
          rw [append_assoc] at same
          exact ⟨front,_,same,inside,piece,rest,rfl,taken,splits⟩
        · intro taken
          obtain ⟨front,_,same,inside,piece,rest,rfl,taken,splits⟩ := taken
          rw [← append_assoc] at same
          exact ⟨_,rest,same,⟨front,piece,rfl,inside,taken⟩,splits⟩

theorem matchesFilenameGlob_iff (path : List Nat) : matchesFilenameGlob tokens path = true ↔ Splits tokens path := by
  have start : Hold (true :: startFrom tokens true) ((· = []) :: languages (· = []) tokens) [] :=
    .cons (by simp) (startFrom_hold (by simp))
  have moved := foldl_hold path start
  rw [matchesFilenameGlob,beq_iff_eq]
  generalize path.foldl (advanceGlobStates tokens) (true :: startFrom tokens true) = states at moved ⊢
  cases states with
  | nil => cases moved
  | cons first states => simpa using getLast?_hold moved

end Languages

section Patterns

variable {folds : Nat → Nat → Bool} {caseSensitive : Bool}

theorem takes_single {c : Nat} {rest path : List Nat} (alone : ¬ (c = star ∧ rest.head? = some star)) :
    Takes folds caseSensitive (c :: rest) path ↔ ∃ piece later, path = piece ++ later ∧
      (singleGlobToken folds caseSensitive c).Takes piece ∧ Takes folds caseSensitive rest later := by
  have differ : question ≠ star := by decide
  constructor
  · intro taken
    cases taken with
    | recursive => exact absurd ⟨rfl,rfl⟩ alone
    | segment _ plain later =>
      refine ⟨_,_,rfl,?_,later⟩
      simp only [GlobToken.Takes,singleGlobToken,segmentGlobToken,if_true,bne_iff_ne]
      exact fun d mem same => plain (same ▸ mem)
    | @one _ _ d plain later =>
      exact ⟨[d],_,rfl,by simp [GlobToken.Takes,singleGlobToken,segmentGlobToken,differ,plain],later⟩
    | @literal _ _ _ d other same later =>
      refine ⟨[d],_,rfl,?_,later⟩
      rw [singleGlobToken,if_neg other.1,if_neg other.2]
      cases caseSensitive <;> exact ⟨d,rfl,by simpa using same⟩
  · intro ⟨piece,later,same,taken,rest_taken⟩
    subst same
    rw [singleGlobToken] at taken
    by_cases starred : c = star
    · rw [if_pos starred] at taken
      rw [starred]
      refine .segment (fun next => alone ⟨starred,next⟩) (fun mem => ?_) rest_taken
      simpa [segmentGlobToken] using taken slash mem
    · rw [if_neg starred] at taken
      by_cases questioned : c = question
      · rw [if_pos questioned] at taken
        obtain ⟨d,rfl,accepted⟩ := taken
        rw [questioned]
        exact .one (by simpa [segmentGlobToken] using accepted) rest_taken
      · rw [if_neg questioned] at taken
        cases caseSensitive <;> obtain ⟨d,rfl,accepted⟩ := taken <;>
          exact .literal ⟨starred,questioned⟩ (by simpa using accepted) rest_taken

theorem takes_stars {rest path : List Nat} : Takes folds caseSensitive (star :: star :: rest) path ↔
    ∃ piece later, path = piece ++ later ∧ recursiveGlobToken.Takes piece ∧
      Takes folds caseSensitive (afterStars rest) later := by
  constructor
  · intro taken
    cases taken with
    | recursive plain later => exact ⟨_,_,rfl,by simpa [GlobToken.Takes,recursiveGlobToken] using plain,later⟩
    | segment alone => exact absurd rfl alone
    | literal other => exact absurd rfl other.1
  · intro ⟨piece,later,same,taken,rest⟩
    rw [same]
    exact .recursive (by simpa [GlobToken.Takes,recursiveGlobToken] using taken) rest

theorem splits_tokens {fuel : ℕ} {pattern : List Nat} (enough : pattern.length ≤ fuel) (path : List Nat) :
    Splits (filenameGlobTokensFrom folds caseSensitive fuel pattern) path ↔ Takes folds caseSensitive pattern path := by
  have ended (path : List Nat) : path = [] ↔ Takes folds caseSensitive [] path := by
    constructor
    · intro same
      rw [same]
      exact .nil
    · intro taken
      cases taken
      rfl
  induction fuel generalizing pattern path with
  | zero =>
    rw [length_eq_zero_iff.mp (Nat.le_zero.mp enough)]
    exact ended path
  | succ fuel ih =>
    cases pattern with
    | nil => exact ended path
    | cons c rest =>
      rw [length_cons] at enough
      rw [filenameGlobTokensFrom]
      split
      next stars =>
        obtain ⟨rfl,next⟩ := stars
        obtain ⟨rest,rfl⟩ := head?_eq_some_iff.mp next
        have shorter : (afterStars rest).length ≤ fuel := by
          rw [length_cons] at enough
          unfold afterStars
          split <;> (try rw [length_tail]) <;> omega
        rw [takes_stars,Splits]
        simp only [tail_cons,ih shorter]
      next alone =>
        rw [takes_single alone,Splits]
        simp only [ih (Nat.le_of_succ_le_succ enough)]

/-- A glob matches the paths that split into pieces as its pattern takes them. -/
theorem compileGlob_iff (folds : Nat → Nat → Bool) (caseSensitive : Bool) (pattern path : Units) :
    compileGlob folds caseSensitive pattern path = true ↔
      Takes folds caseSensitive (Units.codePoints pattern) (Units.codePoints path) := by
  rw [compileGlob,matchesFilenameGlob_iff,filenameGlobTokens,splits_tokens (Nat.le_refl _)]

example : compileGlob (fun c d => c == d) true (units "**/a***.?s") (units "x/y/a/b.ts") = true := by
  decide +kernel

end Patterns

end Keiko.FilenameGlob
