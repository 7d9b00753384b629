import Keiko.Library.CodeUnit

/-! Matching of JavaScript regular expressions with the flags `i` and `u` over the basic plane, by
backtracking: all matches at a position, the preferred one first. Quantifiers are greedy, and a round
of one that reads nothing does not count. -/
namespace Keiko.Library.Backtrack
open List

inductive Regex where
  | empty
  | unit (accepts : CodeUnit → Bool)
  | boundary
  | seq (first second : Regex)
  | alt (first second : Regex)
  | opt (inner : Regex)
  | star (inner : Regex)
  | group (index : ℕ) (inner : Regex)

/-- A position in a text: the unit in front of it, the text behind it and the groups read so far, the
latest first. -/
structure Cursor where
  before : Option CodeUnit
  rest : Units
  groups : List (ℕ × Units)

def Cursor.start (before : Option CodeUnit) (rest : Units) : Cursor := ⟨before,rest,[]⟩

def Cursor.group? (cursor : Cursor) (index : ℕ) : Option Units :=
  (cursor.groups.find? (·.1 == index)).map Prod.snd

section Letters

def fold (c : CodeUnit) : CodeUnit :=
  if Library.unit 'A' ≤ c && c ≤ Library.unit 'Z' then c + 32
  else if c = 0x17f then Library.unit 's'
  else if c = 0x212a then Library.unit 'k'
  else c

def isLetter (c : CodeUnit) : Bool := Library.unit 'a' ≤ fold c && fold c ≤ Library.unit 'z'

/-- `\w`. -/
def isWord (c : CodeUnit) : Bool := isLetter c || CodeUnit.isDigit c || c == Library.unit '_'

def atBoundary (cursor : Cursor) : Bool := cursor.before.any isWord != cursor.rest.head?.any isWord

end Letters

section Run

/-- The matches of a star, whose rounds are the matches of a step that reads something. -/
def starFrom (step : Cursor → List Cursor) : (fuel : ℕ) → Cursor → List Cursor
  | 0, cursor => [cursor]
  | fuel + 1, cursor =>
    ((step cursor).filter fun next => next.rest.length < cursor.rest.length).flatMap (starFrom step fuel) ++ [cursor]

def run : Regex → Cursor → List Cursor
  | .empty, cursor => [cursor]
  | .unit accepts, cursor =>
    match cursor.rest with
    | [] => []
    | c :: rest => if accepts c then [⟨some c,rest,cursor.groups⟩] else []
  | .boundary, cursor => if atBoundary cursor then [cursor] else []
  | .seq first second, cursor => (run first cursor).flatMap (run second)
  | .alt first second, cursor => run first cursor ++ run second cursor
  | .opt inner, cursor =>
    ((run inner cursor).filter fun next => next.rest.length < cursor.rest.length) ++ [cursor]
  | .star inner, cursor => starFrom (run inner) cursor.rest.length cursor
  | .group index inner, cursor =>
    (run inner cursor).map fun next =>
      {next with groups :=
        (index,cursor.rest.take (cursor.rest.length - next.rest.length)) :: next.groups}

/-- `exec` of an expression that starts with `^`. -/
def matchHere (regex : Regex) (text : Units) : Option Cursor := (run regex (.start none text)).head?

/-- `exec` from a position on: the first place where the expression matches. -/
def search (regex : Regex) (before : Option CodeUnit) : Units → Option Cursor
  | [] => (run regex (.start before [])).head?
  | c :: text =>
    match (run regex (.start before (c :: text))).head? with
    | some found => some found
    | none => search regex (some c) text

end Run

section Writing

def literal (text : String) : Regex :=
  text.toList.foldr (fun c regex => .seq (.unit fun d => fold d == Library.unit c) regex) .empty

def space : Regex := .unit CodeUnit.isSpace

def letter : Regex := .unit isLetter

def plus (regex : Regex) : Regex := .seq regex (.star regex)

def upTo (regex : Regex) : ℕ → Regex
  | 0 => .empty
  | times + 1 => .opt (.seq regex (upTo regex times))

def anyOf : List Regex → Regex
  | [] => .unit fun _ => false
  | [regex] => regex
  | regex :: others => .alt regex (anyOf others)

def sequence (regexes : List Regex) : Regex := regexes.foldr .seq .empty

end Writing

section Progress

/-- Expressions every match of which reads something. -/
def Reads : Regex → Bool
  | .unit _ => true
  | .seq first second => Reads first || Reads second
  | .alt first second => Reads first && Reads second
  | .group _ inner => Reads inner
  | _ => false

variable {cursor next : Cursor} {regex : Regex} {t : Units}

theorem length_starFrom {step : Cursor → List Cursor} (fuel : ℕ) :
    ∀ cursor, ∀ next ∈ starFrom step fuel cursor, next.rest.length ≤ cursor.rest.length := by
  induction fuel with
  | zero =>
    intro cursor next mem
    obtain rfl := mem_singleton.mp mem
    exact Nat.le_refl _
  | succ fuel ih =>
    intro cursor next mem
    rw [starFrom,mem_append,mem_flatMap,mem_singleton] at mem
    rcases mem with ⟨middle,inside,behind⟩ | rfl
    · have less := of_decide_eq_true (mem_filter.mp inside).2
      exact Nat.le_trans (ih middle next behind) (Nat.le_of_lt less)
    · exact Nat.le_refl _

theorem length_run (regex : Regex) (mem : next ∈ run regex cursor) :
    next.rest.length ≤ cursor.rest.length := by
  induction regex generalizing cursor next with
  | empty =>
    obtain rfl := mem_singleton.mp mem
    exact Nat.le_refl _
  | unit accepts =>
    rw [run] at mem
    split at mem
    · cases mem
    next c rest t =>
      split at mem
      · rw [mem_singleton.mp mem,t]
        exact Nat.le_succ _
      · cases mem
  | boundary =>
    rw [run] at mem
    split at mem
    · obtain rfl := mem_singleton.mp mem
      exact Nat.le_refl _
    · cases mem
  | seq a b first_ih second_ih =>
    obtain ⟨middle,inside,behind⟩ := mem_flatMap.mp mem
    exact Nat.le_trans (second_ih behind) (first_ih inside)
  | alt a b first_ih second_ih =>
    rcases mem_append.mp mem with inside | inside
    · exact first_ih inside
    · exact second_ih inside
  | opt inner ih =>
    rw [run,mem_append,mem_singleton] at mem
    rcases mem with inside | rfl
    · exact ih (mem_filter.mp inside).1
    · exact Nat.le_refl _
  | star inner _ => exact length_starFrom _ cursor next mem
  | group i inner ih =>
    obtain ⟨middle,inside,rfl⟩ := mem_map.mp mem
    have shorter := ih inside
    exact shorter

theorem length_run_lt (reads : Reads regex = true) (mem : next ∈ run regex cursor) :
    next.rest.length < cursor.rest.length := by
  induction regex generalizing cursor next with
  | unit accepts =>
    rw [run] at mem
    split at mem
    · cases mem
    next c rest t =>
      split at mem
      · rw [mem_singleton.mp mem,t]
        exact Nat.lt_succ_self _
      · cases mem
  | seq a b first_ih second_ih =>
    obtain ⟨middle,inside,behind⟩ := mem_flatMap.mp mem
    rw [Reads,Bool.or_eq_true] at reads
    rcases reads with front | back
    · exact Nat.lt_of_le_of_lt (length_run b behind) (first_ih front inside)
    · exact Nat.lt_of_lt_of_le (second_ih back behind) (length_run a inside)
  | alt a b first_ih second_ih =>
    rw [Reads,Bool.and_eq_true] at reads
    rcases mem_append.mp mem with inside | inside
    · exact first_ih reads.1 inside
    · exact second_ih reads.2 inside
  | group i inner ih =>
    obtain ⟨middle,inside,rfl⟩ := mem_map.mp mem
    have shorter := ih reads inside
    exact shorter
  | empty => cases reads
  | boundary => cases reads
  | opt inner => cases reads
  | star inner => cases reads

theorem length_matchHere (hit : matchHere regex t = some next) : next.rest.length ≤ t.length :=
  length_run regex (mem_of_mem_head? hit)

theorem length_search_lt (reads : Reads regex = true) {pre : Option CodeUnit} (hit : search regex pre t = some next) :
    next.rest.length < t.length := by
  induction t generalizing pre with
  | nil => exact length_run_lt reads (mem_of_mem_head? hit)
  | cons c t ih =>
    rw [search] at hit
    split at hit
    next here =>
      obtain rfl := Option.some.inj hit
      exact length_run_lt reads (mem_of_mem_head? here)
    next =>
      have post := ih hit
      rw [length_cons]
      omega

end Progress

end Keiko.Library.Backtrack
