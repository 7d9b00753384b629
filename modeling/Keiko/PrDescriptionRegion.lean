import Keiko.Library.Text

/-! The managed region of a pull request body: it is found by its two markers outside the code
fences of the body, and replaced with everything around it kept as it stands. A body without a region
gets one behind its last character. -/
namespace Keiko.PrDescriptionRegion
open Keiko.Library

section Markers

@[irreducible] def regionStart : Text := "<!-- keiko:pr-description:v1:start -->".toList

@[irreducible] def regionEnd : Text := "<!-- keiko:pr-description:v1:end -->".toList

def foldCase (c : Char) : Char :=
  if c = '\u212a' then 'k' else if c = '\u017f' then 's' else c.toLower

def startsWithFolded (word text : Text) : Bool := word.isPrefixOf (text.map foldCase)

/-- `/keiko\s*:\s*pr-description/iu` at the start of a text. -/
def matchesMarker (text : Text) : Bool :=
  startsWithFolded "keiko".toList text &&
    match (text.drop 5).dropWhile Text.isSpace with
    | ':' :: rest => startsWithFolded "pr-description".toList (rest.dropWhile Text.isSpace)
    | _ => false

def containsPrDescriptionMarker (value : Text) : Bool := value.tails.any matchesMarker

inductive Refusal where
  | nestedMarker
  | malformed
  | duplicate
  | closingDirective
  | unterminatedFence
  | notOnlyRegion
  deriving DecidableEq, Repr

def Refusal.message : Refusal → String
  | .nestedMarker => "Nested PR description marker"
  | .malformed => "Malformed PR description region"
  | .duplicate => "Duplicate or nested PR description region"
  | .closingDirective => "Closing directive inside replaceable PR description region"
  | .unterminatedFence =>
    "Unterminated fenced code block prevents safe PR description insertion"
  | .notOnlyRegion => "Replacement must contain only the managed region"

def framePrDescriptionRegion (body : Text) : Except Refusal Text :=
  if containsPrDescriptionMarker body then .error .nestedMarker
  else .ok (regionStart ++ '\n' :: body ++ '\n' :: regionEnd)

end Markers

section Directives

def closingWords : List String :=
  ["close","closes","closed","fix","fixes","fixed","resolve","resolves","resolved"]

def isLetter (c : Char) : Bool := ('a' ≤ c && c ≤ 'z') || ('A' ≤ c && c ≤ 'Z')

def isClosingWord (word : Text) : Bool :=
  closingWords.any fun closing => decide (word.map Char.toLower = closing.toList)

/-- `/^#\d/u`. -/
def startsWithNumber : Text → Bool
  | '#' :: digit :: _ => Text.isDigit digit
  | _ => false

/-- `[A-Za-z0-9_.-]`. -/
def isNameCharacter (c : Char) : Bool :=
  isLetter c || Text.isDigit c || ['_','.','-'].contains c

/-- `/^[A-Za-z0-9_.-]+\/[A-Za-z0-9_.-]+#\d/u`. -/
def startsWithReference (target : Text) : Bool :=
  !(target.takeWhile isNameCharacter).isEmpty && match target.dropWhile isNameCharacter with
    | '/' :: rest => !(rest.takeWhile isNameCharacter).isEmpty &&
      startsWithNumber (rest.dropWhile isNameCharacter)
    | _ => false

def isTarget (behind : Text) : Bool :=
  let target := behind.dropWhile Text.isSpace
  let target := match target with
    | ':' :: rest => rest.dropWhile Text.isSpace
    | _ => target
  startsWithNumber target || "https://".toList.isPrefixOf target ||
    "http://".toList.isPrefixOf target || startsWithReference target

/-- The words of a text one after another; `word` is the one that is being read. -/
def hasDirective : Text → Text → Bool
  | word, [] => isClosingWord word && isTarget []
  | word, c :: rest =>
    if isLetter c then hasDirective (word ++ [c]) rest
    else (isClosingWord word && isTarget (c :: rest)) || hasDirective [] rest

def hasIssueClosingDirective (message : Text) : Bool := hasDirective [] message

end Directives

section Fences

structure OpenFence where
  char : Char
  length : ℕ
  deriving DecidableEq

structure FenceAnalysis where
  offsets : List ℕ
  unterminated : Bool

def stripIndent : ℕ → Text → Text
  | count + 1, ' ' :: line => stripIndent count line
  | _, line => line

def stripFenceIndent (line : Text) : Text := stripIndent 3 line

def fenceRun : Text → Option OpenFence
  | [] => none
  | c :: line =>
    if c = '\x60' ∨ c = '~' then some ⟨c,(line.takeWhile (· = c)).length + 1⟩ else none

def matchOpeningFence (line : Text) : Option OpenFence :=
  let stripped := stripFenceIndent line
  match fenceRun stripped with
  | none => none
  | some run =>
    if run.length < 3 then none
    else if run.char = '\x60' ∧ '\x60' ∈ stripped.drop run.length then none
    else some run

def isClosingFence (line : Text) (fence : OpenFence) : Bool :=
  let stripped := stripFenceIndent line
  match fenceRun stripped with
  | none => false
  | some run => decide (run.char = fence.char) && decide (fence.length ≤ run.length) &&
    (stripped.drop run.length).all fun c => c == ' ' || c == '\t'

def logicalLine (line : Text) : Text :=
  if line.getLast? = some '\r' then line.dropLast else line

def fencedLine (offset : ℕ) (line : Text) : List ℕ :=
  (List.range (line.length + 1)).map (offset + ·)

def analyseLines : Option OpenFence → ℕ → List Text → FenceAnalysis
  | fence, _, [] => ⟨[],fence.isSome⟩
  | none, offset, line :: lines =>
    analyseLines (matchOpeningFence (logicalLine line)) (offset + line.length + 1) lines
  | some fence, offset, line :: lines =>
    if isClosingFence (logicalLine line) fence then analyseLines none (offset + line.length + 1) lines
    else
      let rest := analyseLines (some fence) (offset + line.length + 1) lines
      { rest with offsets := fencedLine offset line ++ rest.offsets }

def analyseFences (body : Text) : FenceAnalysis := analyseLines none 0 (Text.splitLines body)

def bodyHasFence (body : Text) : Bool :=
  Text.includes (List.replicate 3 '\x60') body || Text.includes (List.replicate 3 '~') body

end Fences

section Regions

structure RegionSplit where
  before : Text
  region : Text
  suffix : Text
  deriving DecidableEq

structure Parts where
  before : Text
  suffix : Text
  finalBody : Text
  outsideRegionDigest : Text
  deriving DecidableEq

def firstUnfencedIndex (fenced : List ℕ) (marker : Text) : ℕ → Text → Option ℕ
  | _, [] => none
  | offset, c :: text =>
    if marker.isPrefixOf (c :: text) && decide (offset ∉ fenced) then some offset
    else firstUnfencedIndex fenced marker (offset + 1) text

def indexOf (marker body : Text) : Option ℕ := firstUnfencedIndex [] marker 0 body

def unfencedText (fenced : List ℕ) (rangeStart : ℕ) (slice : Text) : Text :=
  ((slice.zipIdx rangeStart).filter fun entry => decide (entry.2 ∉ fenced)).map Prod.fst

def containsUnfencedMarker (slice : Text) (rangeStart : ℕ) (fenced : Option (List ℕ)) : Bool :=
  match fenced with
  | none => containsPrDescriptionMarker slice
  | some fenced => containsPrDescriptionMarker (unfencedText fenced rangeStart slice)

def splitAt (body : Text) (fenced : Option (List ℕ)) (start finish : ℕ) : Except Refusal RegionSplit :=
  let region := (body.take finish).drop (start + regionStart.length)
  if containsUnfencedMarker (body.take start) 0 fenced ||
      containsUnfencedMarker region (start + regionStart.length) fenced ||
      containsUnfencedMarker (body.drop (finish + regionEnd.length)) (finish + regionEnd.length) fenced then
    .error .duplicate
  else if hasIssueClosingDirective region then .error .closingDirective
  else .ok ⟨body.take start,region,body.drop (finish + regionEnd.length)⟩

def split (body : Text) (fenced : Option (List ℕ)) : Except Refusal (Option RegionSplit) :=
  if containsPrDescriptionMarker body then match firstUnfencedIndex (fenced.getD []) regionStart 0 body,
        firstUnfencedIndex (fenced.getD []) regionEnd 0 body with
    | some start, some finish =>
      if finish < start then .error .malformed
      else (splitAt body fenced start finish).map some
    | none, none => if fenced.isSome then .ok none else .error .malformed
    | _, _ => .error .malformed
  else .ok none

def existingRegion (body : Text) : Except Refusal (Option RegionSplit) :=
  let analysis := if bodyHasFence body then some (analyseFences body) else none
  match split body (analysis.map FenceAnalysis.offsets) with
  | .ok none =>
    if analysis.any FenceAnalysis.unterminated then .error .unterminatedFence else .ok none
  | found => found

def surroundings (body : Text) : Option RegionSplit → Text × Text
  | some previous => (previous.before,previous.suffix)
  | none => (if body = [] then [] else body ++ ['\n','\n'],[])

/-- The digest is that of the text before the region and the text behind it. -/
def reconcilePrDescriptionRegion (digest : Text → Text → Text) (body replacement : Text) : Except Refusal Parts :=
  match split replacement none with
  | .error refusal => .error refusal
  | .ok none => .error .notOnlyRegion
  | .ok (some managed) =>
    if managed.before = [] ∧ managed.suffix = [] then match existingRegion body with
      | .error refusal => .error refusal
      | .ok previous =>
        let outside := surroundings body previous
        .ok ⟨(previous.map RegionSplit.before).getD body,outside.2,
          outside.1 ++ replacement ++ outside.2,digest outside.1 outside.2⟩
    else .error .notOnlyRegion

end Regions

end Keiko.PrDescriptionRegion
