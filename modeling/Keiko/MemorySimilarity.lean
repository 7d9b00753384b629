import Keiko.Library.Distinct
import Keiko.Library.LowerCase
import Keiko.Library.Rounded
import Keiko.Library.Words

/-! Similarity of memory bodies: normalised text, the set of its pairs of neighbouring units with
the Jaccard index over them, and the cosine of two vectors. The Unicode tables and `Math.sqrt` are
parameters. -/
namespace Keiko.MemorySimilarity
open Keiko.Library Keiko.Library.Units

structure Tables extends CaseTables where
  isLetter : ℕ → Bool
  isNumber : ℕ → Bool
  sqrt : Number → Number

section Normalize
variable (tables : Tables)

/-- Not `PUNCT_OR_CONTROL`. -/
def isKept (point : ℕ) : Bool :=
  tables.isLetter point || tables.isNumber point || isSpacePoint point

def stripped (text : Units) : Units := ((codePoints text).filter (isKept tables)).flatMap ofCodePoint

def normalizeBody (body : Units) : Units :=
  trim (collapse (stripped tables (tables.toLowerCase body)))

def bigramTokens (normalized : Units) : List Units :=
  Distinct.collect (fun _ => true) [] ((normalized.zip normalized.tail).map fun pair => [pair.1,pair.2])

structure PreparedBody where
  normalized : Units
  tokens : List Units

def prepareBody (body : Units) : PreparedBody :=
  ⟨normalizeBody tables body,bigramTokens (normalizeBody tables body)⟩

end Normalize

section Jaccard

def jaccardSimilarityPrepared (a b : PreparedBody) : Number :=
  if a.tokens.length = 0 ∧ b.tokens.length = 0 then 1
  else if a.tokens.length = 0 ∨ b.tokens.length = 0 then 0
  else
    let intersectionSize := a.tokens.countP fun token => decide (token ∈ b.tokens)
    let unionSize := a.tokens.length + b.tokens.length - intersectionSize
    Binary64.div (.ofNat intersectionSize) (.ofNat unionSize)

theorem nodup_tokens (tables : Tables) (body : Units) : (prepareBody tables body).tokens.Nodup :=
  Distinct.nodup_collect _ _ List.nodup_nil

theorem countP_mem_comm {a b : List Units} (nodup : a.Nodup) (distinct' : b.Nodup) :
    a.countP (fun token => decide (token ∈ b)) = b.countP (fun token => decide (token ∈ a)) := by
  rw [List.countP_eq_length_filter,List.countP_eq_length_filter]
  apply List.Perm.length_eq
  rw [List.perm_ext_iff_of_nodup (nodup.filter _) (distinct'.filter _)]
  intro token
  simp [and_comm]

theorem jaccardSimilarityPrepared_comm {a b : PreparedBody} (nodup : a.tokens.Nodup) (distinct' : b.tokens.Nodup) :
    jaccardSimilarityPrepared a b = jaccardSimilarityPrepared b a := by
  have shared := countP_mem_comm nodup distinct'
  unfold jaccardSimilarityPrepared
  by_cases empty : a.tokens.length = 0
  · by_cases empty' : b.tokens.length = 0
    · simp only [empty,empty',and_self,if_true]
    · simp only [empty,empty',true_and,and_true,true_or,or_true,if_true,if_false]
  · by_cases empty' : b.tokens.length = 0
    · simp only [empty,empty',and_true,true_and,true_or,or_true,if_true,if_false]
    · simp only [empty,empty',and_self,or_self,if_false,shared,add_comm a.tokens.length]

end Jaccard

section Cosine

structure Sums where
  dot : Number
  normA : Number
  normB : Number

def sumsFrom (sums : Sums) : List (Number × Number) → Option Sums
  | [] => some sums
  | (av,bv) :: pairs =>
    if !av.isFinite || !bv.isFinite then none
    else sumsFrom ⟨Binary64.add sums.dot (Binary64.mul av bv),Binary64.add sums.normA (Binary64.mul av av),
        Binary64.add sums.normB (Binary64.mul bv bv)⟩ pairs

variable (sqrt : Number → Number)

def Sums.cosine (sums : Sums) : Option Number :=
  if sums.normA = 0 ∨ sums.normB = 0 then none
  else some (Binary64.div sums.dot (Binary64.mul (sqrt sums.normA) (sqrt sums.normB)))

def cosineSimilarity (a b : List Number) : Option Number :=
  if a.length = 0 ∨ a.length ≠ b.length then none
  else (sumsFrom ⟨0,0,0⟩ (a.zip b)).bind (Sums.cosine sqrt)

def Sums.swap (sums : Sums) : Sums := ⟨sums.dot,sums.normB,sums.normA⟩

theorem Sums.cosine_swap (sums : Sums) : sums.swap.cosine sqrt = sums.cosine sqrt := by
  unfold cosine swap
  by_cases flat : sums.normA = 0 ∨ sums.normB = 0
  · rw [if_pos flat,if_pos (Or.comm.mp flat)]
  · rw [if_neg flat,if_neg fun flat' => flat (Or.comm.mp flat'),Binary64.mul_comm]

theorem sumsFrom_swap (sums : Sums) (pairs : List (Number × Number)) :
    sumsFrom sums.swap (pairs.map Prod.swap) = (sumsFrom sums pairs).map Sums.swap := by
  induction pairs generalizing sums with
  | nil => rfl
  | cons pair pairs ih =>
    obtain ⟨av,bv⟩ := pair
    rw [List.map_cons,Prod.swap_prod_mk,sumsFrom,sumsFrom,Bool.or_comm,Binary64.mul_comm bv av]
    split
    · rfl
    · exact ih ⟨Binary64.add sums.dot (Binary64.mul av bv),
        Binary64.add sums.normA (Binary64.mul av av),Binary64.add sums.normB (Binary64.mul bv bv)⟩

theorem cosineSimilarity_comm (a b : List Number) :
    cosineSimilarity sqrt a b = cosineSimilarity sqrt b a := by
  by_cases same : a.length = b.length
  · have swapped := sumsFrom_swap ⟨0,0,0⟩ (a.zip b)
    rw [List.zip_swap] at swapped
    have back : sumsFrom ⟨0,0,0⟩ (b.zip a) = (sumsFrom ⟨0,0,0⟩ (a.zip b)).map Sums.swap := swapped
    unfold cosineSimilarity
    rw [same]
    split
    · rfl
    · rw [back]
      cases sumsFrom ⟨0,0,0⟩ (a.zip b) with
      | none => rfl
      | some sums => exact (Sums.cosine_swap sqrt sums).symm
  · unfold cosineSimilarity
    rw [if_pos (.inr same),if_pos (.inr (Ne.symm same))]

end Cosine

section Ascii

/-- Tables that are right for texts of seven bits, and for the roots of zero and one. -/
def asciiTables : Tables where
  isCased point := (0x41 ≤ point && point ≤ 0x5a) || (0x61 ≤ point && point ≤ 0x7a)
  isCaseIgnorable point := [0x27,0x2e,0x3a,0x5e,0x60].contains point
  lowercase point := if 0x41 ≤ point && point ≤ 0x5a then [point + 0x20] else [point]
  isLetter point := (0x41 ≤ point && point ≤ 0x5a) || (0x61 ≤ point && point ≤ 0x7a)
  isNumber point := 0x30 ≤ point && point ≤ 0x39
  sqrt value := value

end Ascii

end Keiko.MemorySimilarity
